/-
The files of a task: `append_capture_files` and `record_archive` of
`src/rxsafetaskmgr.h`.

Both give the task a list of files, and a file that the task has already is
replaced by the new mention of its path. So whatever the calls were, the task
has each path once, as it was last mentioned, in the order of the first
mentions, and the last call may come twice (`files_merged`).

The calls change nothing else of a task but the list of its archives, and they
answer only whether the task is there; how the store puts the changed task in its
place is the update of `Capture.Tasks`.
-/
import RxNetCap.Lib.Keyed
import RxNetCap.Query.Types

set_option autoImplicit false

namespace RxNetCap.Query

open RxNetCap.Keyed RxNetCap.Pdef

/-- What the two calls read and write of a task. -/
structure TaskFiles where
  captured_files : List CaptureFileInfo := []
  archives : List CaptureArchiveInfo := []
  deriving DecidableEq, Repr

def TaskAppendFiles (files : List CaptureFileInfo) (task : TaskFiles) : TaskFiles :=
  { task with captured_files := put_all CaptureFileInfo.file_path task.captured_files files }

/-- An archive without a path is never merged. -/
def merge_archive (archives : List CaptureArchiveInfo) (archive : CaptureArchiveInfo) :
    List CaptureArchiveInfo :=
  if archive.archive_path = [] then archives ++ [archive]
  else put CaptureArchiveInfo.archive_path archives archive

def TaskArchiveRecorder (archive : CaptureArchiveInfo) (task : TaskFiles) : TaskFiles :=
  { archives := merge_archive task.archives archive
    captured_files := put_all CaptureFileInfo.file_path task.captured_files archive.files }

/-- One call on the task. -/
inductive FileCall where
  | append_capture_files (files : List CaptureFileInfo)
  | record_archive (archive : CaptureArchiveInfo)
  deriving DecidableEq, Repr

def FileCall.perform (task : TaskFiles) : FileCall → TaskFiles
  | .append_capture_files files => if files = [] then task else TaskAppendFiles files task
  | .record_archive archive => TaskArchiveRecorder archive task

/-- The task after a sequence of calls. -/
def files_after (calls : List FileCall) : TaskFiles := calls.foldl FileCall.perform {}

/-- The files that a call gives. -/
def FileCall.files : FileCall → List CaptureFileInfo
  | .append_capture_files files => files
  | .record_archive archive => archive.files

/-- All files that were given, in their order. -/
def mentions (calls : List FileCall) : List CaptureFileInfo := calls.flatMap FileCall.files

/-- A list of files in which later mentions of a path have replaced earlier ones. -/
structure MergedFiles (mentions files : List CaptureFileInfo) : Prop where
  nodup : (files.map CaptureFileInfo.file_path).Nodup
  latest : ∀ path, files.find? (·.file_path = path) = mentions.reverse.find? (·.file_path = path)
  ordered : (files.map CaptureFileInfo.file_path).Pairwise fun path path' =>
    (mentions.map CaptureFileInfo.file_path).idxOf path < (mentions.map CaptureFileInfo.file_path).idxOf path'

/-! ## The calls as puts -/

/-- **One call.** Each call puts its files. -/
theorem perform_files (task : TaskFiles) (call : FileCall) : (call.perform task).captured_files
    = put_all CaptureFileInfo.file_path task.captured_files call.files := by
  cases call with
  | append_capture_files files =>
    show (if files = [] then task else TaskAppendFiles files task).captured_files = _
    split
    · next hfiles => rw [FileCall.files, hfiles, put_all_nil]
    · rfl
  | record_archive archive => rfl

theorem files_after_concat (calls : List FileCall) (call : FileCall) :
    files_after (calls ++ [call]) = call.perform (files_after calls) := by
  rw [files_after, List.foldl_append]
  rfl

/-- **All calls.** They put all mentions in their order. -/
theorem files_after_eq (calls : List FileCall) :
    (files_after calls).captured_files = put_all CaptureFileInfo.file_path [] (mentions calls) := by
  induction calls using List.reverseRecOn with
  | nil => rfl
  | append_singleton calls call ih =>
    rw [files_after_concat, perform_files, ih, ← put_all_append, mentions, mentions, List.flatMap_append,
      List.flatMap_singleton]

theorem append_file_eq_put (files : List Capture.CaptureFileInfo) (file : Capture.CaptureFileInfo) :
    Capture.append_file files file = put Capture.CaptureFileInfo.file_path files file := by
  induction files with
  | nil => rfl
  | cons first rest ih => rw [Capture.append_file, put, ih]

/-- What the messages of a capture say of the files is merged the same way. -/
theorem append_files_reported (files : List CaptureFileInfo) (task : TaskFiles) :
    (TaskAppendFiles files task).captured_files.map CaptureFileInfo.reported
      = (files.map CaptureFileInfo.reported).foldl Capture.append_file
          (task.captured_files.map CaptureFileInfo.reported) := by
  have hput (l : List CaptureFileInfo) (file : CaptureFileInfo) :
      (put CaptureFileInfo.file_path l file).map CaptureFileInfo.reported
        = Capture.append_file (l.map CaptureFileInfo.reported) file.reported := by
    induction l with
    | nil => rfl
    | cons first rest ih =>
      have hsame : first.reported.file_path = first.file_path ∧ file.reported.file_path = file.file_path :=
        ⟨rfl, rfl⟩
      rw [put, List.map_cons, Capture.append_file, hsame.1, hsame.2]
      split
      · rfl
      · rw [List.map_cons, ih]
  unfold TaskAppendFiles
  generalize task.captured_files = l
  induction files using List.reverseRecOn with
  | nil => rfl
  | append_singleton files file ih =>
    rw [put_all_concat, hput, ih, List.map_append, List.foldl_append]
    rfl

/-! ## All sequences of calls -/

/-- **The files of a task.** After any calls each path is there once, as last
mentioned and in the order of the first mentions, and the last call once more
changes none of them. -/
theorem files_merged (calls : List FileCall) (last : FileCall) :
    MergedFiles (mentions calls) (files_after calls).captured_files ∧
      (files_after (calls ++ [last, last])).captured_files
        = (files_after (calls ++ [last])).captured_files := by
  have hnodup (calls : List FileCall) :
      ((files_after calls).captured_files.map CaptureFileInfo.file_path).Nodup := by
    rw [files_after_eq]
    exact put_all_nodup (l := []) List.nodup_nil _
  refine ⟨⟨hnodup calls, fun path => ?_, ?_⟩, ?_⟩
  · rw [files_after_eq, find_put_all, List.find?_nil, Option.or_none]
  · rw [files_after_eq]
    exact put_all_ordered _
  · have htwice : calls ++ [last, last] = calls ++ [last] ++ [last] := by simp
    rw [htwice, files_after_concat, perform_files, files_after_concat, perform_files]
    exact put_all_again (hnodup calls) _

end RxNetCap.Query
