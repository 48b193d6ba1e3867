/-
The archives that the cleanup thread makes: `compress_file` and
`compress_batch` of `src/rxcleanupthread.cpp`, with the command lines that they
pass to `system()`.

The log is left out. Whether a source file could be removed is only logged.
-/
import RxNetCap.Capture.Naming
import RxNetCap.Capture.Session
import RxNetCap.Lib.Shell

set_option autoImplicit false

namespace RxNetCap.Archive

open RxNetCap.Capture RxNetCap.Pdef RxNetCap.Shell

/-! ## Files and archives -/

/-- The settings of the cleanup thread that these functions read. -/
structure CleanupConfig where
  archive_dir : CStr := "/var/log/rxtrace/archives".toList
  archive_keep_days : ℤ := 14
  archive_max_total_size_mb : ℕ := 0
  archive_remove_source : Bool := true
  deriving DecidableEq, Repr

/-- `segment_index` is a field of the file; only the name of an archive is made
from it. -/
structure PendingFile where
  capture_id : ℤ := 0
  key : CStr := []
  sid : CStr := []
  file : CaptureFileInfo
  segment_index : ℤ := 0
  policy : CaptureConfigSnapshot := {}
  deriving DecidableEq, Repr

/-- A file with what compressing it adds. -/
structure CompressedFile extends CaptureFileInfo where
  compressed : Bool := true
  archive_path : CStr
  compress_finish_ts : ℤ
  deriving DecidableEq, Repr

structure CaptureArchiveInfo where
  archive_path : CStr := []
  archive_size : ℕ := 0
  compress_finish_ts : ℤ := 0
  files : List CompressedFile := []
  deriving DecidableEq, Repr

/-- Whether the archive directory is there, the local time, what `system()`
returns, the sizes of files before and after it, and `time(NULL)`. -/
structure CompressWorld where
  archive_dir_available : Bool := true
  tm : Tm := {}
  tm_sec : ℤ := 0
  rc : ℤ := 0
  stat : CStr → Option ℕ := fun _ => some 0
  after : CStr → Option ℕ := fun _ => some 0
  now : ℤ := 0

/-- What a compression comes to: the command it passed to `system()`, the files
it removed, and the archive or an error. -/
structure Compression where
  command : Option CStr := none
  removed : List CStr := []
  result : Except CStr CaptureArchiveInfo

/-! ## Names -/

/-- `%Y%m%d_%H%M%S` -/
def timestamp_suffix (world : CompressWorld) : CStr :=
  zero_padded 4 (world.tm.tm_year + 1900) ++ zero_padded 2 (world.tm.tm_mon + 1)
    ++ zero_padded 2 world.tm.tm_mday ++ "_".toList ++ zero_padded 2 world.tm.tm_hour
    ++ zero_padded 2 world.tm.tm_min ++ zero_padded 2 world.tm_sec

/-- The directory with a slash behind it. -/
def with_slash (dir : CStr) : CStr :=
  if dir ≠ [] ∧ dir.getLast? ≠ some '/' then dir ++ "/".toList else dir

def batch_archive_name (world : CompressWorld) (capture_id : ℤ) : CStr :=
  "batch_".toList ++ timestamp_suffix world ++ "_".toList ++ decimal capture_id ++ ".tar.gz".toList

def file_archive_name (world : CompressWorld) (pending : PendingFile) : CStr :=
  "capture_".toList ++ timestamp_suffix world ++ "_".toList ++ decimal pending.capture_id
    ++ "_".toList ++ decimal pending.segment_index ++ ".tgz".toList

/-- What follows the last slash. -/
def basename (filename : CStr) : CStr := (filename.reverse.takeWhile (· ≠ '/')).reverse

/-- The cleanup thread's own records are not compressed. -/
def is_record_file (filename : CStr) : Bool :=
  "cleanup".toList <+: basename filename ∧ ".log".toList <:+: basename filename

/-! ## One file -/

def should_compress_size (file_size : ℕ) (policy_threshold_mb : ℤ) : Bool :=
  let effective := if policy_threshold_mb > 0 then policy_threshold_mb.toNat * 1024 * 1024 else 0
  effective = 0 ∨ file_size ≥ effective

/-- A command with a file in single quotes behind it. -/
def with_file (command filename : CStr) : CStr :=
  command ++ " '".toList ++ filename ++ "'".toList

/-- Where the policy's own command has left the file. -/
def produced_path (world : CompressWorld) (filename : CStr) : CStr × ℕ :=
  match world.after filename with
  | some size => (filename, size)
  | none =>
    match world.after (filename ++ ".gz".toList) with
    | some size => (filename ++ ".gz".toList, size)
    | none => (filename, 0)

def compress_file (world : CompressWorld) (config : CleanupConfig) (pending : PendingFile) :
    Compression :=
  let filename := pending.file.file_path
  match world.stat filename with
  | none => { result := .error "file_not_found".toList }
  | some size =>
    if !pending.policy.compress_enabled then { result := .ok {} }
    else if !should_compress_size size pending.policy.compress_threshold_mb then { result := .ok {} }
    else
      let use_policy_cmd := pending.policy.compress_format ≠ []
      if ¬ use_policy_cmd ∧ world.archive_dir_available = false then
        { result := .error "archive_dir_unavailable".toList }
      else
        let archive_path := with_slash config.archive_dir ++ file_archive_name world pending
        let command :=
          if use_policy_cmd then with_file pending.policy.compress_format filename
          else with_file (with_file "tar -czf".toList archive_path) filename
        if world.rc ≠ 0 then
          { command := some (c_str command), result := .error "compress_failed".toList }
        else
          let (produced, archive_size) :=
            if use_policy_cmd then produced_path world filename
            else (archive_path, (world.after archive_path).getD 0)
          let archive_path := non_empty_or produced filename
          { command := some (c_str command)
            removed :=
              if (config.archive_remove_source ∨ pending.policy.compress_remove_src)
                ∧ (world.after filename).isSome then [filename] else []
            result := .ok
              { archive_path
                archive_size
                compress_finish_ts := world.now
                files := [{ pending.file with archive_path, compress_finish_ts := world.now }] } }

/-! ## A batch -/

/-- The paths of the files that go into the archive. -/
def selected (files : List PendingFile) : List CStr :=
  (files.map fun pending => pending.file.file_path).filter fun filename => !is_record_file filename

def batch_archive_path (world : CompressWorld) (config : CleanupConfig) (first : PendingFile) :
    CStr :=
  with_slash config.archive_dir ++ batch_archive_name world first.capture_id

def batch_command (archive_path : CStr) (files : List PendingFile) : CStr :=
  (selected files).foldl with_file (with_file "tar -czf".toList archive_path)

def compress_batch (world : CompressWorld) (config : CleanupConfig) :
    List PendingFile → Compression
  | [] => { result := .error "no_files_to_compress".toList }
  | first :: rest =>
    let files := first :: rest
    if world.archive_dir_available = false then
      { result := .error "archive_dir_unavailable".toList }
    else
      let archive_path := batch_archive_path world config first
      if (selected files).length = 0 then { result := .error "no_files_after_filter".toList }
      else
        let command := some (c_str (batch_command archive_path files))
        if world.rc ≠ 0 then { command, result := .error "compress_failed".toList }
        else
          { command
            removed := if config.archive_remove_source then selected files else []
            result := .ok
              { archive_path
                archive_size := (world.after archive_path).getD 0
                compress_finish_ts := world.now
                files := files.map fun pending =>
                  { pending.file with archive_path, compress_finish_ts := world.now } } }

end RxNetCap.Archive
