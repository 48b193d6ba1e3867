/-
The record of captured files: `record_file_metadata` of
`src/rxcleanupthread.cpp`, with the rotation of the record file and the pruning
of the rotated ones.

The size of the file is kept in a number beside it. A rename that fails, or that
puts the file over one that was rotated in the same second, and a line that is
not written as a whole make the two differ or lose lines (`torn_line`). Without
these the log loses nothing but what is pruned, the number is the size of the
file, and no file outgrows the limit by more than its only line
(`log_loses_nothing`).

A file is here the list of what was written to it, one piece for each write, so
that the same line twice counts twice. The log messages are left out.
-/
import RxNetCap.Archive.Compress
import RxNetCap.Lib.Tally
import RxNetCap.Lib.Trace
import RxNetCap.Query.Types
import Mathlib.Data.List.Perm.Subperm

set_option autoImplicit false

namespace RxNetCap.Archive

open RxNetCap.Capture RxNetCap.Pdef RxNetCap.Tally RxNetCap.Trace

/-! ## Files and calls -/

def RECORD_MAX_SIZE_BYTES : ℕ := 50 * 1024 * 1024

def RECORD_MAX_FILES : ℕ := 2

structure RecordFile where
  pieces : List CStr := []
  mtime : ℤ := 0
  deriving DecidableEq, Repr

def RecordFile.text (file : RecordFile) : CStr := file.pieces.flatten

structure RecordFileEntry where
  path : CStr
  mtime : ℤ
  deriving DecidableEq, Repr

/-- `std::sort` by `record_entry_less`; entries of one time may come in any
order. -/
structure RecordSorter where
  sort : List RecordFileEntry → List RecordFileEntry
  perm : ∀ l, (sort l).Perm l
  sorted : ∀ l, (sort l).Pairwise fun a b => a.mtime ≤ b.mtime

/-- What a call is about, the times it sees, and what the system does in it:
`stored` is how many characters of the line are in the file when it is closed. -/
structure RecordCall where
  capture_id : ℤ
  key : CStr
  info : Query.CaptureFileInfo
  base_dir : Option CStr
  dir_available : Bool := true
  ts : ℤ := 0
  tm : Tm := {}
  tm_sec : ℤ := 0
  renames : Bool := true
  lists : Bool := true
  sorter : RecordSorter
  removes : CStr → Bool := fun _ => true
  opens : Bool := true
  written : ℕ
  stored : ℕ
  mtime : ℤ := 0

/-- A file that was pruned, with the entries that were kept. -/
structure PrunedFile where
  file : RecordFile
  entry : RecordFileEntry
  kept : List RecordFileEntry

/-- The record files by their paths: the current one, the rotated ones, and what
else there is. The source does not keep the list of what it has pruned. -/
structure RecordLog where
  files : Store CStr RecordFile
  record_file_path : CStr := []
  current_record_size : ℕ := 0
  pruned : List PrunedFile := []

/-! ## Lines and names -/

def json_escape_local : CStr → CStr := json_escape

/-- The line of a call. -/
def record_line (call : RecordCall) : CStr :=
  "\x7b\"ts\":".toList ++ decimal call.ts
    ++ ",\"capture_id\":".toList ++ decimal call.capture_id
    ++ ",\"key\":\"".toList ++ json_escape_local call.key ++ "\"".toList
    ++ ",\"file\":\"".toList ++ json_escape_local call.info.file_path ++ "\"".toList
    ++ ",\"size\":".toList ++ decimal (call.info.file_size : ℤ)
    ++ ",\"segment\":".toList ++ decimal call.info.segment_index
    ++ ",\"segments\":".toList ++ decimal call.info.total_segments
    ++ "\x7d\n".toList

def RecordCall.get_record_base_dir (call : RecordCall) : CStr :=
  non_empty_or (call.base_dir.getD []) "/var/log/rxtrace/captures".toList

def RecordCall.current_record_file (call : RecordCall) : CStr :=
  with_slash call.get_record_base_dir ++ "cleanup.log".toList

def RecordCall.rotated (call : RecordCall) : CStr :=
  with_slash call.get_record_base_dir ++ "cleanup_".toList
    ++ timestamp_suffix { tm := call.tm, tm_sec := call.tm_sec } ++ ".log".toList

/-- The name of a file in a directory. -/
def dir_name (record_dir path : CStr) : Option CStr :=
  let name := path.drop (with_slash record_dir).length
  if with_slash record_dir <+: path ∧ name ≠ [] ∧ '/' ∉ name then some name else none

/-! ## The functions -/

def size_of (files : Store CStr RecordFile) (path : CStr) : ℕ :=
  (files.lookup path).elim 0 fun file => file.text.length

/-- The path is set when it is first needed, and the size is read then. -/
def RecordLog.with_path (call : RecordCall) (s : RecordLog) : RecordLog :=
  if s.record_file_path = [] then
    { s with
      record_file_path := call.current_record_file
      current_record_size := size_of s.files call.current_record_file }
  else s

def record_entries (record_dir : CStr) (files : Store CStr RecordFile) : List RecordFileEntry :=
  files.entries.filterMap fun e =>
    (dir_name record_dir e.1).bind fun name =>
      if name.head? = some '.' then none
      else if ¬ "cleanup".toList <+: name then none
      else some { path := e.1, mtime := e.2.mtime }

def RecordLog.prune_entry (call : RecordCall) (kept : List RecordFileEntry) (s : RecordLog)
    (entry : RecordFileEntry) : RecordLog :=
  match s.files.lookup entry.path with
  | some file =>
    if call.removes entry.path then
      { s with
        files := s.files.erase entry.path
        pruned := s.pruned ++ [{ file, entry, kept }] }
    else s
  | none => s

def RecordLog.prune_record_files (call : RecordCall) (s : RecordLog) : RecordLog :=
  if call.lists = false then s
  else
    let entries := record_entries call.get_record_base_dir s.files
    if entries.length ≤ RECORD_MAX_FILES then s
    else
      let to_remove := entries.length - RECORD_MAX_FILES
      let entries := call.sorter.sort entries
      (entries.take to_remove).foldl (RecordLog.prune_entry call (entries.drop to_remove)) s

/-- `rename`, which replaces what has the new path. -/
def rename (files : Store CStr RecordFile) (path rotated : CStr) : Option (Store CStr RecordFile) :=
  (files.lookup path).map fun file => (files.erase path).insert rotated file

def RecordLog.rotate_record_file_if_needed (call : RecordCall) (incoming_size : ℕ) (s : RecordLog) :
    RecordLog :=
  let s := s.with_path call
  if RECORD_MAX_SIZE_BYTES = 0 then s
  else if s.current_record_size + incoming_size ≤ RECORD_MAX_SIZE_BYTES then s
  else
    match if call.renames then rename s.files s.record_file_path call.rotated else none with
    | some files => ({ s with files, current_record_size := 0 } : RecordLog).prune_record_files call
    | none => { s with current_record_size := 0 }

/-- The file after a write. -/
def RecordFile.append (call : RecordCall) (file : Option RecordFile) : RecordFile where
  pieces := (file.getD {}).pieces ++ [(record_line call).take call.stored]
  mtime :=
    match file with
    | some old => if call.stored = 0 then old.mtime else call.mtime
    | none => call.mtime

/-- The log after the line is written, as much of it as is. -/
def RecordLog.write (call : RecordCall) (s : RecordLog) : RecordLog :=
  { s with
    files := s.files.insert s.record_file_path (RecordFile.append call (s.files.lookup s.record_file_path))
    current_record_size :=
      if call.written ≠ (record_line call).length then s.current_record_size
      else s.current_record_size + call.written }

/-- The path is returned for a line that is recorded. -/
def RecordLog.record_file_metadata (call : RecordCall) (s : RecordLog) : CStr × RecordLog :=
  if call.dir_available = false then ([], s)
  else
    let s := (s.with_path call).rotate_record_file_if_needed call (record_line call).length
    if call.opens = false then ([], s) else (s.record_file_path, s.write call)

/-! ## Calls in a row -/

def RecordLog.step (s : RecordLog) (call : RecordCall) : Option RecordLog :=
  some (s.record_file_metadata call).2

/-- The log after some calls, with the files that were there before. -/
def RecordLog.run (files : Store CStr RecordFile) (calls : List RecordCall) : Option RecordLog :=
  Trace.run RecordLog.step { files } calls

/-- The calls that report their line as recorded. -/
def RecordCall.reports (call : RecordCall) : Bool := call.dir_available && call.opens

/-- The lines that are reported as recorded. -/
def reported (calls : List RecordCall) : List CStr := (calls.filter RecordCall.reports).map record_line

/-- What is written, as long as it has not been pruned. -/
def RecordLog.held (s : RecordLog) : List CStr := (values s.files).flatMap RecordFile.pieces

def RecordLog.lost (s : RecordLog) : List CStr := s.pruned.flatMap fun pruned => pruned.file.pieces

/-- When the file has to be rotated, it is renamed, unless it is empty, and no
file has the new name; and the line is written as a whole. -/
structure RecordLog.Smooth (s : RecordLog) (call : RecordCall) : Prop where
  rotates : call.dir_available = true →
    RECORD_MAX_SIZE_BYTES < (s.with_path call).current_record_size + (record_line call).length →
      (call.renames = false → size_of s.files (s.with_path call).record_file_path = 0) ∧
      (call.renames = true → (s.files.lookup (s.with_path call).record_file_path).isSome →
        s.files.lookup call.rotated = none)
  writes : call.reports = true →
    call.written = (record_line call).length ∧ (record_line call).length ≤ call.stored

instance (s : RecordLog) (call : RecordCall) : Decidable (s.Smooth call) :=
  decidable_of_iff
    ((call.dir_available = true →
      RECORD_MAX_SIZE_BYTES < (s.with_path call).current_record_size + (record_line call).length →
        (call.renames = false → size_of s.files (s.with_path call).record_file_path = 0) ∧
        (call.renames = true → (s.files.lookup (s.with_path call).record_file_path).isSome →
          s.files.lookup call.rotated = none)) ∧
      (call.reports = true →
        call.written = (record_line call).length ∧ (record_line call).length ≤ call.stored))
    ⟨fun h => ⟨h.1, h.2⟩, fun h => ⟨h.rotates, h.writes⟩⟩

/-! ## Lines -/

theorem newline_not_mem_decimal (n : ℤ) : '\n' ∉ decimal n := by
  intro hmem
  rcases decimal_chars n _ hmem with h | h
  · revert h
    decide
  · revert h
    decide

theorem newline_not_mem_escape_char (c : Char) : '\n' ∉ json_escape_char c := by
  unfold json_escape_char
  split
  · decide
  · split
    · decide
    · split
      · decide
      · split
        · decide
        · split
          · decide
          · split
            · next hlow =>
              have hdigits : ∀ n < 0x20, '\n' ∉ hex_escape n := by decide
              exact hdigits _ hlow
            · next hc _ _ _ =>
              rw [List.mem_singleton]
              exact Ne.symm hc

theorem newline_not_mem_escape (input : CStr) : '\n' ∉ json_escape_local input := by
  intro hmem
  obtain ⟨c, -, hc⟩ := List.mem_flatMap.mp hmem
  exact newline_not_mem_escape_char c hc

/-- A line has one newline, at its end. -/
theorem record_line_newlines (call : RecordCall) : (record_line call).count '\n' = 1 := by
  have hdecimal : ∀ n : ℤ, (decimal n).count '\n' = 0 := fun n =>
    List.count_eq_zero.mpr (newline_not_mem_decimal n)
  have hescape : ∀ u, (json_escape_local u).count '\n' = 0 := fun u =>
    List.count_eq_zero.mpr (newline_not_mem_escape u)
  unfold record_line
  simp only [List.count_append, hdecimal, hescape]
  decide +kernel

/-! ## Pruning -/

section Steps

variable {s s' : RecordLog} {call : RecordCall} {calls : List RecordCall}

/-- What is in the files and what has been pruned, piece by piece. -/
def RecordLog.all (s : RecordLog) : List CStr := s.held ++ s.lost

/-- What pruning does: files go from the directory to the pruned ones, and nothing
else changes. -/
structure Prunes (s s' : RecordLog) : Prop where
  path : s'.record_file_path = s.record_file_path
  size : s'.current_record_size = s.current_record_size
  files : ∀ path, s'.files.lookup path = none ∨ s'.files.lookup path = s.files.lookup path
  all : s'.all.Perm s.all

theorem Prunes.refl (s : RecordLog) : Prunes s s := ⟨rfl, rfl, fun _ => .inr rfl, .refl _⟩

theorem Prunes.trans {s1 s2 s3 : RecordLog} (h : Prunes s1 s2) (h' : Prunes s2 s3) : Prunes s1 s3 where
  path := h'.path.trans h.path
  size := h'.size.trans h.size
  files path := by
    rcases h'.files path with hnone | hsame
    · exact .inl hnone
    · rw [hsame]
      exact h.files path
  all := h'.all.trans h.all

theorem held_erase {path : CStr} {file : RecordFile} (h : s.files.lookup path = some file) :
    s.held.Perm (file.pieces ++ (values (s.files.erase path)).flatMap RecordFile.pieces) := by
  have hperm := values_erase_perm s.files path
  rw [h] at hperm
  exact hperm.flatMap_right _

theorem prune_entry_prunes (call : RecordCall) (kept : List RecordFileEntry) (s : RecordLog)
    (entry : RecordFileEntry) : Prunes s (s.prune_entry call kept entry) := by
  rw [RecordLog.prune_entry]
  split
  · next file hfile =>
    split
    · refine ⟨rfl, rfl, fun path => ?_, ?_⟩
      · by_cases hpath : path = entry.path
        · rw [hpath]
          exact .inl (AList.lookup_erase ..)
        · exact .inr (AList.lookup_erase_ne hpath)
      · have hheld := (held_erase hfile).append_right s.lost
        have hlost : (s.pruned ++ [PrunedFile.mk file entry kept]).flatMap (fun pruned => pruned.file.pieces)
            = s.lost ++ file.pieces := by
          rw [List.flatMap_append, List.flatMap_singleton]
          rfl
        refine List.Perm.trans ?_ hheld.symm
        change ((values (s.files.erase entry.path)).flatMap RecordFile.pieces
          ++ (s.pruned ++ [PrunedFile.mk file entry kept]).flatMap (fun pruned => pruned.file.pieces)).Perm _
        rw [hlost, ← List.append_assoc]
        exact (List.perm_append_comm).trans (by rw [List.append_assoc])
    · exact Prunes.refl s
  · exact Prunes.refl s

theorem foldl_prunes (kept entries : List RecordFileEntry) (s : RecordLog) :
    Prunes s (entries.foldl (RecordLog.prune_entry call kept) s) := by
  induction entries generalizing s with
  | nil => exact Prunes.refl s
  | cons entry entries ih => exact (prune_entry_prunes call kept s entry).trans (ih _)

/-- Pruning leaves all, or takes the first of the sorted entries. -/
theorem prune_record_files_cases (call : RecordCall) (s : RecordLog) :
    s.prune_record_files call = s ∨ ∃ entries,
      entries = call.sorter.sort (record_entries call.get_record_base_dir s.files) ∧
      RECORD_MAX_FILES < entries.length ∧
      s.prune_record_files call = (entries.take (entries.length - RECORD_MAX_FILES)).foldl
        (RecordLog.prune_entry call (entries.drop (entries.length - RECORD_MAX_FILES))) s := by
  have hlength := (call.sorter.perm (record_entries call.get_record_base_dir s.files)).length_eq
  rw [RecordLog.prune_record_files]
  split
  · exact .inl rfl
  · dsimp only
    split
    · exact .inl rfl
    · next hmany => exact .inr ⟨_, rfl, by rw [hlength]; omega, by rw [hlength]⟩

theorem prune_record_files_prunes (call : RecordCall) (s : RecordLog) :
    Prunes s (s.prune_record_files call) := by
  rcases prune_record_files_cases call s with hsame | ⟨entries, -, -, hfold⟩
  · rw [hsame]
    exact Prunes.refl s
  · rw [hfold]
    exact foldl_prunes _ _ s

/-- A file that was pruned as one of the oldest: as many others as are kept were
not older. -/
structure PrunedFile.Oldest (pruned : PrunedFile) : Prop where
  mtime : pruned.file.mtime = pruned.entry.mtime
  count : pruned.kept.length = RECORD_MAX_FILES
  other : ∀ entry ∈ pruned.kept, entry.path ≠ pruned.entry.path
  older : ∀ entry ∈ pruned.kept, pruned.entry.mtime ≤ entry.mtime

/-- An entry has the time of its file, if that is still there. -/
def Dated (files : Store CStr RecordFile) (entry : RecordFileEntry) : Prop :=
  ∀ file, files.lookup entry.path = some file → file.mtime = entry.mtime

theorem mem_record_entries {record_dir : CStr} {files : Store CStr RecordFile} {entry : RecordFileEntry}
    (h : entry ∈ record_entries record_dir files) : Dated files entry := by
  obtain ⟨e, he, hentry⟩ := List.mem_filterMap.mp h
  obtain ⟨name, -, hname⟩ := Option.bind_eq_some_iff.mp hentry
  split at hname
  · cases hname
  · split at hname
    · cases hname
    · cases hname
      intro file hfile
      have hlookup := AList.mem_lookup_iff.mpr he
      rw [Option.mem_def] at hlookup
      rw [hlookup] at hfile
      cases hfile
      rfl

/-- Two entries are of different files. -/
theorem record_entries_nodup (record_dir : CStr) (files : Store CStr RecordFile) :
    (record_entries record_dir files).Pairwise fun a b => a.path ≠ b.path := by
  refine List.Pairwise.filterMap _ ?_ (List.nodupKeys_iff_pairwise.mp files.nodupKeys)
  intro e e' hne entry hentry entry' hentry'
  have hpath : ∀ (e : Sigma fun _ : CStr => RecordFile) (entry : RecordFileEntry),
      ((dir_name record_dir e.1).bind fun name =>
        if name.head? = some '.' then none
        else if ¬ "cleanup".toList <+: name then none
        else some { path := e.1, mtime := e.2.mtime }) = some entry → entry.path = e.1 := by
    intro e entry h
    obtain ⟨name, -, hname⟩ := Option.bind_eq_some_iff.mp h
    split at hname
    · cases hname
    · split at hname
      · cases hname
      · cases hname
        rfl
  rw [hpath e entry hentry, hpath e' entry' hentry']
  exact hne

theorem foldl_oldest {kept entries : List RecordFileEntry} (hcount : kept.length = RECORD_MAX_FILES)
    (hother : ∀ entry ∈ entries, ∀ k ∈ kept, k.path ≠ entry.path)
    (holder : ∀ entry ∈ entries, ∀ k ∈ kept, entry.mtime ≤ k.mtime)
    (hdated : ∀ entry ∈ entries, Dated s.files entry) (hs : ∀ p ∈ s.pruned, p.Oldest) :
    ∀ p ∈ (entries.foldl (RecordLog.prune_entry call kept) s).pruned, p.Oldest := by
  induction entries generalizing s with
  | nil => exact hs
  | cons entry entries ih =>
    have hstep := prune_entry_prunes call kept s entry
    refine ih (fun e he => hother e (List.mem_cons_of_mem _ he))
      (fun e he => holder e (List.mem_cons_of_mem _ he)) (fun e he file hfile => ?_) ?_
    · rcases hstep.files e.path with hnone | hsame
      · rw [hnone] at hfile
        cases hfile
      · exact hdated e (List.mem_cons_of_mem _ he) file (hsame ▸ hfile)
    · rw [RecordLog.prune_entry]
      split
      · next file hfile =>
        split
        · intro p hp
          rcases List.mem_append.mp hp with hp | hp
          · exact hs p hp
          · rw [List.mem_singleton.mp hp]
            exact ⟨hdated entry List.mem_cons_self file hfile, hcount, hother entry List.mem_cons_self,
              holder entry List.mem_cons_self⟩
        · exact hs
      · exact hs

/-- **Pruning removes the oldest** beyond the number of files that are kept. -/
theorem prune_record_files_oldest (call : RecordCall) (hs : ∀ p ∈ s.pruned, p.Oldest) :
    ∀ p ∈ (s.prune_record_files call).pruned, p.Oldest := by
  rcases prune_record_files_cases call s with hsame | ⟨entries, hentries, hmany, hfold⟩
  · rw [hsame]
    exact hs
  · have hperm : entries.Perm (record_entries call.get_record_base_dir s.files) :=
      hentries ▸ call.sorter.perm _
    have hsorted : entries.Pairwise fun a b => a.mtime ≤ b.mtime := hentries ▸ call.sorter.sorted _
    have hdistinct : entries.Pairwise fun a b => a.path ≠ b.path :=
      hperm.symm.pairwise (record_entries_nodup _ s.files) fun h => Ne.symm h
    have hsplit := List.take_append_drop (entries.length - RECORD_MAX_FILES) entries
    rw [← hsplit] at hsorted hdistinct
    obtain ⟨-, -, holder⟩ := List.pairwise_append.mp hsorted
    obtain ⟨-, -, hother⟩ := List.pairwise_append.mp hdistinct
    rw [hfold]
    refine foldl_oldest ?_ (fun e he k hk => (hother e he k hk).symm) holder (fun e he => ?_) hs
    · rw [List.length_drop]
      omega
    · exact mem_record_entries (hperm.mem_iff.mp (List.mem_of_mem_take he))

/-! ## Rotation -/

/-- A file within the limit, or with a single line, or as it was at the start. -/
def Bounded (files : Store CStr RecordFile) (file : RecordFile) : Prop :=
  file.text.length ≤ RECORD_MAX_SIZE_BYTES ∨ file.text.count '\n' ≤ 1 ∨
    ∃ path old, files.lookup path = some old ∧ old.text = file.text

/-- The number is the size of the file, and the files are bounded. -/
structure RecordLog.Sound (files : Store CStr RecordFile) (s : RecordLog) : Prop where
  size : s.record_file_path ≠ [] → s.current_record_size = size_of s.files s.record_file_path
  bounded : ∀ path file, s.files.lookup path = some file → Bounded files file

variable {files : Store CStr RecordFile}

theorem with_path_files (call : RecordCall) (s : RecordLog) :
    (s.with_path call).files = s.files ∧ (s.with_path call).pruned = s.pruned := by
  rw [RecordLog.with_path]
  split <;> exact ⟨rfl, rfl⟩

theorem with_path_set (call : RecordCall) (s : RecordLog) : (s.with_path call).record_file_path ≠ [] := by
  rw [RecordLog.with_path]
  split
  · exact List.append_ne_nil_of_right_ne_nil _ (by decide)
  · next hset => exact hset

/-- Where the path is set nothing is done. -/
theorem with_path_of_set (hset : s.record_file_path ≠ []) : s.with_path call = s := if_neg hset

theorem RecordLog.Sound.with_path (hs : s.Sound files) (call : RecordCall) : (s.with_path call).Sound files := by
  refine ⟨fun _ => ?_, ?_⟩
  · rw [RecordLog.with_path]
    split
    · rfl
    · next hset => exact hs.size hset
  · rw [(with_path_files call s).1]
    exact hs.bounded

theorem Prunes.sound (h : Prunes s s') (hs : s.Sound files)
    (hnone : s.files.lookup s.record_file_path = none) : s'.Sound files := by
  have hnone' : s'.files.lookup s.record_file_path = none := by
    rcases h.files s.record_file_path with h' | h'
    · exact h'
    · rw [h', hnone]
  refine ⟨fun hset => ?_, fun path file hfile => ?_⟩
  · have hsize := hs.size (h.path ▸ hset)
    rw [size_of, hnone] at hsize
    rw [h.size, hsize, size_of, h.path, hnone']
  · rcases h.files path with h' | h'
    · rw [h'] at hfile
      cases hfile
    · exact hs.bounded path file (h' ▸ hfile)

/-- The log after a rename. -/
def RecordLog.renamed (s : RecordLog) (files : Store CStr RecordFile) : RecordLog :=
  { s with files, current_record_size := 0 }

/-- A rename to a new name moves the file. -/
theorem rename_moves {rotated : CStr} {files' : Store CStr RecordFile}
    (h : rename s.files s.record_file_path rotated = some files') (hnew : s.files.lookup rotated = none) :
    files'.lookup s.record_file_path = none ∧
      (∀ path file, files'.lookup path = some file → ∃ path', s.files.lookup path' = some file) ∧
      (s.renamed files').all.Perm s.all := by
  obtain ⟨file, hfile, rfl⟩ := Option.map_eq_some_iff.mp h
  have hne : s.record_file_path ≠ rotated := by
    rintro heq
    rw [← heq, hfile] at hnew
    cases hnew
  refine ⟨?_, fun path file' hfile' => ?_, ?_⟩
  · rw [AList.lookup_insert_ne hne]
    exact AList.lookup_erase ..
  · by_cases hpath : path = rotated
    · subst hpath
      rw [AList.lookup_insert] at hfile'
      cases hfile'
      exact ⟨_, hfile⟩
    · rw [AList.lookup_insert_ne hpath] at hfile'
      by_cases hold : path = s.record_file_path
      · rw [hold, AList.lookup_erase] at hfile'
        cases hfile'
      · rw [AList.lookup_erase_ne hold] at hfile'
        exact ⟨path, hfile'⟩
  · have herased : (s.files.erase s.record_file_path).lookup rotated = none := by
      rw [AList.lookup_erase_ne hne.symm, hnew]
    have hrest := values_erase_perm (s.files.erase s.record_file_path) rotated
    rw [herased, Option.toList_none, List.nil_append] at hrest
    refine List.Perm.append_right s.lost ?_
    change ((values ((s.files.erase s.record_file_path).insert rotated file)).flatMap RecordFile.pieces).Perm
      s.held
    rw [values_insert, List.flatMap_cons]
    exact ((hrest.symm.flatMap_right _).append_left _).trans (held_erase hfile).symm

/-- **What rotating does**, when it goes well: there is room for the line, or the
file is new. -/
theorem rotates (hs : s.Sound files) (hset : s.record_file_path ≠ []) {n : ℕ}
    (hfails : RECORD_MAX_SIZE_BYTES < s.current_record_size + n → call.renames = false →
      size_of s.files s.record_file_path = 0)
    (hnew : RECORD_MAX_SIZE_BYTES < s.current_record_size + n → call.renames = true →
      (s.files.lookup s.record_file_path).isSome → s.files.lookup call.rotated = none) :
    (s.rotate_record_file_if_needed call n).Sound files ∧
      (s.rotate_record_file_if_needed call n).record_file_path = s.record_file_path ∧
      ((s.rotate_record_file_if_needed call n).current_record_size + n ≤ RECORD_MAX_SIZE_BYTES ∨
        (s.rotate_record_file_if_needed call n).current_record_size = 0) ∧
      (s.rotate_record_file_if_needed call n).all.Perm s.all := by
  rw [RecordLog.rotate_record_file_if_needed, with_path_of_set hset, if_neg (by decide)]
  by_cases hfits : s.current_record_size + n ≤ RECORD_MAX_SIZE_BYTES
  · rw [if_pos hfits]
    exact ⟨hs, rfl, .inl hfits, .refl _⟩
  · have hover := not_le.mp hfits
    rw [if_neg hfits]
    have hempty : size_of s.files s.record_file_path = 0 →
        ({ s with current_record_size := 0 } : RecordLog).Sound files :=
      fun hzero => ⟨fun _ => hzero.symm, hs.bounded⟩
    cases hrenames : call.renames with
    | false =>
      exact ⟨hempty (hfails hover hrenames), rfl, .inr rfl, .refl _⟩
    | true =>
      rw [if_pos rfl]
      cases hrename : rename s.files s.record_file_path call.rotated with
      | none =>
        have hnone : s.files.lookup s.record_file_path = none := Option.map_eq_none_iff.mp hrename
        refine ⟨hempty ?_, rfl, .inr rfl, .refl _⟩
        rw [size_of, hnone]
        rfl
      | some files' =>
        have hsome : (s.files.lookup s.record_file_path).isSome := by
          obtain ⟨file, hfile, -⟩ := Option.map_eq_some_iff.mp hrename
          rw [hfile]
          rfl
        obtain ⟨hgone, hfrom, hall⟩ := rename_moves hrename (hnew hover hrenames hsome)
        have hprunes := prune_record_files_prunes call (s.renamed files')
        have hrenamed : (s.renamed files').Sound files := by
          refine ⟨fun _ => ?_, fun path file hfile => ?_⟩
          · change 0 = size_of files' s.record_file_path
            rw [size_of, hgone]
            rfl
          · obtain ⟨path', hpath'⟩ := hfrom path file hfile
            exact hs.bounded path' file hpath'
        exact ⟨hprunes.sound hrenamed hgone, hprunes.path, .inr hprunes.size, hprunes.all.trans hall⟩

/-! ## One call -/

theorem pieces_append (call : RecordCall) (file : Option RecordFile) :
    (RecordFile.append call file).pieces
      = (file.getD {}).pieces ++ [(record_line call).take call.stored] := rfl

theorem text_append (call : RecordCall) (file : Option RecordFile) :
    (RecordFile.append call file).text
      = (file.getD {}).text ++ (record_line call).take call.stored := by
  rw [RecordFile.text, pieces_append, List.flatten_append, List.flatten_singleton]
  rfl

theorem size_of_eq (files : Store CStr RecordFile) (path : CStr) :
    size_of files path = ((files.lookup path).getD {}).text.length := by
  rw [size_of]
  cases files.lookup path <;> rfl

theorem values_append (s : RecordLog) (call : RecordCall) (path : CStr) : ((values (s.files.insert path
      (RecordFile.append call (s.files.lookup path)))).flatMap RecordFile.pieces).Perm
    (s.held ++ [(record_line call).take call.stored]) := by
  rw [values_insert, List.flatMap_cons, pieces_append]
  have hrest := (values_erase_perm s.files path).flatMap_right RecordFile.pieces
  rw [List.flatMap_append] at hrest
  have hold : ((s.files.lookup path).toList).flatMap RecordFile.pieces
      = ((s.files.lookup path).getD {}).pieces := by
    cases s.files.lookup path with
    | none => rfl
    | some file => exact List.flatMap_singleton _ _
  rw [hold] at hrest
  have hswap : (((s.files.lookup path).getD {}).pieces ++ ([(record_line call).take call.stored]
        ++ (values (s.files.erase path)).flatMap RecordFile.pieces)).Perm
      (((s.files.lookup path).getD {}).pieces ++ ((values (s.files.erase path)).flatMap RecordFile.pieces
        ++ [(record_line call).take call.stored])) := List.perm_append_comm.append_left _
  rw [List.append_assoc]
  refine hswap.trans ?_
  rw [← List.append_assoc]
  exact hrest.symm.append_right _

/-- The log before a line is written. -/
def RecordLog.ready (call : RecordCall) (s : RecordLog) : RecordLog :=
  (s.with_path call).rotate_record_file_if_needed call (record_line call).length

/-- The log after a call. -/
theorem record_file_metadata_log (call : RecordCall) (s : RecordLog) :
    (s.record_file_metadata call).2 =
      if call.dir_available = false then s
      else if call.opens = false then s.ready call
      else (s.ready call).write call := by
  unfold RecordLog.record_file_metadata RecordLog.ready
  by_cases hdir : call.dir_available = false
  · rw [if_pos hdir, if_pos hdir]
  · rw [if_neg hdir, if_neg hdir]
    by_cases hopens : call.opens = false
    · rw [if_pos hopens, if_pos hopens]
    · rw [if_neg hopens, if_neg hopens]

theorem write_pruned (call : RecordCall) (s : RecordLog) : (s.write call).pruned = s.pruned := rfl

/-- **What writing does**, when it goes well. -/
theorem writes (hs : s.Sound files) (hset : s.record_file_path ≠ [])
    (hroom : s.current_record_size + (record_line call).length ≤ RECORD_MAX_SIZE_BYTES ∨
      s.current_record_size = 0)
    (hwritten : call.written = (record_line call).length)
    (hstored : (record_line call).length ≤ call.stored) :
    (s.write call).Sound files ∧ (s.write call).all.Perm (s.all ++ [record_line call]) := by
  have hsize := hs.size hset
  rw [size_of_eq] at hsize
  have hline : (record_line call).take call.stored = record_line call := List.take_of_length_le hstored
  have htext : (RecordFile.append call (s.files.lookup s.record_file_path)).text
      = ((s.files.lookup s.record_file_path).getD {}).text ++ record_line call := by
    rw [text_append, hline]
  have hlookup : (s.write call).files.lookup s.record_file_path
      = some (RecordFile.append call (s.files.lookup s.record_file_path)) := AList.lookup_insert _
  refine ⟨⟨fun _ => ?_, fun path file hfile => ?_⟩, ?_⟩
  · have hcount : (s.write call).current_record_size = s.current_record_size + call.written :=
      if_neg (not_not.mpr hwritten)
    change (s.write call).current_record_size = size_of (s.write call).files s.record_file_path
    rw [hcount, size_of, hlookup, Option.elim_some, htext, List.length_append, hwritten, hsize]
  · by_cases hpath : path = s.record_file_path
    · rw [hpath, hlookup] at hfile
      obtain rfl := Option.some.inj hfile
      rcases hroom with hfits | hempty
      · left
        rw [htext, List.length_append, ← hsize]
        exact hfits
      · right
        left
        rw [hempty] at hsize
        rw [htext, List.length_eq_zero_iff.mp hsize.symm, List.nil_append, record_line_newlines]
    · have hother : (s.write call).files.lookup path = s.files.lookup path := AList.lookup_insert_ne hpath
      exact hs.bounded path file (hother ▸ hfile)
  · have hvalues := values_append s call s.record_file_path
    rw [hline] at hvalues
    refine (hvalues.append_right s.lost).trans ?_
    rw [List.append_assoc, RecordLog.all, List.append_assoc]
    exact List.perm_append_comm.append_left _

theorem all_with_path (call : RecordCall) (s : RecordLog) : (s.with_path call).all = s.all := by
  obtain ⟨hfiles, hpruned⟩ := with_path_files call s
  rw [RecordLog.all, RecordLog.held, RecordLog.lost, hfiles, hpruned]
  rfl

/-- Getting ready for a line, when it goes well. -/
theorem readies (hs : s.Sound files) (hsmooth : s.Smooth call) (hdir : call.dir_available = true) :
    (s.ready call).Sound files ∧ (s.ready call).record_file_path ≠ [] ∧
      ((s.ready call).current_record_size + (record_line call).length ≤ RECORD_MAX_SIZE_BYTES ∨
        (s.ready call).current_record_size = 0) ∧
      (s.ready call).all.Perm s.all := by
  obtain ⟨hfiles, -⟩ := with_path_files call s
  obtain ⟨hready, hpath, hroom, hall⟩ := rotates (hs.with_path call) (with_path_set call s)
    (fun hover hrenames => hfiles ▸ (hsmooth.rotates hdir hover).1 hrenames)
    (fun hover hrenames hsome => hfiles ▸ (hsmooth.rotates hdir hover).2 hrenames (hfiles ▸ hsome))
  rw [all_with_path] at hall
  refine ⟨hready, ?_, hroom, hall⟩
  rw [RecordLog.ready, hpath]
  exact with_path_set call s

/-- **What a call does**, when it goes well. -/
theorem record_step (hs : s.Sound files) (hsmooth : s.Smooth call) :
    (s.record_file_metadata call).2.Sound files ∧
      (s.record_file_metadata call).2.all.Perm (s.all ++ reported [call]) := by
  by_cases hdir : call.dir_available = false
  · have hnone : reported [call] = [] := by simp [reported, RecordCall.reports, hdir]
    rw [record_file_metadata_log, if_pos hdir, hnone, List.append_nil]
    exact ⟨hs, .refl _⟩
  · have hdir' := eq_true_of_ne_false hdir
    obtain ⟨hready, hset, hroom, hall⟩ := readies hs hsmooth hdir'
    by_cases hopens : call.opens = false
    · have hnone : reported [call] = [] := by simp [reported, RecordCall.reports, hopens]
      rw [record_file_metadata_log, if_neg hdir, if_pos hopens, hnone, List.append_nil]
      exact ⟨hready, hall⟩
    · have hreports : call.reports = true := by
        rw [RecordCall.reports, hdir', eq_true_of_ne_false hopens]
        rfl
      have hone : reported [call] = [record_line call] := by simp [reported, hreports]
      obtain ⟨hwritten, hstored⟩ := hsmooth.writes hreports
      obtain ⟨hsound, hadded⟩ := writes hready hset hroom hwritten hstored
      rw [record_file_metadata_log, if_neg hdir, if_neg hopens, hone]
      exact ⟨hsound, hadded.trans (hall.append_right _)⟩

theorem ready_oldest (hs : ∀ p ∈ s.pruned, p.Oldest) : ∀ p ∈ (s.ready call).pruned, p.Oldest := by
  have hpath : ∀ p ∈ (s.with_path call).pruned, p.Oldest := (with_path_files call s).2 ▸ hs
  rw [RecordLog.ready, RecordLog.rotate_record_file_if_needed, with_path_of_set (with_path_set call s)]
  split
  · exact hpath
  · split
    · exact hpath
    · split
      · exact prune_record_files_oldest call hpath
      · exact hpath

/-- Whatever happens in a call, only the oldest files are pruned. -/
theorem step_oldest (hs : ∀ p ∈ s.pruned, p.Oldest) :
    ∀ p ∈ (s.record_file_metadata call).2.pruned, p.Oldest := by
  rw [record_file_metadata_log]
  by_cases hdir : call.dir_available = false
  · rw [if_pos hdir]
    exact hs
  · rw [if_neg hdir]
    by_cases hopens : call.opens = false
    · rw [if_pos hopens]
      exact ready_oldest hs
    · rw [if_neg hopens, write_pruned]
      exact ready_oldest hs

end Steps

/-! ## Any number of calls -/

section Run

variable {files : Store CStr RecordFile} {calls : List RecordCall} {s : RecordLog}

theorem reported_concat (calls : List RecordCall) (call : RecordCall) :
    reported (calls ++ [call]) = reported calls ++ reported [call] := by
  rw [reported, List.filter_append, List.map_append]
  rfl

theorem reported_nil : reported [] = [] := rfl

theorem Sound.init (files : Store CStr RecordFile) : RecordLog.Sound files { files } :=
  ⟨fun hset => absurd rfl hset, fun path file hfile => .inr (.inr ⟨path, file, hfile, rfl⟩)⟩

theorem record_steps (calls : List RecordCall) (s : RecordLog) (call : RecordCall) (s' : RecordLog)
    (hs : s.Sound files ∧ s.all.Perm (RecordLog.all { files } ++ reported calls)) (hsmooth : s.Smooth call)
    (h : s.step call = some s') :
    s'.Sound files ∧ s'.all.Perm (RecordLog.all { files } ++ reported (calls ++ [call])) := by
  obtain ⟨hsound, hall⟩ := record_step hs.1 hsmooth
  cases h
  refine ⟨hsound, hall.trans ?_⟩
  rw [reported_concat, ← List.append_assoc]
  exact hs.2.append_right _

theorem run_oldest (h : RecordLog.run files calls = some s) : ∀ p ∈ s.pruned, p.Oldest := by
  refine run_induction (P := fun _ s => ∀ p ∈ s.pruned, p.Oldest) (by simp) ?_ h
  intro calls s call s' _ hs hstep
  cases hstep
  exact step_oldest hs

/-- **The log loses nothing** but what is pruned, as long as it goes well: every line
that is reported is in a file, or in one that was pruned as one of the oldest; the
number is the size of the file; and no file has outgrown the limit by more than its
only line. -/
theorem log_loses_nothing (h : RecordLog.run files calls = some s)
    (hsmooth : Along RecordLog.step RecordLog.Smooth { files } calls) :
    (reported calls).Subperm (s.held ++ s.lost) ∧ (∀ p ∈ s.pruned, p.Oldest) ∧
      (s.record_file_path ≠ [] → s.current_record_size = size_of s.files s.record_file_path) ∧
      ∀ path file, s.files.lookup path = some file → Bounded files file := by
  obtain ⟨hs, hall⟩ := run_along
    (I := fun calls s => s.Sound files ∧ s.all.Perm (RecordLog.all { files } ++ reported calls))
    ⟨Sound.init files, by rw [reported_nil, List.append_nil]⟩ record_steps hsmooth h
  refine ⟨?_, run_oldest h, hs.size, hs.bounded⟩
  exact (List.sublist_append_right _ _).subperm.trans hall.symm.subperm

end Run

/-! ## A full disk -/

def sort_records : RecordSorter where
  sort := fun l => l.mergeSort fun a b => decide (a.mtime ≤ b.mtime)
  perm := fun l => List.mergeSort_perm l _
  sorted := fun l => by
    refine (List.pairwise_mergeSort ?_ ?_ l).imp fun h => of_decide_eq_true h
    · intro a b c hab hbc
      exact decide_eq_true ((of_decide_eq_true hab).trans (of_decide_eq_true hbc))
    · intro a b
      simpa using Int.le_total a.mtime b.mtime

/-- A call that can write no more than so many characters. -/
def recorded (room : ℕ) : RecordCall where
  capture_id := 1
  key := "k".toList
  info := { file_path := "/a.pcap".toList, file_size := 24 }
  base_dir := none
  sorter := sort_records
  written := min room 86
  stored := min room 86

theorem torn_line_written : (RecordLog.run ∅ [recorded 10]).map (fun s =>
      (decide (s.record_file_path = []), s.current_record_size, size_of s.files s.record_file_path))
    = some (false, 0, 10) := by
  decide +kernel

/-- **The number is not the size** after a line that was not written as a whole. -/
theorem torn_line : ∃ s, RecordLog.run ∅ [recorded 10] = some s ∧
    ¬ (s.record_file_path ≠ [] → s.current_record_size = size_of s.files s.record_file_path) := by
  obtain ⟨s, hrun, hs⟩ := Option.map_eq_some_iff.mp torn_line_written
  obtain ⟨hset, hs⟩ := Prod.mk.inj hs
  obtain ⟨hnumber, hsize⟩ := Prod.mk.inj hs
  refine ⟨s, hrun, fun h => ?_⟩
  have hsame := h (of_decide_eq_false hset)
  rw [hnumber, hsize] at hsame
  cases hsame

/-- Two calls with room for their lines lose neither. -/
theorem whole_lines_kept : ∃ s, RecordLog.run ∅ [recorded 100, recorded 100] = some s ∧
    (reported [recorded 100, recorded 100]).Subperm (s.held ++ s.lost) :=
  ⟨_, rfl, (log_loses_nothing rfl (by decide +kernel)).1⟩

end RxNetCap.Archive
