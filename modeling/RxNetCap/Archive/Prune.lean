/-
The limits on archives: `prune_archives` of `src/rxcleanupthread.cpp`.

Archives that are too old are removed, and then the oldest ones until the rest
is within the size limit. Only names that begin with `capture_` count as
archives here, and those are what `compress_file` makes. The archives of
`compress_batch` are neither removed nor counted (`batch_remains`), so the
limits hold of all archives only where they leave room for these
(`within_limits_iff`).

The log is left out.
-/
import RxNetCap.Archive.Compress
import RxNetCap.Lib.Eviction

set_option autoImplicit false

namespace RxNetCap.Archive

open RxNetCap.Capture RxNetCap.Pdef RxNetCap.Eviction

/-! ## Settings -/

def LONG_MAX : ℤ := 2 ^ 63 - 1

def archive_retention_seconds (config : CleanupConfig) : ℕ :=
  if config.archive_keep_days > 0 then
    if config.archive_keep_days > LONG_MAX / 86400 then LONG_MAX.toNat
    else (config.archive_keep_days * 86400).toNat
  else 0

/-- 0 when there is no limit. -/
def archive_max_total_bytes (config : CleanupConfig) : ℕ :=
  if config.archive_max_total_size_mb > 0 then
    config.archive_max_total_size_mb * 1024 * 1024 % 2 ^ 64
  else 0

def cutoff (config : CleanupConfig) (now : ℕ) : ℕ :=
  if archive_retention_seconds config > now then 0 else now - archive_retention_seconds config

/-! ## The directory -/

/-- Times are in seconds since 1970. -/
structure FileStat where
  is_regular : Bool := true
  st_mtime : ℕ
  st_size : ℕ
  deriving DecidableEq, Repr

structure DirEntry where
  d_name : CStr
  stat : Option FileStat
  deriving DecidableEq, Repr

structure ArchiveFileEntry where
  path : CStr
  mtime : ℕ
  size : ℕ
  deriving DecidableEq, Repr

/-- `std::sort` by `archive_entry_less`; entries of one time may come in any
order. -/
structure Sorter where
  sort : List ArchiveFileEntry → List ArchiveFileEntry
  perm : ∀ l, (sort l).Perm l
  sorted : ∀ l, (sort l).Pairwise fun a b => a.mtime ≤ b.mtime

/-- `time(NULL)`, what reading the directory gives if it can be opened, which
files `remove()` can remove, and `std::sort`. -/
structure PruneWorld where
  now : ℕ
  dir : Option (List DirEntry)
  removes : CStr → Bool := fun _ => true
  sorter : Sorter

/-! ## Pruning -/

structure PruneScan where
  removed : List CStr := []
  entries : List ArchiveFileEntry := []
  total_size : ℕ := 0
  deriving DecidableEq, Repr

def expired (config : CleanupConfig) (now mtime : ℕ) : Bool :=
  archive_retention_seconds config > 0 ∧ cutoff config now ≠ 0 ∧ mtime < cutoff config now

/-- The removal of a file, if it succeeds. -/
def remove (world : PruneWorld) (path : CStr) : List CStr :=
  if world.removes path then [path] else []

/-- One round of the loop over the directory. -/
def scan_entry (world : PruneWorld) (config : CleanupConfig) (scan : PruneScan) (ent : DirEntry) :
    PruneScan :=
  if ent.d_name.head? = some '.' then scan
  else if ¬ "capture_".toList <+: ent.d_name then scan
  else
    let path := with_slash config.archive_dir ++ ent.d_name
    match ent.stat with
    | none => scan
    | some st =>
      if st.is_regular = false then scan
      else if expired config world.now st.st_mtime then
        { scan with removed := scan.removed ++ remove world path }
      else if archive_max_total_bytes config = 0 then scan
      else
        { scan with
          entries := scan.entries ++ [{ path, mtime := st.st_mtime, size := st.st_size }]
          total_size := (scan.total_size + st.st_size) % 2 ^ 64 }

/-- The loop over the sorted entries. -/
def drop_oldest (world : PruneWorld) (limit : ℕ) : ℕ → List ArchiveFileEntry → List CStr
  | _, [] => []
  | total_size, entry :: rest =>
    if total_size > limit then
      remove world entry.path ++ drop_oldest world limit
        (if world.removes entry.path then
          if entry.size ≤ total_size then total_size - entry.size else 0
        else total_size) rest
    else []

/-- The files that are removed. -/
def prune_archives (world : PruneWorld) (config : CleanupConfig) : List CStr :=
  if config.archive_dir = [] then []
  else if archive_retention_seconds config = 0 ∧ archive_max_total_bytes config = 0 then []
  else
    match world.dir with
    | none => []
    | some dir =>
      let scan := dir.foldl (scan_entry world config) {}
      if archive_max_total_bytes config = 0 ∨ scan.entries = [] then scan.removed
      else if scan.total_size ≤ archive_max_total_bytes config then scan.removed
      else
        scan.removed ++ drop_oldest world (archive_max_total_bytes config) scan.total_size
          (world.sorter.sort scan.entries)

/-! ## Directories of archives -/

structure ArchiveFile where
  name : CStr
  st_mtime : ℕ
  st_size : ℕ
  deriving DecidableEq, Repr

/-- The names that are given to archives. -/
inductive MadeName : CStr → Prop where
  | batch (world : CompressWorld) (capture_id : ℤ) : MadeName (batch_archive_name world capture_id)
  | file (world : CompressWorld) (pending : PendingFile) : MadeName (file_archive_name world pending)

/-- What `compress_file` and `compress_batch` have left in a directory. The
sizes together fit in the 64 bits that any size on a disk does. -/
structure ArchiveDir where
  files : List ArchiveFile
  made : ∀ f ∈ files, MadeName f.name
  distinct : (files.map ArchiveFile.name).Nodup
  fits : total ArchiveFile.st_size files < 2 ^ 64

namespace ArchiveFile

variable (config : CleanupConfig) (f : ArchiveFile)

def dir_entry : DirEntry where
  d_name := f.name
  stat := some { st_mtime := f.st_mtime, st_size := f.st_size }

def path : CStr := with_slash config.archive_dir ++ f.name

def entry : ArchiveFileEntry where
  path := f.path config
  mtime := f.st_mtime
  size := f.st_size

/-- An archive of a single file. -/
def is_capture : Bool := "capture_".toList <+: f.name

/-- It is older than archives are kept. -/
def TooOld (now : ℕ) : Prop :=
  0 < archive_retention_seconds config ∧ f.st_mtime + archive_retention_seconds config < now

instance (now : ℕ) : Decidable (f.TooOld config now) := inferInstanceAs (Decidable (_ ∧ _))

end ArchiveFile

/-- The limits on all archives: none is too old, they are within the size
limit, and of those that are not too old the oldest ones were removed. -/
structure WithinLimits (config : CleanupConfig) (now : ℕ) (before after : List ArchiveFile) :
    Prop where
  recent : ∀ f ∈ after, ¬ f.TooOld config now
  bounded : 0 < archive_max_total_bytes config →
    total ArchiveFile.st_size after ≤ archive_max_total_bytes config
  oldest_first : ∀ f ∈ before, ¬ f.TooOld config now → f ∉ after →
    ∀ kept ∈ after, f.st_mtime ≤ kept.st_mtime

def batches (files : List ArchiveFile) : List ArchiveFile := files.filter fun f => !f.is_capture

/-- The archives of single files that are not too old. -/
def young_captures (config : CleanupConfig) (now : ℕ) (files : List ArchiveFile) :
    List ArchiveFile :=
  files.filter fun f => f.is_capture && !decide (f.TooOld config now)

/-- These as they are sorted, the oldest first. -/
def oldest_first (world : PruneWorld) (config : CleanupConfig) (files : List ArchiveFile) :
    List ArchiveFileEntry :=
  world.sorter.sort ((young_captures config world.now files).map (ArchiveFile.entry config))

/-- What the limits leave to the archives of batches: none is too old, they
have room beside any of the newest archives of single files that are within the
limit, and none is older than one of those that are not. -/
structure BatchesCovered (world : PruneWorld) (config : CleanupConfig) (files : List ArchiveFile) :
    Prop where
  recent : ∀ f ∈ batches files, ¬ f.TooOld config world.now
  room : 0 < archive_max_total_bytes config → ∀ newest, newest <:+ oldest_first world config files →
    total ArchiveFileEntry.size newest ≤ archive_max_total_bytes config →
    total ArchiveFileEntry.size newest + total ArchiveFile.st_size (batches files)
      ≤ archive_max_total_bytes config
  newer : 0 < archive_max_total_bytes config → ∀ entry newest,
    entry :: newest <:+ oldest_first world config files →
    archive_max_total_bytes config < total ArchiveFileEntry.size (entry :: newest) →
    ∀ f ∈ batches files, entry.mtime ≤ f.st_mtime

/-- The archives that are left. -/
def remaining (world : PruneWorld) (config : CleanupConfig) (files : List ArchiveFile) :
    List ArchiveFile :=
  files.filter fun f => f.path config ∉ prune_archives world config

/-! ## What is removed -/

section Prune

variable {world : PruneWorld} {config : CleanupConfig}

theorem expired_iff {now : ℕ} {f : ArchiveFile} :
    expired config now f.st_mtime = true ↔ f.TooOld config now := by
  rw [expired, decide_eq_true_iff, ArchiveFile.TooOld, cutoff]
  split
  · omega
  · omega

theorem not_dot_of_capture {name : CStr} (h : "capture_".toList <+: name) :
    name.head? ≠ some '.' := by
  obtain ⟨rest, rfl⟩ := h
  intro hdot
  revert hdot
  exact fun hdot => absurd (Option.some.inj hdot) (by decide)

/-- One round, for an archive. -/
theorem scan_archive (removals : ∀ path, world.removes path = true) (scan : PruneScan)
    (f : ArchiveFile) :
    scan_entry world config scan f.dir_entry =
      if f.is_capture then
        if f.TooOld config world.now then { scan with removed := scan.removed ++ [f.path config] }
        else if archive_max_total_bytes config = 0 then scan
        else
          { scan with
            entries := scan.entries ++ [f.entry config]
            total_size := (scan.total_size + f.st_size) % 2 ^ 64 }
      else scan := by
  unfold scan_entry
  by_cases hcapture : "capture_".toList <+: f.name
  · have hname : f.is_capture = true := decide_eq_true hcapture
    have hdot : f.dir_entry.d_name.head? ≠ some '.' := not_dot_of_capture hcapture
    have hprefix : ¬ ¬ "capture_".toList <+: f.dir_entry.d_name := not_not_intro hcapture
    rw [if_neg hdot, if_neg hprefix, if_pos hname]
    simp only [ArchiveFile.dir_entry, remove, removals, if_true]
    by_cases hold : f.TooOld config world.now
    · rw [if_pos hold, expired_iff.mpr hold]
      rfl
    · rw [if_neg hold, Bool.eq_false_iff.mpr (mt expired_iff.mp hold)]
      rfl
  · have hname : ¬ f.is_capture = true := fun h => hcapture (of_decide_eq_true h)
    rw [if_pos (show ¬ "capture_".toList <+: f.dir_entry.d_name from hcapture), ite_self,
      if_neg hname]

/-- The archives of single files that are too old. -/
def old_captures (config : CleanupConfig) (now : ℕ) (files : List ArchiveFile) : List ArchiveFile :=
  files.filter fun f => f.is_capture && decide (f.TooOld config now)

/-- What the loop has found in some archives. -/
structure Scanned (world : PruneWorld) (config : CleanupConfig) (files : List ArchiveFile)
    (scan : PruneScan) : Prop where
  removed : scan.removed = (old_captures config world.now files).map (ArchiveFile.path config)
  entries : scan.entries = if archive_max_total_bytes config = 0 then []
    else (young_captures config world.now files).map (ArchiveFile.entry config)
  total_size : scan.total_size = total ArchiveFileEntry.size scan.entries % 2 ^ 64

theorem Scanned.next (removals : ∀ path, world.removes path = true) {files : List ArchiveFile}
    {scan : PruneScan} (h : Scanned world config files scan) (f : ArchiveFile) :
    Scanned world config (files ++ [f]) (scan_entry world config scan f.dir_entry) := by
  rw [scan_archive removals]
  by_cases hcapture : f.is_capture = true
  · rw [if_pos hcapture]
    by_cases hold : f.TooOld config world.now
    · rw [if_pos hold]
      refine ⟨?_, ?_, h.total_size⟩
      · simp [old_captures, List.filter_append, hcapture, hold, h.removed]
      · simp [young_captures, List.filter_append, hcapture, hold, h.entries]
    · rw [if_neg hold]
      have hremoved : old_captures config world.now (files ++ [f])
          = old_captures config world.now files := by
        simp [old_captures, List.filter_append, hcapture, hold]
      by_cases hlimit : archive_max_total_bytes config = 0
      · rw [if_pos hlimit]
        refine ⟨by rw [hremoved, h.removed], ?_, h.total_size⟩
        rw [h.entries, if_pos hlimit, if_pos hlimit]
      · rw [if_neg hlimit]
        have hyoung : young_captures config world.now (files ++ [f])
            = young_captures config world.now files ++ [f] := by
          simp [young_captures, List.filter_append, hcapture, hold]
        refine ⟨by rw [hremoved, h.removed], ?_, ?_⟩
        · rw [h.entries, if_neg hlimit, if_neg hlimit, hyoung, List.map_append]
          rfl
        · rw [h.total_size, total_append, total_cons, total_nil, Nat.mod_add_mod]
          rfl
  · rw [if_neg hcapture]
    refine ⟨?_, ?_, h.total_size⟩
    · simp [old_captures, List.filter_append, hcapture, h.removed]
    · simp [young_captures, List.filter_append, hcapture, h.entries]

theorem scanned (removals : ∀ path, world.removes path = true) (files : List ArchiveFile) :
    Scanned world config files
      ((files.map ArchiveFile.dir_entry).foldl (scan_entry world config) {}) := by
  induction files using List.reverseRecOn with
  | nil => exact ⟨rfl, by simp [young_captures], rfl⟩
  | append_singleton files f ih =>
    rw [List.map_append, List.foldl_append]
    exact ih.next removals f

/-- The oldest are removed until the rest is within the limit. -/
theorem drop_oldest_eq (removals : ∀ path, world.removes path = true) (limit : ℕ)
    (entries : List ArchiveFileEntry) :
    drop_oldest world limit (total ArchiveFileEntry.size entries) entries
      = (evicted ArchiveFileEntry.size limit entries).map ArchiveFileEntry.path := by
  induction entries with
  | nil => rfl
  | cons entry rest ih =>
    have hsize : entry.size ≤ total ArchiveFileEntry.size (entry :: rest) := by
      rw [total_cons]
      exact Nat.le_add_right _ _
    have hrest : total ArchiveFileEntry.size (entry :: rest) - entry.size
        = total ArchiveFileEntry.size rest := by
      rw [total_cons, Nat.add_sub_cancel_left]
    rw [drop_oldest, evicted, removals, if_pos rfl, if_pos hsize, hrest, ih, remove, removals,
      if_pos rfl]
    split
    · rfl
    · rfl

theorem total_entries (files : List ArchiveFile) :
    total ArchiveFileEntry.size (files.map (ArchiveFile.entry config))
      = total ArchiveFile.st_size files := by
  rw [total, total, List.map_map]
  rfl

/-- **What is removed**: archives of single files that are too old, and the
oldest of the others that are over the limit. -/
theorem prune_archives_eq (dir : ArchiveDir) (named : config.archive_dir ≠ [])
    (listed : world.dir = some (dir.files.map ArchiveFile.dir_entry))
    (removals : ∀ path, world.removes path = true) :
    prune_archives world config =
      (old_captures config world.now dir.files).map (ArchiveFile.path config)
        ++ if archive_max_total_bytes config = 0 then []
          else (evicted ArchiveFileEntry.size (archive_max_total_bytes config)
            (oldest_first world config dir.files)).map ArchiveFileEntry.path := by
  have hscanned : Scanned world config dir.files _ := scanned removals dir.files
  obtain ⟨hremoved, hentries, htotal⟩ := hscanned
  rw [prune_archives, if_neg named]
  by_cases hnothing : archive_retention_seconds config = 0 ∧ archive_max_total_bytes config = 0
  · have hold : old_captures config world.now dir.files = [] := by
      refine List.filter_eq_nil_iff.mpr fun f _ => ?_
      simp [ArchiveFile.TooOld, hnothing.1]
    rw [if_pos hnothing, hold, if_pos hnothing.2]
    rfl
  · rw [if_neg hnothing, listed]
    dsimp only
    by_cases hlimit : archive_max_total_bytes config = 0
    · rw [if_pos (.inl hlimit), if_pos hlimit, List.append_nil, hremoved]
    · rw [if_neg hlimit] at hentries ⊢
      have hsorted := world.sorter.perm
        ((young_captures config world.now dir.files).map (ArchiveFile.entry config))
      have hfits : total ArchiveFileEntry.size (oldest_first world config dir.files) < 2 ^ 64 := by
        rw [oldest_first, total_perm _ hsorted, total_entries]
        exact (total_sublist _ List.filter_sublist).trans_lt dir.fits
      have hsum : ((dir.files.map ArchiveFile.dir_entry).foldl (scan_entry world config) {}).total_size
          = total ArchiveFileEntry.size (oldest_first world config dir.files) := by
        rw [htotal, hentries, ← total_perm _ hsorted]
        exact Nat.mod_eq_of_lt hfits
      rw [hsum, hremoved, hentries, ← oldest_first, drop_oldest_eq removals]
      by_cases hempty : (young_captures config world.now dir.files).map (ArchiveFile.entry config) = []
      · have hnone : oldest_first world config dir.files = [] := by
          rw [oldest_first, hempty]
          exact List.perm_nil.mp (world.sorter.perm [])
        rw [if_pos (.inr hempty), hnone]
        exact (List.append_nil _).symm
      · rw [if_neg (not_or.mpr ⟨hlimit, hempty⟩)]
        split
        · next hwithin =>
          cases horder : oldest_first world config dir.files with
          | nil => exact (List.append_nil _).symm
          | cons entry rest =>
            rw [horder] at hwithin
            rw [evicted, if_neg (Nat.not_lt_of_le hwithin)]
            exact (List.append_nil _).symm
        · rfl

/-! ## What is left -/

theorem mem_young_captures {f : ArchiveFile} {files : List ArchiveFile} {now : ℕ} :
    f ∈ young_captures config now files
      ↔ f ∈ files ∧ f.is_capture = true ∧ ¬ f.TooOld config now := by
  simp [young_captures]

theorem mem_batches {f : ArchiveFile} {files : List ArchiveFile} :
    f ∈ batches files ↔ f ∈ files ∧ ¬ f.is_capture = true := by
  simp [batches]

section Directory

variable (dir : ArchiveDir)

theorem entry_inj {f g : ArchiveFile} (hf : f ∈ dir.files) (hg : g ∈ dir.files)
    (h : f.path config = g.path config) : f = g :=
  List.inj_on_of_nodup_map dir.distinct hf hg (List.append_cancel_left h)

theorem nodup_entries {files : List ArchiveFile} (h : files.Sublist dir.files) :
    (files.map (ArchiveFile.entry config)).Nodup := by
  refine List.Nodup.map_on (fun f hf g hg hentry => ?_) ((List.Nodup.of_map _ dir.distinct).sublist h)
  exact entry_inj dir (h.subset hf) (h.subset hg) (congrArg ArchiveFileEntry.path hentry)

theorem mem_oldest_first {entry : ArchiveFileEntry} :
    entry ∈ oldest_first world config dir.files
      ↔ ∃ f ∈ young_captures config world.now dir.files, f.entry config = entry :=
  (world.sorter.perm _).mem_iff.trans List.mem_map

theorem entry_mem_oldest_first {f : ArchiveFile} (hf : f ∈ dir.files) :
    f.entry config ∈ oldest_first world config dir.files
      ↔ f ∈ young_captures config world.now dir.files := by
  rw [mem_oldest_first]
  constructor
  · rintro ⟨g, hg, hentry⟩
    rw [← entry_inj dir (List.mem_of_mem_filter hg) hf (congrArg ArchiveFileEntry.path hentry)]
    exact hg
  · exact fun h => ⟨f, h, rfl⟩

theorem nodup_oldest_first : (oldest_first world config dir.files).Nodup :=
  (world.sorter.perm _).nodup_iff.mpr (nodup_entries dir List.filter_sublist)

/-- The entries that are dropped for the size limit. -/
def oversize (world : PruneWorld) (config : CleanupConfig) (files : List ArchiveFile) :
    List ArchiveFileEntry :=
  if archive_max_total_bytes config = 0 then []
  else evicted ArchiveFileEntry.size (archive_max_total_bytes config)
    (oldest_first world config files)

theorem oversize_subset {entry : ArchiveFileEntry} (h : entry ∈ oversize world config dir.files) :
    entry ∈ oldest_first world config dir.files := by
  unfold oversize at h
  split at h
  · cases h
  · rw [← evicted_append_keep ArchiveFileEntry.size (archive_max_total_bytes config)
      (oldest_first world config dir.files)]
    exact List.mem_append_left _ h

variable {dir} (named : config.archive_dir ≠ [])
  (listed : world.dir = some (dir.files.map ArchiveFile.dir_entry))
  (removals : ∀ path, world.removes path = true)
include named listed removals

/-- An archive is left unless it is too old or dropped for its size. -/
theorem mem_remaining {f : ArchiveFile} : f ∈ remaining world config dir.files ↔
    f ∈ dir.files ∧ ¬ (f.is_capture = true ∧ f.TooOld config world.now) ∧
      f.entry config ∉ oversize world config dir.files := by
  rw [remaining, List.mem_filter, decide_eq_true_iff]
  refine and_congr_right fun hf => ?_
  have hpaths : prune_archives world config
      = (old_captures config world.now dir.files).map (ArchiveFile.path config)
        ++ (oversize world config dir.files).map ArchiveFileEntry.path := by
    rw [prune_archives_eq dir named listed removals, oversize]
    split
    · rfl
    · rfl
  rw [hpaths, List.mem_append, not_or]
  refine and_congr (not_congr ?_) (not_congr ?_)
  · constructor
    · intro h
      obtain ⟨g, hg, hpath⟩ := List.mem_map.mp h
      obtain rfl := entry_inj dir (List.mem_of_mem_filter hg) hf hpath
      simpa using List.of_mem_filter hg
    · rintro ⟨hcapture, hold⟩
      refine List.mem_map_of_mem (List.mem_filter.mpr ⟨hf, ?_⟩)
      rw [hcapture, decide_eq_true hold]
      rfl
  · constructor
    · intro h
      obtain ⟨entry, hentry, hpath⟩ := List.mem_map.mp h
      obtain ⟨g, hg, rfl⟩ := (mem_oldest_first dir).mp (oversize_subset dir hentry)
      rw [← entry_inj dir (List.mem_of_mem_filter hg) hf hpath]
      exact hentry
    · exact fun h => List.mem_map.mpr ⟨_, h, rfl⟩

/-- **The archives of batches** are left, whatever the limits are. -/
theorem batch_remains {f : ArchiveFile} (hf : f ∈ batches dir.files) :
    f ∈ remaining world config dir.files := by
  obtain ⟨hmem, hcapture⟩ := mem_batches.mp hf
  refine (mem_remaining named listed removals).mpr ⟨hmem, fun h => hcapture h.1, fun h => ?_⟩
  have hyoung := (entry_mem_oldest_first dir hmem).mp (oversize_subset dir h)
  exact hcapture (mem_young_captures.mp hyoung).2.1

/-- An archive of a single file that is left is one that the limit leaves. -/
theorem capture_left {f : ArchiveFile} (hf : f ∈ remaining world config dir.files)
    (hcapture : f.is_capture = true) (hlimit : archive_max_total_bytes config ≠ 0) :
    f.entry config ∈ keep ArchiveFileEntry.size (archive_max_total_bytes config)
      (oldest_first world config dir.files) := by
  obtain ⟨hmem, hold, hsize⟩ := (mem_remaining named listed removals).mp hf
  have hyoung : f ∈ young_captures config world.now dir.files :=
    mem_young_captures.mpr ⟨hmem, hcapture, fun h => hold ⟨hcapture, h⟩⟩
  have horder := (entry_mem_oldest_first dir hmem).mpr hyoung
  rw [← evicted_append_keep ArchiveFileEntry.size (archive_max_total_bytes config)
    (oldest_first world config dir.files)] at horder
  refine (List.mem_append.mp horder).resolve_left fun h => hsize ?_
  rw [oversize, if_neg hlimit]
  exact h

/-- What is left with a size limit: the archives of batches, and those of
single files that the limit leaves. -/
theorem remaining_perm (hlimit : archive_max_total_bytes config ≠ 0) :
    ((remaining world config dir.files).map (ArchiveFile.entry config)).Perm
      ((batches dir.files).map (ArchiveFile.entry config)
        ++ keep ArchiveFileEntry.size (archive_max_total_bytes config)
          (oldest_first world config dir.files)) := by
  have hsplit := evicted_append_keep ArchiveFileEntry.size (archive_max_total_bytes config)
    (oldest_first world config dir.files)
  have hnodup : (oldest_first world config dir.files).Nodup := nodup_oldest_first dir
  have hkeep : ∀ entry ∈ keep ArchiveFileEntry.size (archive_max_total_bytes config)
      (oldest_first world config dir.files), ∃ f ∈ young_captures config world.now dir.files,
        f.entry config = entry :=
    fun entry hentry => (mem_oldest_first dir).mp ((keep_suffix _ _).subset hentry)
  have hboth : ((batches dir.files).map (ArchiveFile.entry config)
      ++ keep ArchiveFileEntry.size (archive_max_total_bytes config)
        (oldest_first world config dir.files)).Nodup := by
    refine List.nodup_append.mpr ⟨nodup_entries dir List.filter_sublist,
      hnodup.sublist (keep_suffix _ _).sublist, ?_⟩
    rintro entry hbatch _ hkept rfl
    obtain ⟨f, hf, rfl⟩ := List.mem_map.mp hbatch
    obtain ⟨g, hg, hentry⟩ := hkeep _ hkept
    obtain rfl := entry_inj dir (List.mem_of_mem_filter hg) (List.mem_of_mem_filter hf)
      (congrArg ArchiveFileEntry.path hentry)
    exact (mem_batches.mp hf).2 (mem_young_captures.mp hg).2.1
  refine (List.perm_ext_iff_of_nodup (nodup_entries dir List.filter_sublist) hboth).mpr
    fun entry => ?_
  rw [List.mem_append, List.mem_map, List.mem_map]
  constructor
  · rintro ⟨f, hf, rfl⟩
    by_cases hcapture : f.is_capture = true
    · exact .inr (capture_left named listed removals hf hcapture hlimit)
    · exact .inl ⟨f, mem_batches.mpr ⟨List.mem_of_mem_filter hf, hcapture⟩, rfl⟩
  · rintro (⟨f, hf, rfl⟩ | hkept)
    · exact ⟨f, batch_remains named listed removals hf, rfl⟩
    · obtain ⟨f, hf, rfl⟩ := hkeep entry hkept
      refine ⟨f, (mem_remaining named listed removals).mpr ⟨List.mem_of_mem_filter hf, ?_, ?_⟩, rfl⟩
      · exact fun hold => (mem_young_captures.mp hf).2.2 hold.2
      · rw [oversize, if_neg hlimit]
        intro hevicted
        rw [← hsplit] at hnodup
        exact (List.nodup_append.mp hnodup).2.2 _ hevicted _ hkept rfl

theorem total_remaining (hlimit : archive_max_total_bytes config ≠ 0) :
    total ArchiveFile.st_size (remaining world config dir.files)
      = total ArchiveFile.st_size (batches dir.files)
        + total ArchiveFileEntry.size (keep ArchiveFileEntry.size (archive_max_total_bytes config)
          (oldest_first world config dir.files)) := by
  rw [← @total_entries config,
    total_perm _ (remaining_perm named listed removals hlimit), total_append, total_entries]

/-- **When the limits cover every archive.** Exactly when they leave room for
the archives of batches, which are not pruned. -/
theorem within_limits_iff :
    WithinLimits config world.now dir.files (remaining world config dir.files)
      ↔ BatchesCovered world config dir.files := by
  constructor
  · intro h
    have hbatch : ∀ f ∈ batches dir.files, f ∈ remaining world config dir.files :=
      fun f hf => batch_remains named listed removals hf
    refine ⟨fun f hf => h.recent f (hbatch f hf), fun hlimit newest hsuffix hfits => ?_,
      fun hlimit entry newest hsuffix hover f hf => ?_⟩
    · have hle := total_suffix ArchiveFileEntry.size (suffix_keep_iff.mpr ⟨hsuffix, hfits⟩)
      have hbounded := h.bounded hlimit
      rw [total_remaining named listed removals hlimit.ne'] at hbounded
      omega
    · have hevicted := mem_evicted_iff.mpr ⟨newest, hsuffix, hover⟩
      obtain ⟨g, hg, rfl⟩ := (mem_oldest_first dir).mp (hsuffix.subset List.mem_cons_self)
      obtain ⟨hmem, -, hyoung⟩ := mem_young_captures.mp hg
      refine h.oldest_first g hmem hyoung (fun hleft => ?_) f (hbatch f hf)
      refine ((mem_remaining named listed removals).mp hleft).2.2 ?_
      rw [oversize, if_neg hlimit.ne']
      exact hevicted
  · intro h
    have hcases : ∀ f ∈ remaining world config dir.files, ¬ f.is_capture = true →
        f ∈ batches dir.files :=
      fun f hf hcapture => mem_batches.mpr ⟨List.mem_of_mem_filter hf, hcapture⟩
    refine ⟨fun f hf hold => ?_, fun hlimit => ?_, fun f hf hyoung hgone kept hkept => ?_⟩
    · by_cases hcapture : f.is_capture = true
      · exact ((mem_remaining named listed removals).mp hf).2.1 ⟨hcapture, hold⟩
      · exact h.recent f (hcases f hf hcapture) hold
    · rw [total_remaining named listed removals hlimit.ne', Nat.add_comm]
      exact h.room hlimit _ (keep_suffix _ _) (total_keep_le _ _)
    · -- it was dropped for its size
      have hover : f.entry config ∈ oversize world config dir.files := by
        by_contra hsize
        exact hgone ((mem_remaining named listed removals).mpr ⟨hf, fun hold => hyoung hold.2, hsize⟩)
      have hlimit : archive_max_total_bytes config ≠ 0 := by
        intro hnone
        rw [oversize, if_pos hnone] at hover
        cases hover
      rw [oversize, if_neg hlimit] at hover
      by_cases hcapture : kept.is_capture = true
      · have hkeep := capture_left named listed removals hkept hcapture hlimit
        have hsorted : (oldest_first world config dir.files).Pairwise fun a b => a.mtime ≤ b.mtime :=
          world.sorter.sorted _
        rw [← evicted_append_keep ArchiveFileEntry.size (archive_max_total_bytes config)
          (oldest_first world config dir.files)] at hsorted
        exact (List.pairwise_append.mp hsorted).2.2 _ hover _ hkeep
      · obtain ⟨newest, hsuffix, htotal⟩ := mem_evicted_iff.mp hover
        exact h.newer (Nat.pos_of_ne_zero hlimit) _ newest hsuffix htotal kept
          (hcases kept hkept hcapture)

end Directory

end Prune

/-! ## Names -/

theorem file_archive_name_starts (world : CompressWorld) (pending : PendingFile) :
    "capture_".toList <+: file_archive_name world pending := by
  unfold file_archive_name
  simp only [List.append_assoc]
  exact List.prefix_append _ _

theorem batch_archive_name_starts (world : CompressWorld) (capture_id : ℤ) :
    ¬ "capture_".toList <+: batch_archive_name world capture_id := by
  unfold batch_archive_name
  simp only [List.append_assoc]
  rintro ⟨rest, heq⟩
  exact absurd (List.cons.inj heq).1 (by decide)

/-- The archives that are passed over are those of `compress_batch`. -/
theorem mem_batches_iff {dir : ArchiveDir} {f : ArchiveFile} (hf : f ∈ dir.files) :
    f ∈ batches dir.files ↔ ∃ world capture_id, f.name = batch_archive_name world capture_id := by
  rw [mem_batches, and_iff_right hf, ArchiveFile.is_capture, decide_eq_true_iff]
  constructor
  · intro h
    have hmade := dir.made f hf
    generalize f.name = name at h hmade
    cases hmade with
    | batch world capture_id => exact ⟨world, capture_id, rfl⟩
    | file world pending => exact absurd (file_archive_name_starts world pending) h
  · rintro ⟨world, capture_id, hname⟩
    rw [hname]
    exact batch_archive_name_starts world capture_id

/-! ## Two directories -/

def merge_sorter : Sorter where
  sort := fun l => l.mergeSort fun a b => decide (a.mtime ≤ b.mtime)
  perm := fun l => List.mergeSort_perm l _
  sorted := fun l => by
    refine (List.pairwise_mergeSort ?_ ?_ l).imp fun h => of_decide_eq_true h
    · intro a b c hab hbc
      exact decide_eq_true ((of_decide_eq_true hab).trans (of_decide_eq_true hbc))
    · intro a b
      simpa using Nat.le_total a.mtime b.mtime

/-- A directory with one archive, made in 1970. -/
def one_archive (name : CStr) (made : MadeName name) : ArchiveDir where
  files := [{ name, st_mtime := 0, st_size := 5 }]
  made := fun _ hf => (List.mem_singleton.mp hf) ▸ made
  distinct := List.nodup_singleton _
  fits := (by decide : 5 + 0 < 2 ^ 64)

/-- Twenty days later. -/
def twenty_days (dir : ArchiveDir) : PruneWorld where
  now := 20 * 86400
  dir := some (dir.files.map ArchiveFile.dir_entry)
  sorter := merge_sorter

def a_file : PendingFile where
  file := { file_path := "a.pcap".toList, file_size := 5, file_ready_ts := 0 }

/-- The archive of a single file is removed then. -/
theorem within_limits_iff_one :
    WithinLimits {} (20 * 86400) (one_archive _ (.file {} a_file)).files
      (remaining (twenty_days (one_archive _ (.file {} a_file))) {}
        (one_archive _ (.file {} a_file)).files) := by
  have hnone : batches (one_archive _ (.file {} a_file)).files = [] := by
    refine List.filter_eq_nil_iff.mpr fun f hf => ?_
    rw [List.mem_singleton.mp hf, ArchiveFile.is_capture,
      decide_eq_true (file_archive_name_starts {} _)]
    exact Bool.false_ne_true
  refine (@within_limits_iff (twenty_days (one_archive _ (.file {} a_file))) _ _
    (by decide) rfl (fun _ => rfl)).mpr ⟨?_, ?_, ?_⟩
  · rw [hnone]
    exact fun f hf => absurd hf List.not_mem_nil
  · exact fun hlimit => absurd hlimit (by decide)
  · exact fun hlimit => absurd hlimit (by decide)

/-- That of a batch is not. -/
theorem old_batch_remains :
    ¬ WithinLimits {} (20 * 86400) (one_archive _ (.batch {} 1000)).files
      (remaining (twenty_days (one_archive _ (.batch {} 1000))) {}
        (one_archive _ (.batch {} 1000)).files) := by
  intro h
  have hbatch : ({ name := batch_archive_name {} 1000, st_mtime := 0, st_size := 5 } : ArchiveFile)
      ∈ batches (one_archive _ (.batch {} 1000)).files :=
    (mem_batches_iff List.mem_cons_self).mpr ⟨{}, 1000, rfl⟩
  have hleft := @batch_remains (twenty_days (one_archive _ (.batch {} 1000))) {} _
    (by decide) rfl (fun _ => rfl) _ hbatch
  exact h.recent _ hleft (by decide)

end RxNetCap.Archive
