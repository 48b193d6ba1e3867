/-
Which captures use which PDEF file: `PDEFUsageInfo` and `track_pdef_usage_*` of
`src/rxcapturemanagerthread.cpp`, and the conditions under which a detected
byte order is written back to a file.
-/
import Mathlib.Data.Finset.Basic
import RxNetCap.Lib.Tally
import RxNetCap.Pdef.Types

set_option autoImplicit false

namespace RxNetCap.Capture

open RxNetCap.Tally RxNetCap.Pdef

/-! ## The map -/

/-- What the manager knows about a PDEF file. -/
structure PDEFUsageInfo where
  active_capture_ids : Finset ℤ := ∅
  detected_endian : EndianType := .UNKNOWN
  writeback_needed : Bool := false
  writeback_done : Bool := false

abbrev UsageMap := Store CStr PDEFUsageInfo

/-- The captures that use a PDEF file, as far as the manager knows. -/
def active_in (usage : UsageMap) (pdef_path : CStr) : Finset ℤ :=
  match usage.lookup pdef_path with
  | none => ∅
  | some info => info.active_capture_ids

def track_pdef_usage_start (capture_id : ℤ) (pdef_path : CStr) (usage : UsageMap) : UsageMap :=
  if pdef_path = [] then usage
  else
    let info := (usage.lookup pdef_path).getD {}
    usage.insert pdef_path
      { info with active_capture_ids := insert capture_id info.active_capture_ids }

def track_pdef_usage_end (capture_id : ℤ) (pdef_path : CStr) (usage : UsageMap) : UsageMap :=
  if pdef_path = [] then usage
  else
    match usage.lookup pdef_path with
    | none => usage
    | some info =>
      usage.insert pdef_path
        { info with active_capture_ids := info.active_capture_ids.erase capture_id }

/-- Note a detected byte order; the first one stays. -/
def learn_usage_endian (detected_endian : EndianType) (info : PDEFUsageInfo) : PDEFUsageInfo :=
  if info.detected_endian = .UNKNOWN then { info with detected_endian, writeback_needed := true }
  else info

/-- The byte order that `try_writeback_pdef_endian` writes, unless it leaves
the file alone. -/
def writeback_due (pdef_path : CStr) (usage : UsageMap) : Option EndianType :=
  if pdef_path = [] then none
  else
    match usage.lookup pdef_path with
    | none => none
    | some info =>
      if info.writeback_needed = false ∨ info.writeback_done then none
      else if info.active_capture_ids ≠ ∅ then none
      else some info.detected_endian

/-- `info.writeback_done = true` -/
def mark_written (pdef_path : CStr) (usage : UsageMap) : UsageMap :=
  match usage.lookup pdef_path with
  | none => usage
  | some info => usage.insert pdef_path { info with writeback_done := true }

/-! ## What the operations do -/

section Usage

variable (capture_id : ℤ) (pdef_path : CStr) (usage : UsageMap) (p : CStr)

theorem active_in_insert (info : PDEFUsageInfo) :
    active_in (usage.insert pdef_path info) p
      = if p = pdef_path then info.active_capture_ids else active_in usage p := by
  unfold active_in
  by_cases hp : p = pdef_path
  · rw [if_pos hp, hp, AList.lookup_insert]
  · rw [if_neg hp, AList.lookup_insert_ne hp]

theorem active_in_getD :
    ((usage.lookup pdef_path).getD {}).active_capture_ids = active_in usage pdef_path := by
  unfold active_in
  cases usage.lookup pdef_path <;> rfl

theorem active_in_of_lookup {info : PDEFUsageInfo} (h : usage.lookup p = some info) :
    active_in usage p = info.active_capture_ids := by
  unfold active_in
  rw [h]

theorem active_in_start :
    active_in (track_pdef_usage_start capture_id pdef_path usage) p
      = if p = pdef_path ∧ pdef_path ≠ [] then insert capture_id (active_in usage p)
        else active_in usage p := by
  unfold track_pdef_usage_start
  by_cases hpath : pdef_path = []
  · rw [if_pos hpath, if_neg fun h => h.2 hpath]
  · rw [if_neg hpath, active_in_insert, active_in_getD]
    by_cases hp : p = pdef_path
    · rw [if_pos hp, if_pos ⟨hp, hpath⟩, hp]
    · rw [if_neg hp, if_neg fun h => hp h.1]

theorem active_in_end :
    active_in (track_pdef_usage_end capture_id pdef_path usage) p
      = if p = pdef_path ∧ pdef_path ≠ [] then (active_in usage p).erase capture_id
        else active_in usage p := by
  unfold track_pdef_usage_end
  by_cases hpath : pdef_path = []
  · rw [if_pos hpath, if_neg fun h => h.2 hpath]
  · rw [if_neg hpath]
    cases hinfo : usage.lookup pdef_path with
    | none =>
      by_cases hp : p = pdef_path
      · have hempty : active_in usage p = ∅ := by
          unfold active_in
          rw [hp, hinfo]
        rw [if_pos ⟨hp, hpath⟩, hempty, Finset.erase_empty]
      · rw [if_neg fun h => hp h.1]
    | some info =>
      by_cases hp : p = pdef_path
      · rw [active_in_insert, if_pos hp, if_pos ⟨hp, hpath⟩, hp,
          active_in_of_lookup usage pdef_path hinfo]
      · rw [active_in_insert, if_neg hp, if_neg fun h => hp h.1]

/-- An entry written over, with the same captures. -/
theorem active_in_over {info : PDEFUsageInfo}
    (hsame : info.active_capture_ids = active_in usage pdef_path) :
    active_in (usage.insert pdef_path info) p = active_in usage p := by
  rw [active_in_insert]
  by_cases hp : p = pdef_path
  · rw [if_pos hp, hp, hsame]
  · rw [if_neg hp]

@[simp] theorem active_in_mark_written :
    active_in (mark_written pdef_path usage) p = active_in usage p := by
  unfold mark_written
  split
  · rfl
  · next info hinfo =>
    exact active_in_over pdef_path usage p (active_in_of_lookup usage pdef_path hinfo).symm

theorem active_in_learn (detected_endian : EndianType) :
    active_in (usage.insert pdef_path (learn_usage_endian detected_endian
      ((usage.lookup pdef_path).getD {}))) p = active_in usage p := by
  refine active_in_over pdef_path usage p ?_
  rw [← active_in_getD]
  unfold learn_usage_endian
  split <;> rfl

/-- A file is written back only while no capture uses it, and not after it was
written back with success. -/
theorem writeback_due_some {d : EndianType} (h : writeback_due pdef_path usage = some d) :
    ∃ info, usage.lookup pdef_path = some info ∧ info.writeback_needed = true ∧
      info.writeback_done = false ∧ info.active_capture_ids = ∅ ∧ info.detected_endian = d := by
  unfold writeback_due at h
  split at h
  · cases h
  · split at h
    · cases h
    · next info hinfo =>
      split at h
      · cases h
      · next hflags =>
        split at h
        · cases h
        · next hactive =>
          rw [not_or, Bool.not_eq_false, Bool.not_eq_true] at hflags
          exact ⟨info, hinfo, hflags.1, hflags.2, not_not.mp hactive, Option.some.inj h⟩

end Usage

end RxNetCap.Capture
