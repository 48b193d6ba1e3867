/-
`StringTrim` of `src/core/legacy_core_common.cpp`, with every index it reads.

Two loops look for the ends of the text. Each reads the character first and
compares the index with its bound after that. The one from the front can do so:
the index it stops at is at most the length, where the terminating NUL stands.
The one from the back cannot: when all characters are blank it goes on to index
-1, which is no position of the string. Nothing else goes wrong on a text of less
than 2^31 characters (`trims_iff`); beyond that the indices, which are of type
`int`, no longer reach all of it.

The rest of the model has the result of `StringTrim` only; it is the one that the
loops come to wherever they stay inside.
-/
import Mathlib.Data.List.GetD
import RxNetCap.Capture.Request

set_option autoImplicit false

namespace RxNetCap.Core

open RxNetCap.Pdef RxNetCap.Capture

def trim_blank (c : Char) : Bool := c = ' ' ∨ c = '\t' ∨ c = '\r' ∨ c = '\n'

/-- `sSrc[i]`, where `i` is a position of the string or the one of its NUL. -/
def char_at (sSrc : CStr) (i : ℤ) : Option Char :=
  if 0 ≤ i ∧ i ≤ sSrc.length then some (sSrc.getD i.toNat '\x00') else none

def skip_front (sSrc : CStr) (length i : ℤ) : Option ℤ := do
  let c ← char_at sSrc i
  if trim_blank c ∧ i < length then skip_front sSrc length (i + 1) else some i
termination_by (length - i).toNat
decreasing_by omega

def skip_back (sSrc : CStr) (i : ℤ) : Option ℤ := do
  let c ← char_at sSrc i
  if trim_blank c ∧ i ≥ 0 then skip_back sSrc (i - 1) else some i
termination_by (i + 1).toNat
decreasing_by omega

/-- `substr`, which throws when it is to begin behind the end. -/
def substr (s : CStr) (pos : ℤ) (count : ℕ) : Option CStr :=
  if pos ≤ s.length then some ((s.drop pos.toNat).take count) else none

/-- No result where the string is indexed outside, or the length of the piece is
no `int`. That length is a `size_t` when it is passed on. -/
def StringTrim (sSrc : CStr) : Option CStr := do
  let nBeginPos ← skip_front sSrc (to_int sSrc.length) 0
  let nEnd ← skip_back sSrc (to_int (sSrc.length - 1))
  guard (nEnd - nBeginPos + 1 < 2 ^ 31)
  substr sSrc nBeginPos ((nEnd - nBeginPos + 1) % 2 ^ 64).toNat

/-! ## The ends of a text -/

/-- How many blanks a text begins with. -/
def lead (s : CStr) : ℕ := s.findIdx fun c => !trim_blank c

/-- Where the blanks begin that a text ends with. -/
def stop (s : CStr) : ℕ := s.length - lead s.reverse

section Ends

variable {s : CStr} {i : ℕ}

theorem lead_le : lead s ≤ s.length := List.findIdx_le_length

theorem lead_lt_iff : lead s < s.length ↔ ∃ c ∈ s, trim_blank c = false := by
  rw [lead, List.findIdx_lt_length]
  simp only [Bool.not_eq_true']

theorem lead_append {front : CStr} (h : lead front < front.length) (back : CStr) :
    lead (front ++ back) = lead front := by
  unfold lead at h ⊢
  rw [List.findIdx_append, if_pos h]

theorem blank_of_lt_lead (h : i < lead s) : trim_blank (s.getD i '\x00') = true := by
  have hi : i < s.length := h.trans_le lead_le
  have hnot := List.not_of_lt_findIdx h
  rw [List.getD_eq_getElem s _ hi]
  simpa using hnot

/-- The loop from the front stops there, if only at the NUL. -/
theorem solid_lead (s : CStr) : trim_blank (s.getD (lead s) '\x00') = false := by
  by_cases h : lead s < s.length
  · have hfind := List.findIdx_getElem (w := h)
    rw [List.getD_eq_getElem s _ h]
    exact (Bool.not_eq_true' _).mp hfind
  · rw [List.getD_eq_default s _ (Nat.le_of_not_lt h)]
    decide

theorem lead_reverse_lt (h : lead s < s.length) : lead s.reverse < s.length := by
  obtain ⟨c, hc, hsolid⟩ := lead_lt_iff.mp h
  have hreverse := lead_lt_iff.mpr ⟨c, List.mem_reverse.mpr hc, hsolid⟩
  rwa [List.length_reverse] at hreverse

theorem blank_of_stop_le (h : stop s ≤ i) (hi : i < s.length) :
    trim_blank (s.getD i '\x00') = true := by
  unfold stop at h
  have hback : s.length - 1 - i < lead s.reverse := by omega
  have hblank := blank_of_lt_lead hback
  have hplace : s.length - 1 - (s.length - 1 - i) = i := by omega
  rwa [List.getD_reverse _ (by omega), hplace] at hblank

theorem solid_last (h : lead s < s.length) : trim_blank (s.getD (stop s - 1) '\x00') = false := by
  have hback := lead_reverse_lt h
  have hsolid := solid_lead s.reverse
  have hplace : s.length - 1 - lead s.reverse = stop s - 1 := by
    unfold stop
    omega
  rwa [List.getD_reverse _ hback, hplace] at hsolid

theorem lead_lt_stop (h : lead s < s.length) : lead s < stop s := by
  by_contra hle
  have hsolid := solid_lead s
  rw [blank_of_stop_le (by omega) h] at hsolid
  cases hsolid

/-- The text without its blanks lies between the two ends. -/
theorem trimmed_eq (s : CStr) : Capture.StringTrim s = (s.drop (lead s)).take (stop s - lead s) := by
  have hunfold : Capture.StringTrim s = ((s.dropWhile trim_blank).reverse.dropWhile trim_blank).reverse := rfl
  have hdrop : ∀ t : CStr, t.dropWhile trim_blank = t.drop (lead t) := fun t =>
    List.dropWhile_eq_drop_findIdx_not
  rw [hunfold, hdrop, hdrop, List.drop_reverse, List.reverse_reverse]
  by_cases h : lead s < s.length
  · -- the blanks at the end are those of what is left in front
    have hlead : lead (s.drop (lead s)) < (s.drop (lead s)).length := by
      have hsolid := solid_lead s
      rw [List.getD_eq_getElem s _ h] at hsolid
      exact lead_lt_iff.mpr ⟨s[lead s], List.mem_drop_iff_getElem.mpr ⟨0, by omega, rfl⟩, hsolid⟩
    have hback : lead (s.drop (lead s)).reverse < (s.drop (lead s)).reverse.length := by
      rw [List.length_reverse]
      exact lead_reverse_lt hlead
    have hsame : lead s.reverse = lead (s.drop (lead s)).reverse := by
      have hsplit : s.reverse = (s.drop (lead s)).reverse ++ (s.take (lead s)).reverse := by
        rw [← List.reverse_append, List.take_append_drop]
      rw [hsplit, lead_append hback]
    have hlength : (s.drop (lead s)).length - lead (s.drop (lead s)).reverse = stop s - lead s := by
      unfold stop
      rw [hsame, List.length_drop]
      omega
    rw [hlength]
  · rw [List.drop_eq_nil_of_le (Nat.le_of_not_lt h), List.take_nil, List.take_nil]

end Ends

/-! ## The two loops -/

section Loops

variable {s : CStr}

theorem char_at_inside {i : ℤ} (h0 : 0 ≤ i) (hi : i ≤ s.length) :
    char_at s i = some (s.getD i.toNat '\x00') := if_pos ⟨h0, hi⟩

theorem char_at_outside {i : ℤ} (h : i < 0) : char_at s i = none := if_neg fun hinside => by omega

/-- The loop from the front stops at the first other character, or where it has to. -/
theorem skip_front_eq {length i : ℤ} (h0 : 0 ≤ i) (hi : i ≤ lead s) :
    skip_front s length i = some (max i (min (lead s) length)) := by
  have hle := lead_le (s := s)
  unfold skip_front
  rw [char_at_inside h0 (by omega), Option.bind_eq_bind, Option.bind_some]
  by_cases hlead : i < lead s
  · have hblank := blank_of_lt_lead (s := s) (i := i.toNat) (by omega)
    by_cases hlength : i < length
    · rw [if_pos ⟨hblank, hlength⟩, skip_front_eq (by omega) (by omega)]
      congr 1
      omega
    · rw [if_neg fun hboth => hlength hboth.2]
      congr 1
      omega
  · obtain rfl : i = lead s := by omega
    have hsolid := solid_lead s
    rw [Int.toNat_natCast, if_neg (by rw [hsolid]; exact fun hboth => Bool.noConfusion hboth.1)]
    congr 1
    omega
termination_by (length - i).toNat
decreasing_by omega

/-- With nothing but blanks below it the loop from the back leaves the string. -/
theorem skip_back_none {i : ℤ} (hi : i < lead s) : skip_back s i = none := by
  unfold skip_back
  by_cases h0 : 0 ≤ i
  · have hle := lead_le (s := s)
    have hblank := blank_of_lt_lead (s := s) (i := i.toNat) (by omega)
    rw [char_at_inside h0 (by omega), Option.bind_eq_bind, Option.bind_some, if_pos ⟨hblank, h0⟩]
    exact skip_back_none (by omega)
  · rw [char_at_outside (by omega)]
    rfl
termination_by (i + 1).toNat
decreasing_by omega

/-- Otherwise it stops, at the last character that is not blank if it comes by there. -/
theorem skip_back_some {i : ℤ} (hlead : lead s ≤ i) (hi : i < s.length) :
    ∃ j : ℕ, skip_back s i = some (j : ℤ) ∧ lead s ≤ j ∧ j ≤ i ∧ (stop s ≤ i + 1 → j + 1 = stop s) := by
  have hsome : lead s < s.length := by omega
  unfold skip_back
  rw [char_at_inside (by omega) hi.le, Option.bind_eq_bind, Option.bind_some]
  by_cases hblank : trim_blank (s.getD i.toNat '\x00') = true
  · have hne : lead s ≠ i := by
      rintro rfl
      rw [Int.toNat_natCast, solid_lead] at hblank
      cases hblank
    obtain ⟨j, hback, hj, hji, hstop⟩ := skip_back_some (i := i - 1) (by omega) (by omega)
    rw [if_pos ⟨hblank, by omega⟩]
    refine ⟨j, hback, hj, by omega, fun hle => hstop ?_⟩
    by_contra hlast
    have hsolid := solid_last hsome
    have hplace : stop s - 1 = i.toNat := by omega
    rw [hplace, hblank] at hsolid
    cases hsolid
  · rw [if_neg fun hboth => hblank hboth.1]
    refine ⟨i.toNat, by rw [Int.toNat_of_nonneg (by omega)], by omega, by omega, fun hle => ?_⟩
    by_contra hlast
    exact hblank (blank_of_stop_le (by omega) (by omega))
termination_by (i + 1).toNat
decreasing_by omega

end Loops

/-! ## When the text comes out right -/

/-- The `int`s reach both ends of what is left of the text. -/
structure FitsInt (s : CStr) : Prop where
  front : (lead s : ℤ) ≤ max (to_int s.length) 0
  back : (stop s : ℤ) ≤ to_int (s.length - 1) + 1
  between : (stop s : ℤ) - lead s < 2 ^ 31

theorem to_int_of_lt {n : ℤ} (h0 : -1 ≤ n) (h : n < 2 ^ 31) : to_int n = n := by
  unfold to_int
  exact Int.bmod_eq_of_le (by omega) (by omega)

theorem to_int_le {n : ℤ} (h0 : -1 ≤ n) : to_int n ≤ n := by
  unfold to_int
  rw [Int.bmod_def]
  split <;> omega

theorem fitsInt_of_short {s : CStr} (h : s.length < 2 ^ 31) : FitsInt s := by
  have hlead := lead_le (s := s)
  have hstop : stop s ≤ s.length := Nat.sub_le _ _
  refine ⟨?_, ?_, by omega⟩
  · rw [to_int_of_lt (by omega) (by omega)]
    omega
  · rw [to_int_of_lt (by omega) (by omega)]
    omega

theorem count_eq {b j : ℕ} (hle : b ≤ j) (h : (j : ℤ) - b + 1 < 2 ^ 31) :
    (((j : ℤ) - b + 1) % 2 ^ 64).toNat = j + 1 - b := by
  have hmod : ((j : ℤ) - b + 1) % 2 ^ 64 = j - b + 1 := Int.emod_eq_of_lt (by omega) (by omega)
  rw [hmod]
  omega

theorem substr_inside {s : CStr} {b : ℕ} (h : b ≤ s.length) (count : ℕ) :
    substr s b count = some ((s.drop b).take count) := if_pos (Int.ofNat_le.mpr h)

/-- A piece that ends behind the first character that is not blank is the text
without its blanks only if it begins and ends where that does. -/
theorem piece_eq_iff {s : CStr} {b j : ℕ} (hb : b ≤ lead s) (hj : lead s ≤ j) (hlt : j < s.length) :
    (s.drop b).take (j + 1 - b) = Capture.StringTrim s ↔ b = lead s ∧ j + 1 = stop s := by
  have hends := lead_lt_stop (hj.trans_lt hlt)
  have hstop : stop s ≤ s.length := Nat.sub_le _ _
  rw [trimmed_eq]
  constructor
  · intro h
    have hbegin : b = lead s := by
      by_contra hne
      have hfirst := congrArg (fun t => t.getD 0 '\x00') h
      simp only [List.getD_eq_getElem?_getD] at hfirst
      rw [List.getElem?_take_of_lt (by omega), List.getElem?_take_of_lt (by omega), List.getElem?_drop,
        List.getElem?_drop, Nat.add_zero, Nat.add_zero, ← List.getD_eq_getElem?_getD,
        ← List.getD_eq_getElem?_getD] at hfirst
      have hsolid := solid_lead s
      rw [← hfirst, blank_of_lt_lead (by omega)] at hsolid
      cases hsolid
    have hlength := congrArg List.length h
    simp only [List.length_take, List.length_drop] at hlength
    omega
  · rintro ⟨rfl, hlast⟩
    rw [hlast]

/-- **What `StringTrim` does.** It stays inside the string and gives the text
without the blanks at its ends exactly when the text has another character and
the indices are `int`s, as they are in any text of less than 2^31 characters. -/
theorem trims_iff (sSrc : CStr) :
    (StringTrim sSrc = some (Capture.StringTrim sSrc) ↔
      (∃ c ∈ sSrc, trim_blank c = false) ∧ FitsInt sSrc) ∧
    (sSrc.length < 2 ^ 31 → FitsInt sSrc) := by
  refine ⟨?_, fitsInt_of_short⟩
  have hfront : skip_front sSrc (to_int sSrc.length) 0
      = some (max 0 (min (lead sSrc : ℤ) (to_int sSrc.length))) := skip_front_eq le_rfl (by omega)
  have hle := lead_le (s := sSrc)
  have hback_le := to_int_le (n := (sSrc.length : ℤ) - 1) (by omega)
  obtain ⟨b, hb⟩ := Int.eq_ofNat_of_zero_le (le_max_left 0 (min (lead sSrc : ℤ) (to_int sSrc.length)))
  rw [← lead_lt_iff]
  unfold StringTrim
  rw [hfront, hb, Option.bind_eq_bind, Option.bind_some]
  by_cases hin : (lead sSrc : ℤ) ≤ to_int (sSrc.length - 1)
  · obtain ⟨j, hback, hj, hji, hlast⟩ := skip_back_some hin (by omega)
    have hlt : j < sSrc.length := by omega
    have hpiece := piece_eq_iff (by omega : b ≤ lead sSrc) hj hlt
    rw [hback, Option.bind_some]
    by_cases hbetween : (j : ℤ) - b + 1 < 2 ^ 31
    · rw [count_eq (by omega) hbetween, substr_inside (by omega)]
      simp only [hbetween, guard_true, Option.pure_def, Option.bind_eq_bind, Option.bind_some,
        Option.some.injEq]
      rw [hpiece]
      constructor
      · rintro ⟨hbegin, hend⟩
        exact ⟨by omega, by omega, by omega, by omega⟩
      · rintro ⟨-, hfits⟩
        have hreach := hfits.front
        exact ⟨by omega, hlast hfits.back⟩
    · simp only [hbetween, guard_false, Option.failure_eq_none, Option.bind_eq_bind, Option.bind_none]
      constructor
      · intro h
        cases h
      · rintro ⟨-, hfits⟩
        have hreach := hfits.front
        have hnear := hfits.between
        have hend := hlast hfits.back
        omega
  · rw [skip_back_none (by omega), Option.bind_none]
    constructor
    · intro h
      cases h
    · rintro ⟨hlt, hfits⟩
      have hends := lead_lt_stop hlt
      have hreach := hfits.back
      omega

/-- An empty text is indexed at -1. -/
theorem empty_indexed_outside : StringTrim [] ≠ some (Capture.StringTrim []) := by
  simp [StringTrim, skip_front, skip_back, char_at, trim_blank, to_int]

end RxNetCap.Core
