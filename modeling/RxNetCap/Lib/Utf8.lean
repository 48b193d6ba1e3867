/-
UTF-8 in a text whose characters stand for octets.

What has to follow an octet are the ranges of the octets up to the end of its
character. An octet below 0x80 is always a character of its own, so a text can be
cut in front of one and behind it (`valid_cons_iff`), and to replace such octets
by others changes nothing (`valid_flatMap`).
-/
import Mathlib.Data.List.Basic
import Mathlib.Tactic.Common

set_option autoImplicit false

namespace RxNetCap.Utf8

/-! ## Octets -/

/-- The ranges of the octets that a character still needs. -/
abbrev Owed := List (ℕ × ℕ)

def tail : ℕ × ℕ := (0x80, 0xBF)

/-- What follows the first octet of a character. -/
def first (octet : ℕ) : Option Owed :=
  if octet < 0x80 then some []
  else if 0xC2 ≤ octet ∧ octet ≤ 0xDF then some [tail]
  else if octet = 0xE0 then some [(0xA0, 0xBF), tail]
  else if octet = 0xED then some [(0x80, 0x9F), tail]
  else if 0xE1 ≤ octet ∧ octet ≤ 0xEF then some [tail, tail]
  else if octet = 0xF0 then some [(0x90, 0xBF), tail, tail]
  else if 0xF1 ≤ octet ∧ octet ≤ 0xF3 then some [tail, tail, tail]
  else if octet = 0xF4 then some [(0x80, 0x8F), tail, tail]
  else none

def step : Owed → Char → Option Owed
  | [], c => first c.toNat
  | (low, high) :: owed, c => if low ≤ c.toNat ∧ c.toNat ≤ high then some owed else none

def run (owed : Owed) (s : List Char) : Option Owed := s.foldlM step owed

/-- A text of whole characters. -/
def Valid (s : List Char) : Prop := run [] s = some []

instance (s : List Char) : Decidable (Valid s) := inferInstanceAs (Decidable (_ = _))

/-- Whether all characters of a text are of a kind is found out along the text, and
not along all characters that there are. -/
scoped instance decidableAll {p : Char → Prop} [DecidablePred p] (s : List Char) :
    Decidable (∀ c ∈ s, p c) :=
  List.decidableBAll p s

/-- An octet that is a character of its own. -/
def Ascii (c : Char) : Prop := c.toNat < 0x80

instance (c : Char) : Decidable (Ascii c) := inferInstanceAs (Decidable (_ < _))

/-! ## Runs -/

variable {s t : List Char} {owed : Owed} {c : Char}

theorem run_cons (owed : Owed) (c : Char) (s : List Char) :
    run owed (c :: s) = (step owed c).bind fun owed => run owed s := rfl

theorem run_append (owed : Owed) (s t : List Char) :
    run owed (s ++ t) = (run owed s).bind fun owed => run owed t := by
  rw [run, List.foldlM_append]
  rfl

/-- All that can be owed is above the octets that stand alone. -/
def Owes (owed : Owed) : Prop := ∀ range ∈ owed, 0x80 ≤ range.1

theorem first_owes {octet : ℕ} (h : first octet = some owed) : Owes owed := by
  unfold first at h
  split_ifs at h <;> cases h <;> simp [Owes, tail]

theorem step_owes {owed' : Owed} (howes : Owes owed) (h : step owed c = some owed') : Owes owed' := by
  cases owed with
  | nil => exact first_owes h
  | cons range owed =>
    obtain ⟨-, hsome⟩ := Option.ite_none_right_eq_some.mp h
    cases hsome
    exact fun range hrange => howes range (List.mem_cons_of_mem _ hrange)

theorem run_owes {owed' : Owed} (howes : Owes owed) (h : run owed s = some owed') : Owes owed' := by
  induction s generalizing owed with
  | nil =>
    cases h
    exact howes
  | cons c s ih =>
    obtain ⟨owed1, hstep, hrest⟩ := Option.bind_eq_some_iff.mp h
    exact ih (step_owes howes hstep) hrest

theorem owes_nil : Owes [] := nofun

/-- An octet that stands alone comes only where nothing is owed. -/
theorem step_ascii (howes : Owes owed) (hc : Ascii c) :
    step owed c = if owed = [] then some [] else none := by
  cases owed with
  | nil => exact if_pos hc
  | cons range owed =>
    have hlow := howes range List.mem_cons_self
    have hnot : ¬ (range.1 ≤ c.toNat ∧ c.toNat ≤ range.2) := fun h => by
      unfold Ascii at hc
      omega
    rw [if_neg (List.cons_ne_nil _ _)]
    exact if_neg hnot

theorem run_ascii (hs : ∀ c ∈ s, Ascii c) : run [] s = some [] := by
  induction s with
  | nil => rfl
  | cons c s ih =>
    rw [run_cons, step_ascii owes_nil (hs c List.mem_cons_self), if_pos rfl]
    exact ih fun d hd => hs d (List.mem_cons_of_mem _ hd)

/-! ## Valid texts -/

theorem valid_nil : Valid [] := rfl

theorem valid_ascii (hs : ∀ c ∈ s, Ascii c) : Valid s := run_ascii hs

theorem Valid.append (hs : Valid s) (ht : Valid t) : Valid (s ++ t) := by
  rw [Valid, run_append, show run [] s = some [] from hs]
  exact ht

/-- **A text can be cut** at an octet that stands alone. -/
theorem valid_cons_iff (hc : Ascii c) : Valid (s ++ c :: t) ↔ Valid s ∧ Valid t := by
  constructor
  · intro h
    rw [Valid, run_append] at h
    obtain ⟨owed, hs, hrest⟩ := Option.bind_eq_some_iff.mp h
    rw [run_cons, step_ascii (run_owes owes_nil hs) hc] at hrest
    by_cases howed : owed = []
    · rw [if_pos howed] at hrest
      rw [howed] at hs
      exact ⟨hs, hrest⟩
    · rw [if_neg howed] at hrest
      cases hrest
  · rintro ⟨hs, ht⟩
    refine hs.append ?_
    rw [Valid, run_cons, step_ascii owes_nil hc, if_pos rfl]
    exact ht

theorem valid_ascii_append (hs : ∀ c ∈ s, Ascii c) : Valid (s ++ t) ↔ Valid t := by
  rw [Valid, run_append, run_ascii hs]
  exact Iff.rfl

/-- To write octets that stand alone with others of the kind changes nothing. -/
theorem run_flatMap {f : Char → List Char} (hhigh : ∀ c, ¬ Ascii c → f c = [c])
    (hlow : ∀ c, Ascii c → f c ≠ [] ∧ ∀ d ∈ f c, Ascii d) (howes : Owes owed) (s : List Char) :
    run owed (s.flatMap f) = run owed s := by
  induction s generalizing owed with
  | nil => rfl
  | cons c s ih =>
    rw [List.flatMap_cons, run_append, run_cons]
    by_cases hc : Ascii c
    · obtain ⟨hne, hascii⟩ := hlow c hc
      rw [step_ascii howes hc]
      by_cases howed : owed = []
      · rw [howed, run_ascii hascii, if_pos rfl]
        exact ih owes_nil
      · obtain ⟨d, rest, hd⟩ := List.exists_cons_of_ne_nil hne
        rw [hd, run_cons, step_ascii howes (hascii d (hd ▸ List.mem_cons_self)), if_neg howed]
        rfl
    · rw [hhigh c hc, run_cons]
      cases hstep : step owed c with
      | none => rfl
      | some owed' => exact ih (step_owes howes hstep)

theorem valid_flatMap {f : Char → List Char} (hhigh : ∀ c, ¬ Ascii c → f c = [c])
    (hlow : ∀ c, Ascii c → f c ≠ [] ∧ ∀ d ∈ f c, Ascii d) (s : List Char) :
    Valid (s.flatMap f) ↔ Valid s := by
  rw [Valid, run_flatMap hhigh hlow owes_nil]
  exact Iff.rfl

end RxNetCap.Utf8
