/-
Names that are given out in turn.

`next` goes around all names, and a name in use is passed over. Names that are
passed over were in use before, and there are only so many of them, so a name does
not come again before the others have: until `size` names have been given or were
in use at the beginning (`Since.pick`, `Since.fresh`).
-/
import Mathlib.Algebra.Order.Ring.Int
import Mathlib.Data.Finset.Card
import Mathlib.Data.Nat.ModEq
import Mathlib.Tactic.Common

set_option autoImplicit false

namespace RxNetCap.Rotation

variable {α : Type*}

/-- At most so many turns: the first name that is not in use. -/
def pick (next : α → α) (used : α → Bool) : ℕ → α → Option α
  | 0, _ => none
  | n + 1, a => if used (next a) then pick next used n (next a) else some (next a)

/-- What is picked comes in turn, and is not in use. -/
theorem pick_spec {next : α → α} {names : Set α} {used : α → Bool} {n : ℕ} {a b : α}
    (hclosed : ∀ c ∈ names, next c ∈ names) (ha : a ∈ names) (h : pick next used n a = some b) :
    used b = false ∧ ∃ c ∈ names, b = next c := by
  induction n generalizing a with
  | zero => cases h
  | succ n ih =>
    rw [pick] at h
    split_ifs at h with hused
    · exact ih (hclosed a ha) h
    · cases h
      exact ⟨Bool.eq_false_iff.mpr hused, a, ha, rfl⟩

/-- `rank` numbers the names along `next`. -/
structure Cycle (next : α → α) (names : Set α) (rank : α → ℕ) (size : ℕ) : Prop where
  closed : ∀ a ∈ names, next a ∈ names
  next : ∀ a ∈ names, rank (next a) = (rank a + 1) % size
  lt : ∀ a ∈ names, rank a < size

/-- What has happened since a name was given: so many turns, of which `given` gave
the names `young`, and the others passed over the names `passed`. -/
structure Since (names : Set α) (rank : α → ℕ) (size : ℕ) (start : α) (old : Finset α) (turns given : ℕ)
    (young passed : Finset α) (current : α) : Prop where
  name : current ∈ names
  here : rank current = (rank start + turns) % size
  count : turns = given + passed.card
  subset : passed ⊆ old
  place : ∀ a, a ∈ young ∨ a ∈ passed → ∃ k, 0 < k ∧ k ≤ turns ∧ rank a = (rank start + k) % size

section Since

variable {next : α → α} {names : Set α} {used : α → Bool} {rank : α → ℕ} {size turns given n : ℕ} {start current b : α}
  {old young passed : Finset α}

/-- Two numbers of turns with the same name are the same, or a round apart. -/
theorem turns_eq {r k k' : ℕ} (hk : k < size) (hk' : k' < size) (h : (r + k) % size = (r + k') % size) : k = k' := by
  have hmod : Nat.ModEq size k k' := Nat.ModEq.add_left_cancel' r h
  exact Nat.ModEq.eq_of_lt_of_lt hmod hk hk'

theorem Since.init (rank : α → ℕ) (size : ℕ) (old : Finset α) (hstart : start ∈ names) (hlt : rank start < size) :
    Since names rank size start old 0 0 ∅ ∅ start where
  name := hstart
  here := (Nat.mod_eq_of_lt hlt).symm
  count := rfl
  subset := Finset.empty_subset old
  place := by simp

/-- The name does not come again within a round. -/
theorem Since.fresh (h : Since names rank size start old turns given young passed current) (hlt : rank start < size)
    (hturns : turns < size) : start ∉ young ∧ start ∉ passed := by
  have hnot : ¬ ∃ k, 0 < k ∧ k ≤ turns ∧ rank start = (rank start + k) % size := by
    rintro ⟨k, hpos, hle, heq⟩
    have hzero : (rank start + 0) % size = (rank start + k) % size := by
      rw [Nat.add_zero, Nat.mod_eq_of_lt hlt]
      exact heq
    have hk := turns_eq (by omega) (by omega) hzero
    omega
  exact ⟨fun hmem => hnot (h.place start (.inl hmem)), fun hmem => hnot (h.place start (.inr hmem))⟩

/-- The next name is none of those that have come. -/
theorem Since.next_new (h : Since names rank size start old turns given young passed current)
    (hcycle : Cycle next names rank size) (hstart : start ∈ names) (hroom : turns + 1 < size) : next current ≠ start ∧ next current ∉ young ∧ next current ∉ passed := by
  have hrank : rank (next current) = (rank start + (turns + 1)) % size := by
    rw [hcycle.next _ h.name, h.here, Nat.mod_add_mod, Nat.add_assoc]
  have hnot : ∀ k, k ≤ turns → rank (next current) ≠ (rank start + k) % size := by
    intro k hle heq
    have hk := turns_eq (by omega) (by omega) (hrank.symm.trans heq)
    omega
  refine ⟨?_, ?_, ?_⟩
  · intro heq
    apply hnot 0 (Nat.zero_le _)
    rw [heq, Nat.add_zero, Nat.mod_eq_of_lt (hcycle.lt start hstart)]
  · intro hmem
    obtain ⟨k, -, hle, heq⟩ := h.place _ (.inl hmem)
    exact hnot k hle heq
  · intro hmem
    obtain ⟨k, -, hle, heq⟩ := h.place _ (.inr hmem)
    exact hnot k hle heq

/-- One turn, on which `a` comes. -/
theorem Since.turn (h : Since names rank size start old turns given young passed current)
    (hcycle : Cycle next names rank size) :
    rank (next current) = (rank start + (turns + 1)) % size ∧
      ∀ a, a = next current ∨ a ∈ young ∨ a ∈ passed →
        ∃ k, 0 < k ∧ k ≤ turns + 1 ∧ rank a = (rank start + k) % size := by
  have hrank : rank (next current) = (rank start + (turns + 1)) % size := by
    rw [hcycle.next _ h.name, h.here, Nat.mod_add_mod, Nat.add_assoc]
  refine ⟨hrank, ?_⟩
  rintro a (rfl | hmem)
  · exact ⟨turns + 1, by omega, by omega, hrank⟩
  · obtain ⟨k, hpos, hle, heq⟩ := h.place a hmem
    exact ⟨k, hpos, by omega, heq⟩

/-- **The next name that is given** is not the one of the beginning, while there
are enough of them. -/
theorem Since.pick [DecidableEq α] (h : Since names rank size start old turns given young passed current)
    (hcycle : Cycle next names rank size) (hstart : start ∈ names)
    (hused : ∀ a, used a = true → a ∈ old ∨ a = start ∨ a ∈ young) (hroom : given + 1 + old.card < size)
    (hpick : Rotation.pick next used n current = some b) :
    b ≠ start ∧ ∃ turns' passed', Since names rank size start old turns' (given + 1) (insert b young) passed' b := by
  induction n generalizing turns passed current with
  | zero => cases hpick
  | succ n ih =>
    rw [Rotation.pick] at hpick
    have hcard := Finset.card_le_card h.subset
    have hturns := h.count
    have hnew := h.next_new hcycle hstart (by omega)
    have hname := hcycle.closed _ h.name
    obtain ⟨hrank, hplace⟩ := h.turn hcycle
    by_cases hin : used (next current) = true
    · -- it is passed over, so it was in use at the beginning
      rw [if_pos hin] at hpick
      have hold : next current ∈ old := by
        rcases hused _ hin with hold | hstart | hyoung
        · exact hold
        · exact absurd hstart hnew.1
        · exact absurd hyoung hnew.2.1
      apply ih _ hpick
      · exact turns + 1
      · exact insert (next current) passed
      · apply Since.mk hname hrank
        · rw [Finset.card_insert_of_notMem hnew.2.2]
          omega
        · exact Finset.insert_subset hold h.subset
        · intro a ha
          apply hplace
          rw [Finset.mem_insert] at ha
          tauto
    · rw [if_neg hin] at hpick
      cases hpick
      refine ⟨hnew.1, turns + 1, passed, hname, hrank, by omega, h.subset, ?_⟩
      intro a ha
      apply hplace
      rw [Finset.mem_insert] at ha
      tauto

end Since

end RxNetCap.Rotation
