/-
A store: a finite map, and how many of its entries satisfy a test.

A program that keeps such numbers in counters beside the map has to change
them with every write: `tally_insert` and `tally_erase` say by how much.
`values_insert` and `values_erase_perm` say what a write does to all the values
together, for a program that owns what they hold.
-/
import Mathlib.Data.List.AList
import Mathlib.Tactic.Common

set_option autoImplicit false

namespace RxNetCap.Tally

variable {α β : Type} [DecidableEq α]

/-- A finite map from `α` to `β`. -/
abbrev Store (α β : Type) := AList fun _ : α => β

/-- The values of a store. -/
def values (m : Store α β) : List β := m.entries.map fun e => e.2

/-- The number of entries whose value satisfies `p`. -/
def tally (p : β → Bool) (m : Store α β) : ℕ := (values m).countP p

/-- What one value, if there is one, adds to the number. -/
def weight (p : β → Bool) : Option β → ℕ
  | none => 0
  | some b => if p b then 1 else 0

variable {m : Store α β} {a : α}

omit [DecidableEq α] in
@[simp] theorem tally_empty (p : β → Bool) : tally p (∅ : Store α β) = 0 := rfl

omit [DecidableEq α] in
@[simp] theorem values_empty : values (∅ : Store α β) = [] := rfl

/-- The values after a write: the new one, and those under the other keys. -/
theorem values_insert (new : β) : values (m.insert a new) = new :: values (m.erase a) := by
  rw [values, AList.entries_insert, List.map_cons]
  rfl

/-- Erasing a key takes its value out, if it has one. -/
theorem values_erase_perm (m : Store α β) (a : α) :
    (values m).Perm ((m.lookup a).toList ++ values (m.erase a)) := by
  cases h : m.lookup a with
  | none =>
    have hkeys : a ∉ m.entries.keys := AList.lookup_eq_none.mp h
    have herase : (m.erase a).entries = m.entries := List.kerase_of_notMem_keys hkeys
    rw [values, values, herase]
    rfl
  | some old =>
    have hmem : a ∈ m.entries.keys := AList.lookup_isSome.mp (by rw [h]; rfl)
    obtain ⟨b, front, back, hfront, hsplit, herase⟩ := List.exists_of_kerase hmem
    have hb : b = old := by
      have hlook : List.dlookup a m.entries = some old := h
      rw [hsplit, List.dlookup_append, List.dlookup_eq_none.mpr hfront] at hlook
      simpa using hlook
    subst hb
    have hentries : (m.erase a).entries = front ++ back := herase
    rw [values, values, hentries, hsplit, List.map_append, List.map_append, List.map_cons]
    exact List.perm_middle

variable (p : β → Bool)

/-- Removing an entry. -/
theorem tally_erase (m : Store α β) (a : α) :
    tally p (m.erase a) + weight p (m.lookup a) = tally p m := by
  rw [tally, tally, (values_erase_perm m a).countP_eq, List.countP_append]
  cases m.lookup a with
  | none => exact (Nat.zero_add _).symm
  | some old =>
    rw [Option.toList_some, List.countP_singleton, weight]
    exact Nat.add_comm _ _

/-- A write, over an old value or not. -/
theorem tally_insert (m : Store α β) (a : α) (new : β) :
    tally p (m.insert a new) + weight p (m.lookup a) = tally p m + weight p (some new) := by
  have herase := tally_erase p m a
  have hinsert : tally p (m.insert a new) = tally p (m.erase a) + weight p (some new) := by
    rw [tally, values_insert, List.countP_cons]
    rfl
  omega

theorem weight_le (m : Store α β) (a : α) : weight p (m.lookup a) ≤ tally p m := by
  have herase := tally_erase p m a
  omega

/-- The entries that satisfy one of two tests that exclude each other. -/
theorem tally_or {q : β → Bool} (hdisjoint : ∀ b, p b = true → q b = false) (m : Store α β) :
    tally (fun b => p b || q b) m = tally p m + tally q m := by
  unfold tally
  induction values m with
  | nil => rfl
  | cons b rest ih =>
    rw [List.countP_cons, List.countP_cons, List.countP_cons, ih]
    by_cases hp : p b = true
    · rw [hp, hdisjoint b hp]
      simp only [Bool.true_or, if_true, Bool.false_eq_true, if_false]
      omega
    · rw [Bool.eq_false_iff.mpr hp]
      simp only [Bool.false_or, Bool.false_eq_true, if_false]
      omega

end RxNetCap.Tally
