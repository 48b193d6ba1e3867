/-
Making room in a list, from its front: the elements are dropped one after
another until what is left is within a limit.

What is left is the longest end of the list that is within the limit
(`suffix_keep_iff`), and an element is dropped when it and all behind it are not
(`mem_evicted_iff`).
-/
import Mathlib.Algebra.Order.Ring.Int
import Mathlib.Algebra.BigOperators.Group.List.Basic
import Mathlib.Data.List.Infix

set_option autoImplicit false

namespace RxNetCap.Eviction

variable {α : Type} (size : α → ℕ)

/-- The sizes of a list together. -/
def total (l : List α) : ℕ := (l.map size).sum

@[simp] theorem total_nil : total size [] = 0 := rfl

@[simp] theorem total_cons (a : α) (l : List α) : total size (a :: l) = size a + total size l :=
  List.sum_cons

@[simp] theorem total_append (l l' : List α) :
    total size (l ++ l') = total size l + total size l' := by
  rw [total, List.map_append, List.sum_append]
  rfl

theorem total_perm {l l' : List α} (h : l.Perm l') : total size l = total size l' :=
  (h.map size).sum_eq

theorem total_sublist {l l' : List α} (h : l.Sublist l') : total size l ≤ total size l' := by
  induction h with
  | slnil => exact Nat.le_refl 0
  | cons a _ ih =>
    rw [total_cons]
    exact ih.trans (Nat.le_add_left _ _)
  | cons_cons a _ ih =>
    rw [total_cons, total_cons]
    exact Nat.add_le_add_left ih _

theorem total_suffix {l l' : List α} (h : l <:+ l') : total size l ≤ total size l' :=
  total_sublist size h.sublist

/-- What is dropped from the front until the rest is within the limit. -/
def evicted (limit : ℕ) : List α → List α
  | [] => []
  | a :: l => if limit < total size (a :: l) then a :: evicted limit l else []

/-- What is left. -/
def keep (limit : ℕ) : List α → List α
  | [] => []
  | a :: l => if limit < total size (a :: l) then keep limit l else a :: l

section Lists

variable {size} {limit : ℕ} {l s : List α} {a : α}

theorem evicted_append_keep (size : α → ℕ) (limit : ℕ) (l : List α) :
    evicted size limit l ++ keep size limit l = l := by
  induction l with
  | nil => rfl
  | cons a l ih =>
    rw [evicted, keep]
    split
    · rw [List.cons_append, ih]
    · rfl

theorem keep_suffix (limit : ℕ) (l : List α) : keep size limit l <:+ l :=
  ⟨evicted size limit l, evicted_append_keep size limit l⟩

theorem total_keep_le (limit : ℕ) (l : List α) : total size (keep size limit l) ≤ limit := by
  induction l with
  | nil => exact Nat.zero_le limit
  | cons a l ih =>
    rw [keep]
    split
    · exact ih
    · next hfits => exact Nat.le_of_not_lt hfits

/-- **What is left** is the longest end within the limit. -/
theorem suffix_keep_iff : s <:+ keep size limit l ↔ s <:+ l ∧ total size s ≤ limit := by
  constructor
  · intro h
    exact ⟨h.trans (keep_suffix limit l), (total_suffix size h).trans (total_keep_le limit l)⟩
  · rintro ⟨hsuffix, hfits⟩
    induction l with
    | nil => exact hsuffix
    | cons a l ih =>
      rw [keep]
      split
      · next hover =>
        rcases List.suffix_cons_iff.mp hsuffix with rfl | hsuffix
        · omega
        · exact ih hsuffix
      · exact hsuffix

/-- **What is dropped** does not fit with all that is behind it. -/
theorem mem_evicted_iff :
    a ∈ evicted size limit l ↔ ∃ s, a :: s <:+ l ∧ limit < total size (a :: s) := by
  induction l with
  | nil =>
    refine iff_of_false List.not_mem_nil ?_
    rintro ⟨s, hsuffix, -⟩
    exact List.cons_ne_nil a s (List.suffix_nil.mp hsuffix)
  | cons b l ih =>
    rw [evicted]
    split
    · next hover =>
      rw [List.mem_cons, ih]
      constructor
      · rintro (rfl | ⟨s, hsuffix, htotal⟩)
        · exact ⟨l, List.suffix_refl _, hover⟩
        · exact ⟨s, hsuffix.trans (List.suffix_cons b l), htotal⟩
      · rintro ⟨s, hsuffix, htotal⟩
        rcases List.suffix_cons_iff.mp hsuffix with heq | hsuffix
        · exact .inl (List.cons.inj heq).1
        · exact .inr ⟨s, hsuffix, htotal⟩
    · next hfits =>
      refine iff_of_false List.not_mem_nil ?_
      rintro ⟨s, hsuffix, htotal⟩
      have hle := total_suffix size hsuffix
      omega

end Lists

end RxNetCap.Eviction
