/-
The first place of a pattern in a list.

A pattern occurs at a place when the elements from there on are its elements.
Whether it does depends on these elements only, so the first place stays the
same when the list is changed behind the pattern (`FirstAt.behind`), and moves
along when something is put before it in which the pattern does not start
(`FirstAt.inserted`). A pattern whose first element does not come again in it does
not overlap with itself, so behind a list without it, it is first (`firstAt_end`).
-/
import Mathlib.Data.List.Basic

set_option autoImplicit false

namespace RxNetCap.Search

variable {α : Type*}

/-- The elements of `s` from `n` on start with the pattern. -/
def Occurs (pattern s : List α) (n : ℕ) : Prop :=
  ∀ (i : ℕ) (h : i < pattern.length), s[n + i]? = some pattern[i]

/-- `n` is the first such place. -/
structure FirstAt (pattern s : List α) (n : ℕ) : Prop where
  occurs : Occurs pattern s n
  first : ∀ m < n, ¬ Occurs pattern s m

section Occurs

variable {pattern s t : List α} {n : ℕ}

theorem occurs_zero : Occurs pattern s 0 ↔ pattern <+: s := by
  rw [List.prefix_iff_getElem?]
  simp only [Occurs, Nat.zero_add]

theorem occurs_cons {x : α} : Occurs pattern (x :: s) (n + 1) ↔ Occurs pattern s n := by
  refine forall₂_congr fun i _ => ?_
  rw [Nat.add_right_comm, List.getElem?_cons_succ]

theorem Occurs.drop (h : Occurs pattern s n) : pattern <+: s.drop n := by
  rw [← occurs_zero]
  intro i hi
  rw [List.getElem?_drop, Nat.zero_add]
  exact h i hi

/-- What is found, with what is before and behind it. -/
theorem Occurs.split (h : Occurs pattern s n) (hpos : pattern ≠ []) :
    ∃ before after, s = before ++ pattern ++ after ∧ before.length = n := by
  obtain ⟨after, hafter⟩ := h.drop
  have hn : n < s.length := by
    have hlen := congrArg List.length hafter
    rw [List.length_append, List.length_drop] at hlen
    have := List.length_pos_iff.mpr hpos
    omega
  refine ⟨s.take n, after, ?_, List.length_take_of_le (Nat.le_of_lt hn)⟩
  rw [List.append_assoc, hafter, List.take_append_drop]

theorem occurs_at (before pattern after : List α) :
    Occurs pattern (before ++ pattern ++ after) before.length := by
  intro i hi
  rw [List.append_assoc, List.getElem?_append_right (Nat.le_add_right _ _), Nat.add_sub_cancel_left,
    List.getElem?_append_left hi, List.getElem?_eq_getElem hi]

/-- An occurrence is a matter of the elements it is of. -/
theorem Occurs.congr (h : Occurs pattern s n)
    (hsame : ∀ i < pattern.length, t[n + i]? = s[n + i]?) : Occurs pattern t n := by
  intro i hi
  rw [hsame i hi]
  exact h i hi

theorem FirstAt.unique {m : ℕ} (h : FirstAt pattern s n) (h' : FirstAt pattern s m) : n = m := by
  rcases Nat.lt_trichotomy n m with hlt | heq | hgt
  · exact absurd h.occurs (h'.first n hlt)
  · exact heq
  · exact absurd h'.occurs (h.first m hgt)

/-- The list behind the pattern does not matter. -/
theorem FirstAt.behind {before after after' : List α}
    (h : FirstAt pattern (before ++ pattern ++ after) before.length) :
    FirstAt pattern (before ++ pattern ++ after') before.length := by
  refine ⟨occurs_at before pattern after', fun m hm hoccurs => ?_⟩
  refine h.first m hm (hoccurs.congr fun i hi => ?_)
  have hin : m + i < (before ++ pattern).length := by
    rw [List.length_append]
    omega
  rw [List.getElem?_append_left hin, List.getElem?_append_left hin]

/-- A list that is put in somewhere, with the pattern in it but without a
beginning of it at its start. -/
theorem FirstAt.inserted {u v : List α} {x : α} {line : List α}
    (hnone : ∀ m, ¬ Occurs pattern u m) (hx : x ∉ pattern)
    (h : FirstAt pattern (x :: line ++ v) n) :
    FirstAt pattern (u ++ (x :: line ++ v)) (u.length + n) := by
  refine ⟨?_, fun m hm hoccurs => ?_⟩
  · intro i hi
    rw [List.getElem?_append_right (by omega), show u.length + n + i - u.length = n + i by omega]
    exact h.occurs i hi
  · by_cases hbehind : u.length ≤ m
    · -- the occurrence is in the list that was put in
      obtain ⟨k, rfl⟩ := Nat.exists_eq_add_of_le hbehind
      refine h.first k (by omega) fun i hi => ?_
      have hat := hoccurs i hi
      rwa [List.getElem?_append_right (by omega),
        show u.length + k + i - u.length = k + i by omega] at hat
    · by_cases hbefore : m + pattern.length ≤ u.length
      · refine hnone m (hoccurs.congr fun i hi => ?_)
        rw [List.getElem?_append_left (by omega)]
      · -- the pattern goes across `x`
        have hi : u.length - m < pattern.length := by omega
        have hat := hoccurs (u.length - m) hi
        rw [show m + (u.length - m) = u.length by omega, List.getElem?_append_right (Nat.le_refl _),
          Nat.sub_self, List.cons_append, List.getElem?_cons_zero, Option.some.injEq] at hat
        exact hx (hat ▸ List.getElem_mem hi)

end Occurs

/-! ## A pattern whose first element does not come again -/

section Ends

variable {x : α} {rest s : List α}

theorem occurs_iff_infix {pattern : List α} (hpos : pattern ≠ []) :
    (∃ n, Occurs pattern s n) ↔ pattern <:+: s := by
  constructor
  · rintro ⟨n, h⟩
    obtain ⟨before, after, rfl, -⟩ := h.split hpos
    exact ⟨before, after, rfl⟩
  · rintro ⟨before, after, rfl⟩
    exact ⟨before.length, occurs_at before pattern after⟩

/-- Such a pattern does not overlap with itself. -/
theorem Occurs.apart (hx : x ∉ rest) {n m : ℕ} (hn : Occurs (x :: rest) s n)
    (hm : Occurs (x :: rest) s m) (hlt : n < m) : n + (x :: rest).length ≤ m := by
  by_contra hover
  have hinside : m - n < (x :: rest).length := by omega
  have hat := hn (m - n) hinside
  have hstart := hm 0 (Nat.zero_lt_succ _)
  have hplace : n + (m - n) = m + 0 := by omega
  rw [hplace, hstart, Option.some.injEq] at hat
  obtain ⟨k, hk⟩ : ∃ k, m - n = k + 1 := ⟨m - n - 1, by omega⟩
  simp only [hk, List.getElem_cons_zero, List.getElem_cons_succ] at hat
  exact hx (hat ▸ List.getElem_mem _)

/-- Put behind a list, it is found there exactly when the list has none. -/
theorem firstAt_end (hx : x ∉ rest) :
    FirstAt (x :: rest) (s ++ x :: rest) s.length ↔ ¬ x :: rest <:+: s := by
  have hend : Occurs (x :: rest) (s ++ x :: rest) s.length := by
    have hat := occurs_at s (x :: rest) []
    rwa [List.append_nil] at hat
  rw [← occurs_iff_infix (List.cons_ne_nil x rest)]
  constructor
  · rintro h ⟨n, hn⟩
    have hlt : n < s.length := by
      obtain ⟨before, after, rfl, rfl⟩ := hn.split (List.cons_ne_nil x rest)
      simp only [List.length_append, List.length_cons]
      omega
    refine h.first n hlt (hn.congr fun i hi => ?_)
    obtain ⟨hin, -⟩ := List.getElem?_eq_some_iff.mp (hn i hi)
    rw [List.getElem?_append_left hin]
  · intro hnone
    refine ⟨hend, fun n hn hoccurs => hnone ⟨n, hoccurs.congr fun i hi => ?_⟩⟩
    have hapart := hoccurs.apart hx hend hn
    rw [List.getElem?_append_left (by omega)]

end Ends

/-! ## One element -/

theorem occurs_singleton {x : α} {s : List α} {n : ℕ} : Occurs [x] s n ↔ s[n]? = some x := by
  constructor
  · intro h
    exact h 0 (Nat.lt_add_one 0)
  · intro h i hi
    obtain rfl : i = 0 := by simpa using hi
    exact h

theorem firstAt_singleton {x : α} {s : List α} {n : ℕ} : FirstAt [x] s n ↔
    ∃ before after, s = before ++ x :: after ∧ x ∉ before ∧ before.length = n := by
  constructor
  · intro h
    obtain ⟨before, after, rfl, rfl⟩ := h.occurs.split (List.cons_ne_nil x [])
    refine ⟨before, after, by simp, fun hmem => ?_, rfl⟩
    obtain ⟨i, hi, hx⟩ := List.mem_iff_getElem.mp hmem
    refine h.first i hi (occurs_singleton.mpr ?_)
    rw [List.append_assoc, List.getElem?_append_left hi, List.getElem?_eq_getElem hi, hx]
  · rintro ⟨before, after, rfl, hnot, rfl⟩
    refine ⟨?_, fun m hm hoccurs => ?_⟩
    · have hat := occurs_at before [x] after
      rwa [List.append_assoc] at hat
    · rw [occurs_singleton, List.getElem?_append_left hm, List.getElem?_eq_getElem hm,
        Option.some.injEq] at hoccurs
      exact hnot (hoccurs ▸ List.getElem_mem hm)

end RxNetCap.Search
