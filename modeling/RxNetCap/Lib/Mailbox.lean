/-
Letters on their way.

A letter has a route, say from which thread to which. The letters of one route
are taken in the order they were posted (`Takes`), those of different routes in
any order.

`about p box` is the part of the mailbox that satisfies `p`: taking a letter
that does not satisfy `p` leaves it as it was (`Takes.about_other`), and taking
one that does takes it from there as well (`Takes.about_same`). So the letters
about one subject can be followed on their own, and where they all have one
route, they are taken in order (`Takes.along`).
-/
import Mathlib.Data.List.Basic
import Mathlib.Tactic.Common

set_option autoImplicit false

namespace RxNetCap.Mailbox

variable {ρ M : Type}

/-- The letters on their way, in the order they were posted. -/
abbrev Letters (ρ M : Type) := List (ρ × M)

/-- The letter `m` is taken from the route `r`, and `rest` is left. -/
structure Takes (r : ρ) (m : M) (box rest : Letters ρ M) : Prop where
  split : ∃ front back, box = front ++ (r, m) :: back ∧ rest = front ++ back ∧
    ∀ letter ∈ front, letter.1 ≠ r

/-- The first letter can be taken. -/
theorem Takes.head (r : ρ) (m : M) (rest : Letters ρ M) : Takes r m ((r, m) :: rest) rest :=
  ⟨[], rest, rfl, rfl, by simp⟩

theorem Takes.mem {r : ρ} {m : M} {box rest : Letters ρ M} (h : Takes r m box rest) :
    (r, m) ∈ box := by
  obtain ⟨front, back, rfl, -, -⟩ := h.split
  exact List.mem_append_right _ List.mem_cons_self

/-- What is left was there before. -/
theorem Takes.mem_of_rest {r : ρ} {m : M} {box rest : Letters ρ M} (h : Takes r m box rest)
    {letter : ρ × M} (hmem : letter ∈ rest) : letter ∈ box := by
  obtain ⟨front, back, rfl, rfl, -⟩ := h.split
  rcases List.mem_append.mp hmem with hfront | hback
  · exact List.mem_append_left _ hfront
  · exact List.mem_append_right _ (List.mem_cons_of_mem _ hback)

/-! ## Taking by computation -/

section Take

variable [DecidableEq ρ]

/-- The first letter of a route, and what it leaves. -/
def take (r : ρ) : Letters ρ M → Option (M × Letters ρ M)
  | [] => none
  | letter :: box =>
    if letter.1 = r then some (letter.2, box)
    else (take r box).map fun taken => (taken.1, letter :: taken.2)

theorem Takes.cons {r : ρ} {m : M} {box rest : Letters ρ M} (h : Takes r m box rest)
    {letter : ρ × M} (hroute : letter.1 ≠ r) : Takes r m (letter :: box) (letter :: rest) := by
  obtain ⟨front, back, rfl, rfl, hfront⟩ := h.split
  refine ⟨letter :: front, back, rfl, rfl, ?_⟩
  intro l hmem
  rcases List.mem_cons.mp hmem with rfl | hmem
  · exact hroute
  · exact hfront l hmem

/-- `take` computes what can be taken. -/
theorem take_eq_some {r : ρ} {m : M} {box rest : Letters ρ M} :
    take r box = some (m, rest) ↔ Takes r m box rest := by
  constructor
  · intro h
    induction box generalizing rest with
    | nil => cases h
    | cons letter box ih =>
      rw [take] at h
      split at h
      · next hroute =>
        obtain ⟨rfl, rfl⟩ := Prod.mk.inj (Option.some.inj h)
        rw [← hroute]
        exact Takes.head letter.1 letter.2 box
      · next hroute =>
        obtain ⟨⟨m', rest'⟩, htake, htaken⟩ := Option.map_eq_some_iff.mp h
        obtain ⟨rfl, rfl⟩ := Prod.mk.inj htaken
        exact (ih htake).cons hroute
  · intro h
    obtain ⟨front, back, rfl, rfl, hfront⟩ := h.split
    induction front with
    | nil => exact if_pos rfl
    | cons letter front ih =>
      have hrest := fun l hmem => hfront l (List.mem_cons_of_mem _ hmem)
      rw [List.cons_append, take, if_neg (hfront letter List.mem_cons_self),
        ih hrest ⟨front, back, rfl, rfl, hrest⟩]
      rfl

end Take

/-! ## Letters about a subject -/

/-- The letters that satisfy `p`. -/
def about (p : M → Bool) (box : Letters ρ M) : Letters ρ M := box.filter fun letter => p letter.2

section About

variable {p : M → Bool} {r : ρ} {m : M} {box rest : Letters ρ M}

@[simp] theorem about_nil : about p ([] : Letters ρ M) = [] := rfl

theorem about_append (box₁ box₂ : Letters ρ M) :
    about p (box₁ ++ box₂) = about p box₁ ++ about p box₂ := List.filter_append ..

theorem about_eq_nil (h : ∀ letter ∈ box, p letter.2 = false) : about p box = [] := by
  rw [about, List.filter_eq_nil_iff]
  intro letter hmem
  simp [h letter hmem]

theorem Takes.about_other (h : Takes r m box rest) (hp : p m = false) :
    about p rest = about p box := by
  obtain ⟨front, back, rfl, rfl, -⟩ := h.split
  simp only [about, List.filter_append, List.filter_cons, hp]
  rfl

theorem Takes.about_same (h : Takes r m box rest) (hp : p m = true) :
    Takes r m (about p box) (about p rest) := by
  obtain ⟨front, back, rfl, rfl, hfront⟩ := h.split
  refine ⟨about p front, about p back, ?_, ?_, ?_⟩
  · simp only [about, List.filter_append, List.filter_cons, hp]
    rfl
  · exact about_append front back
  · intro letter hmem
    exact hfront letter (List.mem_of_mem_filter hmem)

theorem Takes.not_nil (h : Takes r m [] rest) : False := by
  obtain ⟨front, back, hbox, -, -⟩ := h.split
  simp at hbox

/-- Of letters that all have one route, the first is taken. -/
theorem Takes.along {r' : ρ} {letter : ρ × M} {more : Letters ρ M}
    (h : Takes r m (letter :: more) rest) (hroute : ∀ l ∈ letter :: more, l.1 = r') :
    letter = (r, m) ∧ rest = more := by
  obtain ⟨front, back, hbox, rfl, hfront⟩ := h.split
  cases front with
  | nil =>
    obtain ⟨rfl, rfl⟩ := List.cons.inj hbox
    exact ⟨rfl, rfl⟩
  | cons first front =>
    have hr : r = r' := hroute (r, m) (by rw [hbox]; simp)
    have hfirst : first.1 = r' := by
      refine hroute first ?_
      rw [hbox]
      exact List.mem_cons_self
    exact absurd (hfirst.trans hr.symm) (hfront first List.mem_cons_self)

/-- From a mailbox with one letter, that letter is taken. -/
theorem Takes.only {letter : ρ × M} (h : Takes r m [letter] rest) :
    letter = (r, m) ∧ rest = [] := by
  have hroute : ∀ l ∈ [letter], l.1 = letter.1 := by
    intro l hmem
    rw [List.mem_singleton.mp hmem]
  exact h.along hroute

end About

end RxNetCap.Mailbox
