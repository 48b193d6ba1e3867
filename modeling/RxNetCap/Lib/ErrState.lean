/-
Reasoning about programs in `EStateM`: a state that is threaded through, and
an exception that keeps the state it was raised in.

Two ways of reading a program. *Inversion*: each `_ok` lemma says exactly when
an operation returns, with what value and in what state, so that a hypothesis
`x s = .ok a t` unfolds into what `x` did. *Preservation*: `Preserves R x` says
that whenever `x` returns, the states before and after are related by `R`; its
rules follow the syntax of a program, so a fact of this kind is proved by
walking through the `do` block.

The rules of `Meets` and of `Follows` do the same for facts that also speak of
the errors: a pre- and a postcondition, and how the runs of a program from two
states go together.
-/
import Mathlib.Order.Defs.Unbundled
import Mathlib.Tactic.Common

set_option autoImplicit false

namespace RxNetCap.ErrState

variable {ε σ α β : Type}

open EStateM (Result)

/-! ## Inversion -/

theorem bind_ok (x : EStateM ε σ α) (f : α → EStateM ε σ β) (s t : σ) (b : β) :
    (x >>= f) s = .ok b t ↔ ∃ a u, x s = .ok a u ∧ f a u = .ok b t := by
  show EStateM.bind x f s = .ok b t ↔ _
  unfold EStateM.bind
  cases hx : x s with
  | ok a u =>
    constructor
    · intro h
      exact ⟨a, u, rfl, h⟩
    · rintro ⟨a', u', h, hf⟩
      cases h
      exact hf
  | error e u => simp

theorem pure_ok (a b : α) (s t : σ) :
    (pure a : EStateM ε σ α) s = .ok b t ↔ a = b ∧ s = t := by
  show EStateM.Result.ok a s = .ok b t ↔ _
  simp

theorem throw_ok (e : ε) (b : α) (s t : σ) :
    (throw e : EStateM ε σ α) s = .ok b t ↔ False := by
  show EStateM.Result.error e s = .ok b t ↔ _
  simp

theorem get_ok (s t u : σ) : (get : EStateM ε σ σ) s = .ok u t ↔ s = u ∧ s = t := by
  show EStateM.Result.ok s s = .ok u t ↔ _
  simp

theorem modify_ok (g : σ → σ) (s t : σ) (a : PUnit) :
    (modify g : EStateM ε σ PUnit) s = .ok a t ↔ g s = t := by
  show EStateM.Result.ok PUnit.unit (g s) = .ok a t ↔ _
  simp

theorem modifyGet_ok (g : σ → α × σ) (s t : σ) (a : α) :
    (modifyGet g : EStateM ε σ α) s = .ok a t ↔ g s = (a, t) := by
  show (match g s with | (a, s) => EStateM.Result.ok a s) = .ok a t ↔ _
  rcases g s with ⟨b, u⟩
  simp

theorem map_ok (g : α → β) (x : EStateM ε σ α) (s t : σ) (b : β) :
    (g <$> x) s = .ok b t ↔ ∃ a, x s = .ok a t ∧ g a = b := by
  show EStateM.map g x s = .ok b t ↔ _
  unfold EStateM.map
  cases hx : x s with
  | ok a u =>
    constructor
    · intro h
      cases h
      exact ⟨a, rfl, rfl⟩
    · rintro ⟨a', h, rfl⟩
      cases h
      rfl
  | error e u => simp

/-- A handler that never returns leaves only the runs that did not need it. -/
theorem tryCatch_ok (x : EStateM ε σ α) (handler : ε → EStateM ε σ α)
    (hh : ∀ e s a t, handler e s ≠ .ok a t) (s t : σ) (a : α) :
    (tryCatch x handler : EStateM ε σ α) s = .ok a t ↔ x s = .ok a t := by
  show EStateM.tryCatch x handler s = .ok a t ↔ _
  unfold EStateM.tryCatch
  cases hx : x s with
  | ok b u => simp
  | error e u =>
    constructor
    · intro h
      exact absurd h (hh e u a t)
    · intro h
      cases h

theorem ite_ok (c : Prop) [Decidable c] (x y : EStateM ε σ α) (s t : σ) (a : α) :
    (if c then x else y) s = .ok a t ↔ (c ∧ x s = .ok a t) ∨ (¬c ∧ y s = .ok a t) := by
  by_cases h : c <;> simp [h]

/-! ## Preservation -/

/-- Whenever `x` returns, the state it started in and the state it returns in
are related. -/
def Preserves (R : σ → σ → Prop) (x : EStateM ε σ α) : Prop :=
  ∀ s a t, x s = .ok a t → R s t

namespace Preserves

variable {R : σ → σ → Prop}

theorem pure [Std.Refl R] (a : α) : Preserves R (pure a : EStateM ε σ α) := by
  intro s b t h
  rw [pure_ok] at h
  rw [← h.2]
  exact Std.Refl.refl s

theorem throw (e : ε) : Preserves R (throw e : EStateM ε σ α) := by
  intro s b t h
  rw [throw_ok] at h
  exact h.elim

theorem get [Std.Refl R] : Preserves R (get : EStateM ε σ σ) := by
  intro s u t h
  rw [get_ok] at h
  rw [← h.2]
  exact Std.Refl.refl s

theorem modify {g : σ → σ} (h : ∀ s, R s (g s)) : Preserves R (modify g : EStateM ε σ PUnit) := by
  intro s a t hm
  rw [modify_ok] at hm
  rw [← hm]
  exact h s

theorem bind [IsTrans σ R] {x : EStateM ε σ α} {f : α → EStateM ε σ β}
    (hx : Preserves R x) (hf : ∀ a, Preserves R (f a)) : Preserves R (x >>= f) := by
  intro s b t h
  rw [bind_ok] at h
  obtain ⟨a, u, hxu, hft⟩ := h
  exact IsTrans.trans s u t (hx s a u hxu) (hf a u b t hft)

theorem ite {c : Prop} [Decidable c] {x y : EStateM ε σ α}
    (hx : Preserves R x) (hy : Preserves R y) : Preserves R (if c then x else y) := by
  by_cases h : c
  · rwa [if_pos h]
  · rwa [if_neg h]

end Preserves

/-! ## Pre- and postconditions -/

/-- From a state with `P`, what `x` returns is in `Q`, and what it throws in
`E`. -/
def Meets (P : σ → Prop) (x : EStateM ε σ α) (Q : α → σ → Prop) (E : ε → Prop) : Prop :=
  ∀ s, P s →
    match x s with
    | .ok a t => Q a t
    | .error e _ => E e

namespace Meets

variable {P T : σ → Prop} {Q Q' : α → σ → Prop} {E : ε → Prop}

theorem pure {a : α} (h : ∀ s, P s → Q a s) : Meets P (pure a : EStateM ε σ α) Q E := h

theorem throw {e : ε} (h : E e) : Meets P (throw e : EStateM ε σ α) Q E := fun _ _ => h

theorem modify {g : σ → σ} {Q : PUnit → σ → Prop} (h : ∀ s, P s → Q ⟨⟩ (g s)) :
    Meets P (modify g : EStateM ε σ PUnit) Q E := h

theorem bind {x : EStateM ε σ α} {f : α → EStateM ε σ β} {R : β → σ → Prop}
    (hx : Meets P x Q E) (hf : ∀ a, Meets (Q a) (f a) R E) : Meets P (x >>= f) R E := by
  intro s hs
  have hfirst := hx s hs
  show match EStateM.bind x f s with
    | .ok b t => R b t
    | .error e _ => E e
  unfold EStateM.bind
  cases hrun : x s with
  | ok a t =>
    rw [hrun] at hfirst
    exact hf a t hfirst
  | error e t =>
    rw [hrun] at hfirst
    exact hfirst

/-- What is read may be used in what follows. -/
theorem get_bind {f : σ → EStateM ε σ β} {R : β → σ → Prop}
    (h : ∀ s, P s → Meets (fun t => t = s) (f s) R E) : Meets P (get >>= f) R E := by
  intro s hs
  exact h s hs s rfl

/-- Whatever is read, what follows does as it should. -/
theorem get_any {f : σ → EStateM ε σ β} {R : β → σ → Prop} (h : ∀ u, Meets P (f u) R E) :
    Meets P (get >>= f) R E := by
  intro s hs
  exact h s s hs

theorem ite {c : Prop} [Decidable c] {x y : EStateM ε σ α}
    (hx : c → Meets P x Q E) (hy : ¬c → Meets P y Q E) :
    Meets P (if c then x else y) Q E := by
  by_cases h : c
  · rw [if_pos h]
    exact hx h
  · rw [if_neg h]
    exact hy h

/-- With a handler that throws what it caught. -/
theorem tryCatch {x : EStateM ε σ α} {handler : ε → EStateM ε σ α} (hx : Meets P x Q E)
    (hhandler : ∀ e s, ∃ t, handler e s = .error e t) :
    Meets P (tryCatch x handler : EStateM ε σ α) Q E := by
  intro s hs
  have hrun := hx s hs
  show match EStateM.tryCatch x handler s with
    | .ok a t => Q a t
    | .error e _ => E e
  unfold EStateM.tryCatch
  cases hcase : x s with
  | ok a t =>
    rw [hcase] at hrun
    exact hrun
  | error e t =>
    rw [hcase] at hrun
    obtain ⟨u, hthrown⟩ := hhandler e (EStateM.Backtrackable.restore t (EStateM.Backtrackable.save s))
    simp only [hthrown]
    exact hrun

theorem of_exists {ι : Type} {T : ι → Prop} {P : ι → σ → Prop} {x : EStateM ε σ α}
    (h : ∀ i, T i → Meets (P i) x Q E) : Meets (fun s => ∃ i, T i ∧ P i s) x Q E := by
  rintro s ⟨i, hi, hs⟩
  exact h i hi s hs

theorem before (h : ∀ s, P s → T s) {x : EStateM ε σ α} (hx : Meets T x Q E) :
    Meets P x Q E := fun s hs => hx s (h s hs)

theorem after {x : EStateM ε σ α} (hx : Meets P x Q E) (h : ∀ a s, Q a s → Q' a s) :
    Meets P x Q' E := by
  intro s hs
  have hrun := hx s hs
  split at hrun
  · exact h _ _ hrun
  · exact hrun

end Meets

/-! ## Two runs -/

/-- If what `x` starts in is changed by `g`, it does the same, and what it
returns in is changed by `g`. Runs that throw an error in `U` are left out. -/
def Follows (g : σ → σ) (U : ε → Prop) (x : EStateM ε σ α) : Prop :=
  ∀ s, match x s with
    | .ok a t => x (g s) = .ok a (g t)
    | .error e _ => U e ∨ ∃ e' t', x (g s) = .error e' t'

namespace Follows

variable {g : σ → σ} {U : ε → Prop}

theorem pure (a : α) : Follows g U (pure a : EStateM ε σ α) := fun _ => rfl

theorem throw (e : ε) : Follows g U (throw e : EStateM ε σ α) := fun s => .inr ⟨e, g s, rfl⟩

theorem modify {m : σ → σ} (h : ∀ s, m (g s) = g (m s)) :
    Follows g U (modify m : EStateM ε σ PUnit) := by
  intro s
  show EStateM.Result.ok PUnit.unit (m (g s)) = .ok PUnit.unit (g (m s))
  rw [h]

theorem bind {x : EStateM ε σ α} {f : α → EStateM ε σ β} (hx : Follows g U x)
    (hf : ∀ a, Follows g U (f a)) : Follows g U (x >>= f) := by
  intro s
  have hfirst := hx s
  show match EStateM.bind x f s with
    | .ok b t => EStateM.bind x f (g s) = .ok b (g t)
    | .error e _ => U e ∨ ∃ e' t', EStateM.bind x f (g s) = .error e' t'
  unfold EStateM.bind
  cases hrun : x s with
  | ok a t =>
    rw [hrun] at hfirst
    have hrest := hf a t
    simp only [hfirst]
    exact hrest
  | error e t =>
    rw [hrun] at hfirst
    rcases hfirst with hunseen | ⟨e', t', herror⟩
    · exact .inl hunseen
    · simp only [herror]
      exact .inr ⟨e', t', rfl⟩

/-- What is read must be the same as far as it is used. -/
theorem get_bind {f : σ → EStateM ε σ β} (hsame : ∀ s, f (g s) = f s)
    (hf : ∀ s, Follows g U (f s)) : Follows g U (get >>= f) := by
  intro s
  have hrest := hf s s
  show match f s s with
    | .ok b t => f (g s) (g s) = .ok b (g t)
    | .error e _ => U e ∨ ∃ e' t', f (g s) (g s) = .error e' t'
  rw [hsame]
  exact hrest

theorem ite {c : Prop} [Decidable c] {x y : EStateM ε σ α} (hx : Follows g U x)
    (hy : Follows g U y) : Follows g U (if c then x else y) := by
  by_cases h : c
  · rwa [if_pos h]
  · rwa [if_neg h]

/-- With a handler that throws what it caught. -/
theorem tryCatch {x : EStateM ε σ α} {handler : ε → EStateM ε σ α} (hx : Follows g U x)
    (hhandler : ∀ e s, ∃ t, handler e s = .error e t) :
    Follows g U (tryCatch x handler : EStateM ε σ α) := by
  intro s
  have hrun := hx s
  show match EStateM.tryCatch x handler s with
    | .ok a t => EStateM.tryCatch x handler (g s) = .ok a (g t)
    | .error e _ => U e ∨ ∃ e' t', EStateM.tryCatch x handler (g s) = .error e' t'
  unfold EStateM.tryCatch
  cases hcase : x s with
  | ok a t =>
    rw [hcase] at hrun
    simp only [hrun]
  | error e t =>
    rw [hcase] at hrun
    obtain ⟨t₁, hthrown⟩ := hhandler e (EStateM.Backtrackable.restore t (EStateM.Backtrackable.save s))
    simp only [hthrown]
    rcases hrun with hunseen | ⟨e', t', herror⟩
    · exact .inl hunseen
    · obtain ⟨t₂, hagain⟩ :=
        hhandler e' (EStateM.Backtrackable.restore t' (EStateM.Backtrackable.save (g s)))
      simp only [herror, hagain]
      exact .inr ⟨e', t₂, rfl⟩

end Follows

end RxNetCap.ErrState
