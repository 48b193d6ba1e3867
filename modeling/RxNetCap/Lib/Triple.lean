/-
**Triples** for programs in `EStateM`: a precondition, a postcondition, and a
condition on every exception together with the state it leaves.

`Triple P x Q E` says of every run from a state in `P` that it either returns
into `Q` or throws into `E`; there is no third outcome, so a triple whose `E`
leaves an exception out says that this exception never happens. The rules
follow the syntax of a program. A run from one known state is the triple with
the precondition `(· = s)`, and `Triple.returning` brings in what is known of
the runs that return.
-/
import RxNetCap.Lib.ErrState

set_option autoImplicit false

namespace RxNetCap.ErrState

variable {ε σ α β : Type}

/-- From a state with `P`, what `x` returns is in `Q`, and what it throws is in
`E`, each with the state it leaves. -/
def Triple (P : σ → Prop) (x : EStateM ε σ α) (Q : α → σ → Prop) (E : ε → σ → Prop) : Prop :=
  ∀ s, P s →
    match x s with
    | .ok a t => Q a t
    | .error e t => E e t

namespace Triple

variable {P T : σ → Prop} {Q Q' : α → σ → Prop} {E E' : ε → σ → Prop}

theorem pure {a : α} (h : ∀ s, P s → Q a s) : Triple P (pure a : EStateM ε σ α) Q E := h

theorem throw {e : ε} (h : ∀ s, P s → E e s) : Triple P (throw e : EStateM ε σ α) Q E := h

theorem modify {g : σ → σ} {Q : PUnit → σ → Prop} (h : ∀ s, P s → Q ⟨⟩ (g s)) :
    Triple P (modify g : EStateM ε σ PUnit) Q E := h

theorem bind {x : EStateM ε σ α} {f : α → EStateM ε σ β} {R : β → σ → Prop}
    (hx : Triple P x Q E) (hf : ∀ a, Triple (Q a) (f a) R E) : Triple P (x >>= f) R E := by
  intro s hs
  have hfirst := hx s hs
  show match EStateM.bind x f s with
    | .ok b t => R b t
    | .error e t => E e t
  unfold EStateM.bind
  cases hrun : x s with
  | ok a t =>
    rw [hrun] at hfirst
    exact hf a t hfirst
  | error e t =>
    rw [hrun] at hfirst
    exact hfirst

/-- What is read may be used in what follows. -/
theorem get_bind {f : σ → EStateM ε σ β} {R : β → σ → Prop}
    (h : ∀ s, P s → Triple (· = s) (f s) R E) : Triple P (get >>= f) R E := by
  intro s hs
  exact h s hs s rfl

theorem ite {c : Prop} [Decidable c] {x y : EStateM ε σ α}
    (hx : c → Triple P x Q E) (hy : ¬c → Triple P y Q E) :
    Triple P (if c then x else y) Q E := by
  by_cases h : c
  · rw [if_pos h]
    exact hx h
  · rw [if_neg h]
    exact hy h

theorem of_exists {ι : Type} {T : ι → Prop} {P : ι → σ → Prop} {x : EStateM ε σ α}
    (h : ∀ i, T i → Triple (P i) x Q E) : Triple (fun s => ∃ i, T i ∧ P i s) x Q E := by
  rintro s ⟨i, hi, hs⟩
  exact h i hi s hs

/-- A part of the precondition that is no matter of the state. -/
theorem of_fact {c : Prop} {x : EStateM ε σ α} (h : c → Triple P x Q E) :
    Triple (fun s => c ∧ P s) x Q E := by
  rintro s ⟨hc, hs⟩
  exact h hc s hs

/-- A triple is one for each state it starts in. -/
theorem of_each {x : EStateM ε σ α} (h : ∀ s, P s → Triple (· = s) x Q E) : Triple P x Q E :=
  fun s hs => h s hs s rfl

theorem before {x : EStateM ε σ α} (h : ∀ s, P s → T s) (hx : Triple T x Q E) :
    Triple P x Q E := fun s hs => hx s (h s hs)

theorem after {x : EStateM ε σ α} (hx : Triple P x Q E) (h : ∀ a s, Q a s → Q' a s) :
    Triple P x Q' E := by
  intro s hs
  have hrun := hx s hs
  split at hrun
  · exact h _ _ hrun
  · exact hrun

/-- What is known of the runs that return. -/
theorem returning {x : EStateM ε σ α} {s : σ} (hx : Triple (· = s) x Q E) :
    Triple (· = s) x (fun a t => x s = .ok a t ∧ Q a t) E := by
  rintro _ rfl
  have hrun := hx _ rfl
  split at hrun
  · rename_i a t hcase
    exact ⟨hcase, hrun⟩
  · exact hrun

/-- A handler that starts where the exception left off. -/
theorem tryCatch {x : EStateM ε σ α} {handler : ε → EStateM ε σ α} (hx : Triple P x Q E')
    (hhandler : ∀ e, Triple (E' e) (handler e) Q E) :
    Triple P (tryCatch x handler : EStateM ε σ α) Q E := by
  intro s hs
  have hrun := hx s hs
  show match EStateM.tryCatch x handler s with
    | .ok a t => Q a t
    | .error e t => E e t
  unfold EStateM.tryCatch
  cases hcase : x s with
  | ok a t =>
    rw [hcase] at hrun
    exact hrun
  | error e t =>
    rw [hcase] at hrun
    exact hhandler e t hrun

end Triple

end RxNetCap.ErrState
