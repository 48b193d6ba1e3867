/-
Histories of a machine that takes one event after another.

`step s e` is the state after the event `e`, where `e` can happen in `s`, and
`run step init events` is the state after a history. What holds at first and
through every event holds after every history (`run_induction`); what holds after
the front of a history, and through every event from there on, holds after the
whole of it (`run_from`). In both the property may speak of the history too.
-/
import Mathlib.Data.List.Induction
import Mathlib.Tactic.Common

set_option autoImplicit false

namespace RxNetCap.Trace

variable {σ ε : Type} {step : σ → ε → Option σ} {init : σ}

/-- The state after a history, where it can happen. -/
def run (step : σ → ε → Option σ) (init : σ) (events : List ε) : Option σ := events.foldlM step init

theorem run_nil : run step init [] = some init := rfl

theorem run_cons {e : ε} {events : List ε} {s' : σ} : run step init (e :: events) = some s' ↔
    ∃ s, step init e = some s ∧ run step s events = some s' := by
  rw [run, List.foldlM_cons]
  exact Option.bind_eq_some_iff

theorem run_append (before after : List ε) :
    run step init (before ++ after) = (run step init before).bind fun s => run step s after := by
  rw [run, List.foldlM_append]
  rfl

theorem run_concat {events : List ε} {e : ε} {s' : σ} : run step init (events ++ [e]) = some s' ↔
    ∃ s, run step init events = some s ∧ step s e = some s' := by
  rw [run_append, Option.bind_eq_some_iff]
  simp [run]

/-- What holds at first and through every event holds after every history. -/
theorem run_induction {P : List ε → σ → Prop} (hinit : P [] init)
    (hstep : ∀ events s e s', run step init events = some s → P events s → step s e = some s' →
      P (events ++ [e]) s') {events : List ε} {s : σ} (h : run step init events = some s) :
    P events s := by
  induction events using List.reverseRecOn generalizing s with
  | nil =>
    cases h
    exact hinit
  | append_singleton events e ih =>
    obtain ⟨s1, h1, he⟩ := run_concat.mp h
    exact hstep events s1 e s h1 (ih h1) he

/-- What holds from some point on: after the front of a history, and through
every event behind it. -/
theorem run_from {P : List ε → σ → Prop} {before : List ε}
    (hbefore : ∀ s, run step init before = some s → P before s)
    {after : List ε}
    (hstep : ∀ events s e s', e ∈ after → before <+: events → run step init events = some s →
      P events s → step s e = some s' → P (events ++ [e]) s')
    {s : σ} (h : run step init (before ++ after) = some s) : P (before ++ after) s := by
  induction after using List.reverseRecOn generalizing s with
  | nil =>
    rw [List.append_nil] at h ⊢
    exact hbefore s h
  | append_singleton after e ih =>
    rw [← List.append_assoc] at h ⊢
    obtain ⟨s1, h1, he⟩ := run_concat.mp h
    have hrest := ih (fun events s e' s' hmem => hstep events s e' s' (List.mem_append_left _ hmem)) h1
    exact hstep _ s1 e s (by simp) (List.prefix_append _ _) h1 hrest he

/-- The first part of a history is a history. -/
theorem run_front {before after : List ε} {s : σ} (h : run step init (before ++ after) = some s) :
    ∃ s1, run step init before = some s1 ∧ run step s1 after = some s := by
  rw [run_append, Option.bind_eq_some_iff] at h
  exact h

/-! ## Histories whose events meet a condition -/

/-- Every event of the history meets a condition on it and the state before it. -/
def Along (step : σ → ε → Option σ) (P : σ → ε → Prop) : σ → List ε → Prop
  | _, [] => True
  | s, e :: events => P s e ∧ ∀ s', step s e = some s' → Along step P s' events

variable {P : σ → ε → Prop}

instance decidableAlong [∀ s e, Decidable (P s e)] : ∀ s events, Decidable (Along step P s events)
  | _, [] => isTrue trivial
  | s, e :: events =>
    match h : step s e with
    | some s' =>
      have := decidableAlong s' events
      decidable_of_iff (P s e ∧ Along step P s' events)
        (and_congr_right fun _ => ⟨fun hrest t ht => Option.some.inj (h.symm.trans ht) ▸ hrest,
          fun hrest => hrest s' h⟩)
    | none =>
      decidable_of_iff (P s e)
        ⟨fun he => ⟨he, fun t ht => nomatch h.symm.trans ht⟩, And.left⟩

theorem along_append {before after : List ε} : Along step P init (before ++ after) ↔
    Along step P init before ∧ ∀ s, run step init before = some s → Along step P s after := by
  induction before generalizing init with
  | nil =>
    constructor
    · intro h
      exact ⟨trivial, fun s hs => by cases hs; exact h⟩
    · rintro ⟨-, h⟩
      exact h init rfl
  | cons e before ih =>
    constructor
    · rintro ⟨he, hrest⟩
      refine ⟨⟨he, fun s' hs' => (ih.mp (hrest s' hs')).1⟩, fun s hs => ?_⟩
      obtain ⟨s', hs', hrun⟩ := run_cons.mp hs
      exact (ih.mp (hrest s' hs')).2 s hrun
    · rintro ⟨⟨he, hbefore⟩, hafter⟩
      refine ⟨he, fun s' hs' => ih.mpr ⟨hbefore s' hs', fun s hs => ?_⟩⟩
      exact hafter s (run_cons.mpr ⟨s', hs', hs⟩)

/-- What holds at first and through every event that meets the condition holds
after every history of such events. -/
theorem run_along {I : List ε → σ → Prop} (hinit : I [] init)
    (hstep : ∀ events s e s', I events s → P s e → step s e = some s' → I (events ++ [e]) s')
    {events : List ε} {s : σ} (halong : Along step P init events) (h : run step init events = some s) :
    I events s := by
  induction events using List.reverseRecOn generalizing s with
  | nil =>
    cases h
    exact hinit
  | append_singleton events e ih =>
    obtain ⟨s1, h1, he⟩ := run_concat.mp h
    obtain ⟨hbefore, hlast⟩ := along_append.mp halong
    exact hstep events s1 e s (ih hbefore h1) (hlast s1 h1).1 he

end RxNetCap.Trace
