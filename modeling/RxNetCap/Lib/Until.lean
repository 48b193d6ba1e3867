/-
A loop that goes on until its state is final: `while (!done) step(next input);`
with a step that may fail and inputs that never end.

Where it is the input that makes a state final, as long as the states keep some
invariant, the loop ends with the first input that does, in the state that a
plain fold over the inputs up to there computes.
-/
import Mathlib.Data.List.Range
import Mathlib.Order.Basic

set_option autoImplicit false

namespace RxNetCap.Until

variable {σ ι : Type} {step : σ → ι → Option σ} {final : σ → Bool} {inputs : ℕ → ι}

/-- The state after at most `k` rounds. -/
def rounds (step : σ → ι → Option σ) (final : σ → Bool) (inputs : ℕ → ι) (s : σ) : ℕ → Option σ
  | 0 => some s
  | k + 1 => (rounds step final inputs s k).bind fun t =>
      if final t then some t else step t (inputs k)

/-- The loop leaves off in state `t`. -/
def EndsIn (step : σ → ι → Option σ) (final : σ → Bool) (inputs : ℕ → ι) (s t : σ) : Prop :=
  ∃ k, rounds step final inputs s k = some t ∧ final t = true

/-- The first `k` inputs. -/
def upto (inputs : ℕ → ι) (k : ℕ) : List ι := (List.range k).map inputs

theorem upto_succ (inputs : ℕ → ι) (k : ℕ) : upto inputs (k + 1) = upto inputs k ++ [inputs k] := by
  rw [upto, List.range_succ, List.map_append]
  rfl

/-- `k` is the first input that is due. -/
def FirstDue (due : ι → Bool) (inputs : ℕ → ι) (k : ℕ) : Prop :=
  due (inputs k) = true ∧ ∀ i < k, due (inputs i) = false

theorem exists_firstDue {due : ι → Bool} {i : ℕ} (h : due (inputs i) = true) :
    ∃ k ≤ i, FirstDue due inputs k := by
  induction i using Nat.strong_induction_on with
  | _ i ih =>
    by_cases hearlier : ∃ j < i, due (inputs j) = true
    · obtain ⟨j, hj, hdue⟩ := hearlier
      obtain ⟨k, hk, hfirst⟩ := ih j hj hdue
      exact ⟨k, hk.trans hj.le, hfirst⟩
    · refine ⟨i, le_rfl, h, fun j hj => ?_⟩
      exact Bool.eq_false_iff.mpr fun hdue => hearlier ⟨j, hj, hdue⟩

theorem FirstDue.unique {due : ι → Bool} {k k' : ℕ} (h : FirstDue due inputs k)
    (h' : FirstDue due inputs k') : k = k' := by
  by_contra hne
  rcases lt_or_gt_of_ne hne with hlt | hlt
  · exact Bool.false_ne_true ((h'.2 k hlt).symm.trans h.1)
  · exact Bool.false_ne_true ((h.2 k' hlt).symm.trans h'.1)

/-- A final state stays. -/
theorem rounds_final {s t : σ} {k : ℕ} (h : rounds step final inputs s k = some t)
    (hfinal : final t = true) : ∀ more, rounds step final inputs s (k + more) = some t := by
  intro more
  induction more with
  | zero => exact h
  | succ more ih => rw [← Nat.add_assoc, rounds, ih, Option.bind_some, if_pos hfinal]

/-- What every step keeps, the rounds keep. -/
theorem rounds_invariant {P : σ → Prop}
    (hstep : ∀ k s t, P s → step s (inputs k) = some t → P t) {s t : σ} {k : ℕ} (hs : P s)
    (h : rounds step final inputs s k = some t) : P t := by
  induction k generalizing t with
  | zero =>
    rw [← Option.some.inj h]
    exact hs
  | succ k ih =>
    obtain ⟨u, hu, hnext⟩ := Option.bind_eq_some_iff.mp h
    split at hnext
    · rw [← Option.some.inj hnext]
      exact ih hu
    · exact hstep k u t (ih hu) hnext

/-- What the step does to a final state does not matter. -/
theorem rounds_congr {step' : σ → ι → Option σ}
    (h : ∀ s i, final s = false → step s i = step' s i) (s : σ) (k : ℕ) :
    rounds step final inputs s k = rounds step' final inputs s k := by
  induction k with
  | zero => rfl
  | succ k ih =>
    rw [rounds, rounds, ih]
    congr 1
    funext t
    split
    · rfl
    · next hopen => exact h t (inputs k) (Bool.eq_false_iff.mpr hopen)

section Due

variable {I : σ → Prop} {due : ι → Bool}
  (hstep : ∀ s i t, I s → final s = false → step s i = some t → I t ∧ final t = due i)
  {s : σ} (hinv : I s) (hstart : final s = false)

include hstep hinv hstart

/-- As long as no input is due, the rounds are a fold. -/
theorem rounds_eq_fold {k : ℕ} (hearly : ∀ i < k, due (inputs i) = false) :
    rounds step final inputs s k = (upto inputs k).foldlM step s ∧
      ∀ t, rounds step final inputs s k = some t → I t ∧ final t = false := by
  induction k with
  | zero =>
    refine ⟨rfl, ?_⟩
    intro t ht
    rw [← Option.some.inj ht]
    exact ⟨hinv, hstart⟩
  | succ k ih =>
    obtain ⟨hfold, hopen⟩ := ih fun i hi => hearly i (Nat.lt_succ_of_lt hi)
    have hround : rounds step final inputs s (k + 1)
        = (rounds step final inputs s k).bind fun t => step t (inputs k) := by
      rw [rounds]
      cases hk : rounds step final inputs s k with
      | none => rfl
      | some t => simp only [Option.bind_some, (hopen t hk).2, Bool.false_eq_true, if_false]
    refine ⟨?_, ?_⟩
    · rw [hround, hfold, upto_succ, List.foldlM_append]
      simp only [List.foldlM_cons, List.foldlM_nil, bind_pure]
      rfl
    · intro t ht
      rw [hround] at ht
      obtain ⟨t', ht', hnext⟩ := Option.bind_eq_some_iff.mp ht
      obtain ⟨hinv', hopen'⟩ := hopen t' ht'
      obtain ⟨hinv'', hfinal⟩ := hstep t' (inputs k) t hinv' hopen' hnext
      exact ⟨hinv'', hfinal.trans (hearly k (Nat.lt_succ_self k))⟩

/-- The round with the first due input makes the state final. -/
theorem rounds_first_due {k : ℕ} (hfirst : FirstDue due inputs k) :
    rounds step final inputs s (k + 1) = (upto inputs (k + 1)).foldlM step s ∧
      ∀ t, rounds step final inputs s (k + 1) = some t → final t = true := by
  obtain ⟨hfold, hopen⟩ := rounds_eq_fold hstep hinv hstart hfirst.2
  rw [upto_succ, List.foldlM_append, ← hfold, rounds]
  cases hk : rounds step final inputs s k with
  | none => exact ⟨rfl, fun t ht => by cases ht⟩
  | some t =>
    obtain ⟨hinv', hopen'⟩ := hopen t hk
    simp only [Option.bind_some, Option.bind_eq_bind, hopen', Bool.false_eq_true, if_false,
      List.foldlM_cons, List.foldlM_nil, bind_pure, true_and]
    intro t' hnext
    exact (hstep t (inputs k) t' hinv' hopen' hnext).2.trans hfirst.1

/-- Nothing happens after it. -/
theorem rounds_stop {k : ℕ} (hfirst : FirstDue due inputs k) (more : ℕ) :
    rounds step final inputs s (k + 1 + more) = rounds step final inputs s (k + 1) := by
  cases hround : rounds step final inputs s (k + 1) with
  | none =>
    induction more with
    | zero => exact hround
    | succ more ih => rw [← Nat.add_assoc, rounds, ih, Option.bind_none]
  | some t => exact rounds_final hround ((rounds_first_due hstep hinv hstart hfirst).2 t hround) more

/-- **Where the loop ends.** With the first input that is due. -/
theorem endsIn_iff {t : σ} :
    EndsIn step final inputs s t ↔
      ∃ k, FirstDue due inputs k ∧ (upto inputs (k + 1)).foldlM step s = some t := by
  constructor
  · rintro ⟨k, hk, hfinal⟩
    -- some input before round `k` is due, or the state would not be final
    have hsome : ∃ i, i < k ∧ due (inputs i) = true := by
      by_contra hnone
      have hearly : ∀ i < k, due (inputs i) = false := by
        intro i hi
        exact Bool.eq_false_iff.mpr fun hdue => hnone ⟨i, hi, hdue⟩
      have hopen := ((rounds_eq_fold hstep hinv hstart hearly).2 t hk).2
      rw [hfinal] at hopen
      cases hopen
    obtain ⟨i, hi, hi_due⟩ := hsome
    obtain ⟨first, hle, hfirst⟩ := exists_firstDue hi_due
    obtain ⟨more, rfl⟩ : ∃ more, k = first + 1 + more :=
      Nat.exists_eq_add_of_le (lt_of_le_of_lt hle hi)
    refine ⟨first, hfirst, ?_⟩
    rw [← (rounds_first_due hstep hinv hstart hfirst).1, ← rounds_stop hstep hinv hstart hfirst more]
    exact hk
  · rintro ⟨k, hfirst, hfold⟩
    obtain ⟨hround, hclosed⟩ := rounds_first_due hstep hinv hstart hfirst
    rw [← hround] at hfold
    exact ⟨k + 1, hfold, hclosed t hfold⟩

end Due

end RxNetCap.Until
