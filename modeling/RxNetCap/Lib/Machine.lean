/-
A machine that is stepped until it stops, and the runs of a machine that only
moves forward.

`turn` is one turn of the machine's loop; `run turn n s` gives the loop `n`
turns. A position `pos : σ → ℕ` measures how far a state has got: `Advances s
s'` says that the machine comes from `s` to `s'` without stopping, every turn
gaining in position and made from a state with a given property. Advances
compose; a stop at the end of one is the result of every run with enough turns
for the distance (`run_done`); and a state the machine reaches has the property
or comes behind (`reaches_cases`). A machine all of whose turns gain comes to a
result (`run_ends`), and a machine that makes the turns of another one comes to
the results of that one (`run_kept`).

For a machine whose states point into a list of instructions, `CodeAt code i
block` says that the list holds `block` from index `i` on.
-/
import Mathlib.Logic.Relation
import Mathlib.Order.Nat
import Mathlib.Tactic.Common

set_option autoImplicit false

namespace RxNetCap.Machine

variable {σ ρ : Type}

/-- What one turn of the loop comes to. -/
inductive Turn (σ ρ : Type) where
  | next (s : σ)
  | done (r : ρ)
  deriving DecidableEq, Repr

/-- The loop, for at most `n` turns. -/
def run (turn : σ → Turn σ ρ) : ℕ → σ → Option ρ
  | 0, _ => none
  | n + 1, s =>
    match turn s with
    | .done r => some r
    | .next s' => run turn n s'

variable {turn : σ → Turn σ ρ} {pos : σ → ℕ}

theorem run_succ_next {s s' : σ} (h : turn s = .next s') (n : ℕ) :
    run turn (n + 1) s = run turn n s' := by
  simp only [run, h]

theorem run_succ_done {s : σ} {r : ρ} (h : turn s = .done r) (n : ℕ) :
    run turn (n + 1) s = some r := by
  simp only [run, h]

/-! ## Whole runs -/

/-- The result of a run is the result of a turn. -/
theorem run_some {r : ρ} : ∀ {n : ℕ} {s : σ}, run turn n s = some r → ∃ s', turn s' = .done r
  | 0, _, h => by cases h
  | n + 1, s, h => by
    cases hturn : turn s with
    | done r' =>
      rw [run_succ_done hturn, Option.some.injEq] at h
      exact ⟨s, h ▸ hturn⟩
    | next s' =>
      rw [run_succ_next hturn] at h
      exact run_some h

/-- A machine that gains in position with every turn, and stops from `bound` on,
comes to a result. -/
theorem run_ends {bound : ℕ} (hforward : ∀ s s', turn s = .next s' → pos s < pos s')
    (hbound : ∀ s s', turn s = .next s' → pos s < bound) :
    ∀ {n : ℕ} {s : σ}, bound - pos s < n → ∃ r, run turn n s = some r := by
  intro n
  induction n with
  | zero => intro s h; omega
  | succ n ih =>
    intro s h
    cases hturn : turn s with
    | done r => exact ⟨r, run_succ_done hturn n⟩
    | next s' =>
      have hgain := hforward s s' hturn
      have hinside := hbound s s' hturn
      rw [run_succ_next hturn]
      exact ih (by omega)

/-- Two machines side by side: if the second goes on as the first does, and
stops as the first does with a result to keep, it comes to every result to keep
that the first comes to. -/
theorem run_kept {turn' : σ → Turn σ ρ} {Keep : ρ → Prop}
    (hnext : ∀ s s', turn s = .next s' → turn' s = .next s')
    (hdone : ∀ s r, turn s = .done r → Keep r → turn' s = .done r) {r : ρ} (hkeep : Keep r) :
    ∀ {n : ℕ} {s : σ}, run turn n s = some r → run turn' n s = some r := by
  intro n
  induction n with
  | zero => intro s h; cases h
  | succ n ih =>
    intro s h
    cases hturn : turn s with
    | done r' =>
      rw [run_succ_done hturn, Option.some.injEq] at h
      subst h
      exact run_succ_done (hdone s r' hturn hkeep) n
    | next s' =>
      rw [run_succ_next hturn] at h
      rw [run_succ_next (hnext s s' hturn)]
      exact ih h

/-! ## Forward paths -/

section Paths

open Relation

variable {P Q : σ → Prop}

/-- The states a machine gets to, in any number of turns. -/
def Reaches (turn : σ → Turn σ ρ) : σ → σ → Prop := ReflTransGen fun s s' => turn s = .next s'

/-- One turn forward, from a state with `P`. -/
structure StepsOn (turn : σ → Turn σ ρ) (pos : σ → ℕ) (P : σ → Prop) (s s' : σ) : Prop where
  next : turn s = .next s'
  pos_lt : pos s < pos s'
  here : P s

/-- The machine comes from `s` to `s'` without stopping, every turn of it
forward and from a state with `P`. -/
def Advances (turn : σ → Turn σ ρ) (pos : σ → ℕ) (P : σ → Prop) : σ → σ → Prop :=
  ReflTransGen (StepsOn turn pos P)

namespace Advances

theorem refl (s : σ) : Advances turn pos P s s := ReflTransGen.refl

theorem step {s s' : σ} (h : turn s = .next s') (hlt : pos s < pos s') (hP : P s) :
    Advances turn pos P s s' := ReflTransGen.single ⟨h, hlt, hP⟩

theorem trans {s s' s'' : σ} (h : Advances turn pos P s s') (h' : Advances turn pos P s' s'') :
    Advances turn pos P s s'' := ReflTransGen.trans h h'

theorem mono {s s' : σ} (hPQ : ∀ t, P t → Q t) (h : Advances turn pos P s s') :
    Advances turn pos Q s s' := by
  have hle : StepsOn turn pos P ≤ StepsOn turn pos Q := fun _ _ hstep =>
    ⟨hstep.next, hstep.pos_lt, hPQ _ hstep.here⟩
  exact ReflTransGen.mono hle _ _ h

theorem pos_le {s s' : σ} (h : Advances turn pos P s s') : pos s ≤ pos s' := by
  induction h with
  | refl => exact le_rfl
  | tail _ hstep ih => exact ih.trans hstep.pos_lt.le

theorem reaches {s s' : σ} (h : Advances turn pos P s s') : Reaches turn s s' := by
  have hle : StepsOn turn pos P ≤ fun s s' => turn s = .next s' := fun _ _ hstep => hstep.next
  exact ReflTransGen.mono hle _ _ h

/-- A stop at the end of an advance is the result of the run. -/
theorem run_done {s s' : σ} {r : ρ} (h : Advances turn pos P s s') (hd : turn s' = .done r) :
    ∀ {n : ℕ}, pos s' - pos s < n → run turn n s = some r := by
  induction h using ReflTransGen.head_induction_on with
  | refl =>
    intro n hn
    obtain ⟨m, rfl⟩ : ∃ m, n = m + 1 := ⟨n - 1, by omega⟩
    exact run_succ_done hd m
  | head hstep hrest ih =>
    intro n hn
    have hlt := hstep.pos_lt
    have hle := pos_le hrest
    obtain ⟨m, rfl⟩ : ∃ m, n = m + 1 := ⟨n - 1, by omega⟩
    rw [run_succ_next hstep.next]
    exact ih (by omega)

/-- A state that is reached at all is on the way, or behind it. -/
theorem reaches_cases {s s' t : σ} (h : Advances turn pos P s s') (ht : Reaches turn s t) :
    P t ∨ Reaches turn s' t := by
  induction h using ReflTransGen.head_induction_on with
  | refl => exact .inr ht
  | head hstep _ ih =>
    rcases ReflTransGen.cases_head ht with rfl | ⟨s2, hnext, ht'⟩
    · exact .inl hstep.here
    · -- the machine is deterministic
      have hsame := hstep.next.symm.trans hnext
      cases hsame
      exact ih ht'

end Advances

theorem Reaches.head {s s' t : σ} (h : turn s = .next s') (h' : Reaches turn s' t) :
    Reaches turn s t := ReflTransGen.head h h'

theorem Reaches.trans {s s' t : σ} (h : Reaches turn s s') (h' : Reaches turn s' t) :
    Reaches turn s t := ReflTransGen.trans h h'

/-- A machine that stops where it is reaches nothing else. -/
theorem Reaches.of_done {s t : σ} {r : ρ} (h : turn s = .done r) (ht : Reaches turn s t) : t = s := by
  rcases ReflTransGen.cases_head ht with rfl | ⟨s2, hnext, -⟩
  · rfl
  · rw [h] at hnext
    cases hnext

end Paths

/-! ## Code in its place -/

variable {ι : Type}

/-- `code` holds `block` from index `i` on. -/
def CodeAt (code : List ι) (i : ℕ) (block : List ι) : Prop :=
  ∀ k ins, block[k]? = some ins → code[i + k]? = some ins

namespace CodeAt

variable {code block block' : List ι} {i : ℕ} {ins : ι}

theorem self (code : List ι) : CodeAt code 0 code := by
  intro k ins h
  rwa [Nat.zero_add]

theorem head (h : CodeAt code i (ins :: block)) : code[i]? = some ins := h 0 ins rfl

theorem tail (h : CodeAt code i (ins :: block)) : CodeAt code (i + 1) block := by
  intro k ins' hk
  have hk' := h (k + 1) ins' hk
  rwa [Nat.add_assoc, Nat.add_comm 1 k]

theorem left (h : CodeAt code i (block ++ block')) : CodeAt code i block := by
  intro k ins' hk
  have hlt := (List.getElem?_eq_some_iff.mp hk).1
  exact h k ins' (by rwa [List.getElem?_append_left hlt])

theorem right (h : CodeAt code i (block ++ block')) : CodeAt code (i + block.length) block' := by
  intro k ins' hk
  have hk' := h (block.length + k) ins'
    (by rwa [List.getElem?_append_right (Nat.le_add_right _ _), Nat.add_sub_cancel_left])
  rwa [Nat.add_assoc]

end CodeAt

end RxNetCap.Machine
