/-
A bounded queue, and the ring of slots that keeps one.

The queue is a list, the oldest item first: `ask capacity stored call` is what a
queue with room for `capacity` items answers to one call, and `talk` what a
component answers to a whole list of them. A component whose every answer is the
queue's answers every list of calls as the queue does (`talk_follows`).

The ring has two positions that only grow. The item at position `p` lies in the
slot `p % capacity`, and the queue is what lies between the two positions
(`contents`). As long as they are at most `capacity` apart no two of these slots
are the same, so storing at the upper one appends (`contents_store`).

Programs round a capacity up to a power of two to find the slot with a mask.
They get there by copying every set bit to all the places below it: `Spread` is
what one such doubling keeps, and `spread_all` what five of them come to.
-/
import Mathlib.Algebra.Order.Ring.Int
import Mathlib.Data.List.Basic
import Mathlib.Data.Nat.Size
import Mathlib.Logic.Function.Basic
import Mathlib.Order.Nat
import Mathlib.Tactic.Common

set_option autoImplicit false

namespace RxNetCap.Ring

variable {α : Type}

/-! ## The queue, and components that talk -/

inductive Call (α : Type) where
  | push (x : α)
  | pop
  deriving DecidableEq, Repr

inductive Answer (α : Type) where
  | pushed (ok : Bool)
  | popped (x : Option α)
  deriving DecidableEq, Repr

/-- The bounded queue: a push fails exactly when `capacity` items are stored, a
pop exactly when none is, and gives the oldest one otherwise. -/
def ask (capacity : ℕ) (stored : List α) : Call α → List α × Answer α
  | .push x =>
    if stored.length < capacity then (stored ++ [x], .pushed true) else (stored, .pushed false)
  | .pop =>
    match stored with
    | [] => ([], .popped none)
    | x :: rest => (rest, .popped (some x))

theorem ask_room {capacity : ℕ} {stored : List α} (h : stored.length < capacity) (x : α) :
    ask capacity stored (.push x) = (stored ++ [x], .pushed true) := if_pos h

theorem ask_full {capacity : ℕ} {stored : List α} (h : ¬ stored.length < capacity) (x : α) :
    ask capacity stored (.push x) = (stored, .pushed false) := if_neg h

/-- What the queue answers to a list of calls, and what is stored then. -/
def asks (capacity : ℕ) : List α → List (Call α) → List α × List (Answer α)
  | stored, [] => (stored, [])
  | stored, call :: calls =>
    let (stored1, answer) := ask capacity stored call
    let (stored2, answers) := asks capacity stored1 calls
    (stored2, answer :: answers)

/-- What a component answers to a list of calls, where each of them can be
carried out. -/
def talk {σ ε ω : Type} (step : σ → ε → Option (σ × ω)) : σ → List ε → Option (σ × List ω)
  | s, [] => some (s, [])
  | s, e :: events => do
    let (s1, o) ← step s e
    let (s2, os) ← talk step s1 events
    some (s2, o :: os)

/-- A component that answers each call as the queue does answers every list of
calls as the queue does. The relation may count the calls that have been made. -/
theorem talk_follows {σ ε ω : Type} {step : σ → ε → Option (σ × ω)} {capacity limit : ℕ}
    {R : ℕ → σ → List α → Prop} {P : ε → Prop} {call : ε → Call α} {answer : ω → Answer α}
    (hstep : ∀ n s stored e, n + 1 < limit → R n s stored → P e → ∃ s' o, step s e = some (s', o) ∧
      R (n + 1) s' (ask capacity stored (call e)).1 ∧ answer o = (ask capacity stored (call e)).2)
    {events : List ε} {n : ℕ} {s : σ} {stored : List α} (hlimit : n + events.length < limit)
    (hR : R n s stored) (hP : ∀ e ∈ events, P e) : ∃ s' os, talk step s events = some (s', os) ∧
      R (n + events.length) s' (asks capacity stored (events.map call)).1 ∧
      os.map answer = (asks capacity stored (events.map call)).2 := by
  induction events generalizing n s stored with
  | nil => exact ⟨s, [], rfl, hR, rfl⟩
  | cons e events ih =>
    rw [List.length_cons] at hlimit
    obtain ⟨s1, o, h1, hR1, ho⟩ := hstep n s stored e (by omega) hR (hP e List.mem_cons_self)
    have hrest : ∀ e' ∈ events, P e' := fun e' he' => hP e' (List.mem_cons_of_mem _ he')
    obtain ⟨s2, os, h2, hR2, hos⟩ := ih (n := n + 1) (by omega) hR1 hrest
    refine ⟨s2, o :: os, ?_, ?_, ?_⟩
    · simp only [talk, h1, h2, Option.bind_eq_bind, Option.bind_some]
    · rw [List.length_cons, Nat.add_comm events.length, ← Nat.add_assoc]
      exact hR2
    · rw [List.map_cons, ho, hos]
      rfl

/-! ## The ring -/

/-- What lies in the slots between two positions, the lower one first. -/
def contents (capacity read write : ℕ) (slots : ℕ → α) : List α :=
  (List.range (write - read)).map fun i => slots ((read + i) % capacity)

variable {capacity read write : ℕ} {slots : ℕ → α}

@[simp] theorem contents_length : (contents capacity read write slots).length = write - read := by
  rw [contents, List.length_map, List.length_range]

/-- Two positions less than the capacity apart have different slots. -/
theorem slot_ne (capacity : ℕ) {p q : ℕ} (hlt : p < q) (hnear : q < p + capacity) : p % capacity ≠ q % capacity := by
  intro hsame
  have hdvd : capacity ∣ q - p := Nat.dvd_of_mod_eq_zero (Nat.sub_mod_eq_zero_of_mod_eq hsame.symm)
  have hle : capacity ≤ q - p := Nat.le_of_dvd (by omega) hdvd
  omega

/-- Storing at the upper position appends, as long as there is room. -/
theorem contents_store (hle : read ≤ write) (hroom : write - read < capacity) (x : α) :
    contents capacity read (write + 1) (Function.update slots (write % capacity) x) =
      contents capacity read write slots ++ [x] := by
  have hsucc : write + 1 - read = (write - read) + 1 := by omega
  unfold contents
  rw [hsucc, List.range_succ, List.map_append, List.map_singleton]
  congr 1
  · -- the other slots are not the one that is written
    refine List.map_congr_left fun i hi => ?_
    have hi := List.mem_range.mp hi
    have hlt : read + i < write := by omega
    have hne := slot_ne capacity hlt (by omega)
    rw [Function.update_of_ne hne]
  · rw [Nat.add_sub_cancel' hle, Function.update_self]

/-- The oldest item lies at the lower position. -/
theorem contents_next (hlt : read < write) :
    contents capacity read write slots =
      slots (read % capacity) :: contents capacity (read + 1) write slots := by
  have hsucc : write - read = (write - (read + 1)) + 1 := by omega
  unfold contents
  rw [hsucc, List.range_succ_eq_map, List.map_cons, List.map_map]
  congr 1
  refine List.map_congr_left fun i _ => ?_
  rw [Function.comp_apply, Nat.succ_eq_add_one, Nat.add_comm i, Nat.add_assoc]

/-! ## Capacities that are powers of two -/

/-- Place `i` of `m` is set if one of the `width` places of `n` from `i` up is. -/
def Spread (width n m : ℕ) : Prop := ∀ i, m.testBit i = true ↔ ∃ j < width, n.testBit (i + j) = true

theorem Spread.one (n : ℕ) : Spread 1 n n := by
  intro i
  constructor
  · intro h
    exact ⟨0, Nat.one_pos, h⟩
  · rintro ⟨j, hj, h⟩
    obtain rfl : j = 0 := by omega
    exact h

/-- Copying all bits down by as many places as they are spread over doubles that. -/
theorem Spread.double {width n m : ℕ} (h : Spread width n m) :
    Spread (width + width) n (m ||| m >>> width) := by
  intro i
  rw [Nat.testBit_or, Nat.testBit_shiftRight, Bool.or_eq_true, h i, h (width + i)]
  constructor
  · rintro (⟨j, hj, hbit⟩ | ⟨j, hj, hbit⟩)
    · exact ⟨j, by omega, hbit⟩
    · exact ⟨width + j, by omega, by rwa [← Nat.add_assoc, Nat.add_comm i]⟩
  · rintro ⟨j, hj, hbit⟩
    by_cases hlow : j < width
    · exact .inl ⟨j, hlow, hbit⟩
    · have hplace : width + i + (j - width) = i + j := by omega
      exact .inr ⟨j - width, by omega, by rwa [hplace]⟩

/-- A number spread over all its places is the power of two above it, less one. -/
theorem spread_all {width n m : ℕ} (hn : n < 2 ^ width) (h : Spread width n m) :
    m = 2 ^ n.size - 1 := by
  refine Nat.eq_of_testBit_eq fun i => ?_
  rw [Nat.testBit_two_pow_sub_one, Bool.eq_iff_iff, h i, decide_eq_true_iff, Nat.lt_size]
  constructor
  · rintro ⟨j, -, hbit⟩
    have hplaces : 2 ^ i ≤ 2 ^ (i + j) := Nat.pow_le_pow_right Nat.two_pos (Nat.le_add_right i j)
    exact le_trans hplaces (Nat.ge_two_pow_of_testBit hbit)
  · intro hle
    obtain ⟨j, hj, hbit⟩ := Nat.exists_ge_and_testBit_of_ge_two_pow hle
    have hplace : i + (j - i) = j := by omega
    have hpow : 2 ^ j < 2 ^ width := lt_of_le_of_lt (Nat.ge_two_pow_of_testBit hbit) hn
    have hwidth : j < width := (Nat.pow_lt_pow_iff_right Nat.one_lt_two).mp hpow
    exact ⟨j - i, by omega, by rwa [hplace]⟩

end RxNetCap.Ring
