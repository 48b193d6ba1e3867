/-
An **allocation ledger**: the record of what a program does with the blocks it
asks the allocator for, and the discipline that record has to keep.

A block is a number, handed out once and never again. The program's run leaves
a log of three kinds of event (a block is allocated, consulted, released), and
the log is *disciplined* when nothing is consulted or released that is not
live. Ownership is a multiset: `Owns h m` says that the log of `h` is
disciplined and that exactly the blocks of `m` are live, so a proof about a
program moves blocks in and out of `m` and never looks into the log.

A piece of a program is specified by `Transfers needs h h' A B`: it starts
owning the blocks of `A`, may consult the blocks of `needs`, and ends owning
the blocks of `B`, whatever else is owned. Transfers compose.

Nothing here names a program; the two facts a client wants at the end are
`Owns.disciplined` and `Owns.released_once`.
-/
import Mathlib.Data.Multiset.AddSub
import Mathlib.Data.Multiset.Dedup

set_option autoImplicit false

namespace RxNetCap.Ledger

/-! ## Events and logs -/

/-- One event in the life of a block. -/
inductive Event where
  | alloc (t : ℕ)
  | free (t : ℕ)
  | consult (t : ℕ)
  deriving DecidableEq, Repr

/-- The block an event is about. -/
def Event.token : Event → ℕ
  | .alloc t => t
  | .free t => t
  | .consult t => t

/-- A heap: the next unused block and the log so far, newest event first. -/
structure Heap where
  next : ℕ := 0
  log : List Event := []
  deriving DecidableEq, Repr

/-- A log is disciplined when every block is allocated before it is touched,
and neither consulted nor released once it has been released. -/
def Disciplined : List Event → Prop
  | [] => True
  | .alloc t :: older => (∀ e ∈ older, e.token ≠ t) ∧ Disciplined older
  | .free t :: older => (.alloc t ∈ older ∧ .free t ∉ older) ∧ Disciplined older
  | .consult t :: older => (.alloc t ∈ older ∧ .free t ∉ older) ∧ Disciplined older

instance Disciplined.decidable : (log : List Event) → Decidable (Disciplined log)
  | [] => inferInstanceAs (Decidable True)
  | .alloc _ :: older =>
    have := Disciplined.decidable older
    inferInstanceAs (Decidable (_ ∧ _))
  | .free _ :: older =>
    have := Disciplined.decidable older
    inferInstanceAs (Decidable (_ ∧ _))
  | .consult _ :: older =>
    have := Disciplined.decidable older
    inferInstanceAs (Decidable (_ ∧ _))

/-- Every block the log allocates is released in it exactly once. -/
def ReleasedOnce (log : List Event) : Prop :=
  ∀ t, .alloc t ∈ log → log.count (.free t) = 1

/-- A disciplined log never releases a block twice. -/
theorem Disciplined.count_free_le {log : List Event} (h : Disciplined log) (t : ℕ) :
    log.count (.free t) ≤ 1 := by
  induction log with
  | nil => simp
  | cons e older ih =>
    cases e with
    | alloc u => simpa using ih h.2
    | consult u => simpa using ih h.2
    | free u =>
      have hold := ih h.2
      by_cases hu : u = t
      · subst hu
        rw [List.count_cons_self, List.count_eq_zero_of_not_mem h.1.2]
      · have hne : Event.free u ≠ Event.free t := by simpa using hu
        rw [List.count_cons_of_ne hne]
        exact hold

/-! ## The allocator -/

/-- Ask for a block. -/
def Heap.malloc (h : Heap) : ℕ × Heap :=
  (h.next, { next := h.next + 1, log := .alloc h.next :: h.log })

/-- Release a block. -/
def Heap.free (h : Heap) (t : ℕ) : Heap := { h with log := .free t :: h.log }

/-- Read or write through a pointer to a block. -/
def Heap.consult (h : Heap) (t : ℕ) : Heap := { h with log := .consult t :: h.log }

/-- The blocks of `m`, each counted once, are exactly the live blocks of `h`,
and everything `h` logged was done to a live block. -/
structure Owns (h : Heap) (m : Multiset ℕ) : Prop where
  disciplined : Disciplined h.log
  fresh : ∀ e ∈ h.log, e.token < h.next
  nodup : m.Nodup
  live : ∀ t, t ∈ m ↔ .alloc t ∈ h.log ∧ .free t ∉ h.log

namespace Owns

variable {h : Heap} {m : Multiset ℕ}

/-- Nothing is owned before the first allocation. -/
theorem init : Owns {} 0 where
  disciplined := trivial
  fresh := by simp
  nodup := Multiset.nodup_zero
  live := by simp

/-- An allocation adds one block nobody owned before. -/
theorem malloc (ho : Owns h m) : Owns h.malloc.2 (h.malloc.1 ::ₘ m) where
  disciplined := ⟨fun e he => (ho.fresh e he).ne, ho.disciplined⟩
  fresh := by
    intro e he
    rcases List.mem_cons.mp he with rfl | he
    · exact Nat.lt_succ_self _
    · exact (ho.fresh e he).trans (Nat.lt_succ_self _)
  nodup := by
    refine Multiset.nodup_cons.mpr ⟨fun hmem => ?_, ho.nodup⟩
    exact (ho.fresh _ ((ho.live _).mp hmem).1).ne rfl
  live := by
    intro t
    simp only [Heap.malloc, Multiset.mem_cons, List.mem_cons, Event.alloc.injEq,
      reduceCtorEq, false_or, ho.live t]
    constructor
    · rintro (rfl | ⟨ha, hf⟩)
      · exact ⟨.inl rfl, fun hf => (ho.fresh _ hf).ne rfl⟩
      · exact ⟨.inr ha, hf⟩
    · rintro ⟨rfl | ha, hf⟩
      · exact .inl rfl
      · exact .inr ⟨ha, hf⟩

/-- A block can be consulted while it is owned. -/
theorem consult (ho : Owns h m) {t : ℕ} (ht : t ∈ m) : Owns (h.consult t) m where
  disciplined := ⟨(ho.live t).mp ht, ho.disciplined⟩
  fresh := by
    intro e he
    rcases List.mem_cons.mp he with rfl | he
    · exact ho.fresh (.alloc t) ((ho.live t).mp ht).1
    · exact ho.fresh e he
  nodup := ho.nodup
  live := by
    intro u
    simp only [Heap.consult, List.mem_cons, reduceCtorEq, false_or, ho.live u]

/-- Releasing an owned block takes it out of what is owned. -/
theorem free {t : ℕ} (ho : Owns h (t ::ₘ m)) : Owns (h.free t) m where
  disciplined := ⟨(ho.live t).mp (Multiset.mem_cons_self t m), ho.disciplined⟩
  fresh := by
    intro e he
    rcases List.mem_cons.mp he with rfl | he
    · exact ho.fresh (.alloc t) ((ho.live t).mp (Multiset.mem_cons_self t m)).1
    · exact ho.fresh e he
  nodup := (Multiset.nodup_cons.mp ho.nodup).2
  live := by
    intro u
    have hu := ho.live u
    have hnot : t ∉ m := (Multiset.nodup_cons.mp ho.nodup).1
    simp only [Heap.free, List.mem_cons, reduceCtorEq, false_or, Event.free.injEq, not_or]
    rw [Multiset.mem_cons] at hu
    constructor
    · intro hm
      have hne : u ≠ t := fun heq => hnot (heq ▸ hm)
      exact ⟨(hu.mp (.inr hm)).1, hne, (hu.mp (.inr hm)).2⟩
    · rintro ⟨ha, hne, hf⟩
      rcases hu.mpr ⟨ha, hf⟩ with rfl | hm
      · exact absurd rfl hne
      · exact hm

/-- When nothing is owned any more, every block was released exactly once. -/
theorem released_once (ho : Owns h 0) : ReleasedOnce h.log := by
  intro t ha
  have hfree : Event.free t ∈ h.log := by
    by_contra hf
    exact absurd ((ho.live t).mpr ⟨ha, hf⟩) (Multiset.notMem_zero t)
  have hpos : 0 < h.log.count (.free t) := List.count_pos_iff.mpr hfree
  have hle := ho.disciplined.count_free_le t
  omega

/-- Every block handed out so far is owned once, or was released once. -/
theorem one_owner (ho : Owns h m) {t : ℕ} (ha : .alloc t ∈ h.log) :
    m.count t + h.log.count (.free t) = 1 := by
  have hle := ho.disciplined.count_free_le t
  by_cases hf : Event.free t ∈ h.log
  · have hnot : t ∉ m := fun hm => ((ho.live t).mp hm).2 hf
    have hpos : 0 < h.log.count (.free t) := List.count_pos_iff.mpr hf
    rw [Multiset.count_eq_zero_of_notMem hnot]
    omega
  · have hm : t ∈ m := (ho.live t).mpr ⟨ha, hf⟩
    rw [Multiset.count_eq_one_of_mem ho.nodup hm, List.count_eq_zero_of_not_mem hf]

end Owns

/-! ## Releasing many blocks -/

/-- Release the blocks of a list, first to last. -/
def Heap.freeAll (h : Heap) (ts : List ℕ) : Heap := ts.foldl Heap.free h

theorem Owns.freeAll {ts : List ℕ} : ∀ {h : Heap} {m : Multiset ℕ},
    Owns h (ts + m) → Owns (h.freeAll ts) m := by
  induction ts with
  | nil => intro h m ho; simpa [Heap.freeAll] using ho
  | cons t ts ih =>
    intro h m ho
    rw [← Multiset.cons_coe, Multiset.cons_add] at ho
    exact ih ho.free

/-! ## Logs that go on -/

/-- A disciplined log was disciplined all along. -/
theorem Disciplined.of_suffix {older log : List Event} (h : Disciplined log)
    (hsuffix : older <:+ log) : Disciplined older := by
  obtain ⟨later, rfl⟩ := hsuffix
  induction later with
  | nil => exact h
  | cons e later ih => cases e <;> exact ih h.2

/-- Nothing that follows makes up for consulting a block after its release. -/
theorem not_disciplined_of_consult_after_free {log older : List Event} {t : ℕ}
    (hfree : .free t ∈ older) (hsuffix : .consult t :: older <:+ log) : ¬ Disciplined log := by
  intro h
  exact (h.of_suffix hsuffix).1.2 hfree

theorem Heap.suffix_free (h : Heap) (t : ℕ) : h.log <:+ (h.free t).log :=
  List.suffix_cons _ _

theorem Heap.suffix_consult (h : Heap) (t : ℕ) : h.log <:+ (h.consult t).log :=
  List.suffix_cons _ _

theorem Heap.suffix_freeAll (ts : List ℕ) : ∀ h : Heap, h.log <:+ (h.freeAll ts).log := by
  induction ts with
  | nil => intro h; exact List.suffix_rfl
  | cons t ts ih => intro h; exact (h.suffix_free t).trans (ih (h.free t))

/-! ## What a piece of a program does -/

/-- From `h` to `h'` the blocks of `A` are turned into the blocks of `B`; only
blocks of `A`, of `B` and of `needs` are touched. -/
def Transfers (needs : List ℕ) (h h' : Heap) (A B : Multiset ℕ) : Prop :=
  ∀ m : Multiset ℕ, (∀ t ∈ needs, t ∈ m) → Owns h (A + m) → Owns h' (B + m)

namespace Transfers

variable {needs : List ℕ} {h h' h'' : Heap} {A B C X : Multiset ℕ} {t : ℕ}

theorem refl : Transfers needs h h A A := fun _ _ ho => ho

theorem trans (h1 : Transfers needs h h' A B) (h2 : Transfers needs h' h'' B C) :
    Transfers needs h h'' A C :=
  fun m hm ho => h2 m hm (h1 m hm ho)

/-- What is not touched stays owned. -/
theorem frame (h1 : Transfers needs h h' A B) (X : Multiset ℕ) :
    Transfers needs h h' (A + X) (B + X) := by
  intro m hm ho
  rw [Multiset.add_assoc] at ho ⊢
  exact h1 (X + m) (fun t ht => Multiset.mem_add.mpr (.inr (hm t ht))) ho

theorem malloc : Transfers needs h h.malloc.2 A (h.malloc.1 ::ₘ A) := by
  intro m _ ho
  rw [Multiset.cons_add]
  exact ho.malloc

theorem free : Transfers needs h (h.free t) (t ::ₘ A) A := by
  intro m _ ho
  rw [Multiset.cons_add] at ho
  exact ho.free

theorem consult (ht : t ∈ needs) : Transfers needs h (h.consult t) A A := by
  intro m hm ho
  exact ho.consult (Multiset.mem_add.mpr (.inr (hm t ht)))

theorem consult_owned (ht : t ∈ A) : Transfers needs h (h.consult t) A A := by
  intro m _ ho
  exact ho.consult (Multiset.mem_add.mpr (.inl ht))

theorem freeAll {ts : List ℕ} : Transfers needs h (h.freeAll ts) (ts + A) A := by
  intro m _ ho
  rw [Multiset.add_assoc] at ho
  exact ho.freeAll

/-- A step may consult what its caller owns. -/
theorem lend {needs' : List ℕ} (h1 : Transfers needs' h h' A B) (needs : List ℕ)
    (X : Multiset ℕ) (hsub : ∀ t ∈ needs', t ∈ needs ∨ t ∈ X) : Transfers needs h h' (A + X) (B + X) := by
  intro m hm ho
  rw [Multiset.add_assoc] at ho ⊢
  refine h1 (X + m) (fun t ht => Multiset.mem_add.mpr ?_) ho
  rcases hsub t ht with hneed | hown
  · exact .inr (hm t hneed)
  · exact .inl hown

end Transfers

end RxNetCap.Ledger
