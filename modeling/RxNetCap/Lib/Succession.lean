/-
Which letter may stand behind which in the words of a language.

A relation says what may follow a letter, and some letters it leaves free. A
language is `Settled` when the letters of its words are admitted, its words
obey the relation, and each ends in a free letter. Nothing is owed at the seam
of two such words, so what is built from settled languages is settled; a letter
that is not free is settled together with what comes behind it
(`Settled.lead`), and there what counts is how those words begin (`Begins`).
-/
import Mathlib.Computability.Language
import Mathlib.Data.List.Chain

set_option autoImplicit false

namespace RxNetCap.Succession

open scoped Computability

variable {α : Type} {Good : α → Prop} {R : α → α → Prop} {Free : α → Prop} {L M : Language α}

/-! ## How words begin -/

/-- Every word has a first letter, of a kind. -/
def Begins (P : α → Prop) (L : Language α) : Prop := ∀ w ∈ L, ∃ x rest, w = x :: rest ∧ P x

variable {P Q : α → Prop}

theorem Begins.add (hL : Begins P L) (hM : Begins P M) : Begins P (L + M) :=
  fun w hw => ((Language.mem_add _ _ _).mp hw).elim (hL w) (hM w)

theorem Begins.mul (hL : Begins P L) : Begins P (L * M) := by
  intro w hw
  obtain ⟨a, ha, b, -, rfl⟩ := Language.mem_mul.mp hw
  obtain ⟨x, rest, rfl, hx⟩ := hL a ha
  exact ⟨x, rest ++ b, rfl, hx⟩

theorem Begins.mono (hL : Begins P L) (himp : ∀ x, P x → Q x) : Begins Q L := by
  intro w hw
  obtain ⟨x, rest, hx, hP⟩ := hL w hw
  exact ⟨x, rest, hx, himp x hP⟩

/-! ## Settled languages -/

/-- The letters of every word are admitted, the relation holds along it, and
its last letter is free. -/
structure Settled (Good : α → Prop) (R : α → α → Prop) (Free : α → Prop) (L : Language α) :
    Prop where
  good : ∀ w ∈ L, ∀ x ∈ w, Good x
  chain : ∀ w ∈ L, w.IsChain R
  last : ∀ w ∈ L, ∀ x ∈ w.getLast?, Free x

theorem settled_one : Settled Good R Free (1 : Language α) where
  good w hw := by
    rw [(Language.mem_one w).mp hw]
    exact nofun
  chain w hw := by
    rw [(Language.mem_one w).mp hw]
    exact .nil
  last w hw := by
    rw [(Language.mem_one w).mp hw]
    exact nofun

/-- Words of one letter. -/
theorem settled_letters (h : ∀ w ∈ L, ∃ x, w = [x] ∧ Good x ∧ Free x) : Settled Good R Free L where
  good w hw y hy := by
    obtain ⟨x, rfl, hx, -⟩ := h w hw
    exact List.mem_singleton.mp hy ▸ hx
  chain w hw := by
    obtain ⟨x, rfl, -⟩ := h w hw
    exact .singleton x
  last w hw y hy := by
    obtain ⟨x, rfl, -, hx⟩ := h w hw
    cases hy
    exact hx

theorem Settled.add (hL : Settled Good R Free L) (hM : Settled Good R Free M) :
    Settled Good R Free (L + M) where
  good w hw := ((Language.mem_add _ _ _).mp hw).elim (hL.good w) (hM.good w)
  chain w hw := ((Language.mem_add _ _ _).mp hw).elim (hL.chain w) (hM.chain w)
  last w hw := ((Language.mem_add _ _ _).mp hw).elim (hL.last w) (hM.last w)

theorem Settled.mul (hfree : ∀ x y, Free x → R x y) (hL : Settled Good R Free L)
    (hM : Settled Good R Free M) : Settled Good R Free (L * M) where
  good w hw x hx := by
    obtain ⟨a, ha, b, hb, rfl⟩ := Language.mem_mul.mp hw
    exact (List.mem_append.mp hx).elim (hL.good a ha x) (hM.good b hb x)
  chain w hw := by
    obtain ⟨a, ha, b, hb, rfl⟩ := Language.mem_mul.mp hw
    refine List.isChain_append.mpr ⟨hL.chain a ha, hM.chain b hb, fun x hx y _ => ?_⟩
    exact hfree x y (hL.last a ha x hx)
  last w hw x hx := by
    obtain ⟨a, ha, b, hb, rfl⟩ := Language.mem_mul.mp hw
    rw [List.getLast?_append] at hx
    rcases hlast : b.getLast? with _ | y
    · rw [hlast, Option.none_or] at hx
      exact hL.last a ha x hx
    · rw [hlast, Option.some_or] at hx
      cases hx
      exact hM.last b hb _ hlast

/-- Words one behind the other. -/
theorem Settled.flatten (hfree : ∀ x y, Free x → R x y) (hL : Settled Good R Free L)
    (ws : List (List α)) (hws : ∀ w ∈ ws, w ∈ L) :
    Settled Good R Free ({ws.flatten} : Language α) := by
  induction ws with
  | nil => exact settled_one
  | cons w ws ih =>
    have hrest := ih fun w' hw' => hws w' (List.mem_cons_of_mem _ hw')
    have hmem : w ++ ws.flatten ∈ L * ({ws.flatten} : Language α) :=
      Language.append_mem_mul (hws w List.mem_cons_self) rfl
    have hboth := hL.mul hfree hrest
    refine ⟨fun w' hw' => ?_, fun w' hw' => ?_, fun w' hw' => ?_⟩
    all_goals rw [show w' = w ++ ws.flatten from hw']
    · exact hboth.good _ hmem
    · exact hboth.chain _ hmem
    · exact hboth.last _ hmem

theorem Settled.kstar (hfree : ∀ x y, Free x → R x y) (hL : Settled Good R Free L) :
    Settled Good R Free L∗ := by
  have hword : ∀ w ∈ L∗, Settled Good R Free ({w} : Language α) := by
    intro w hw
    obtain ⟨ws, rfl, hws⟩ := Language.mem_kstar.mp hw
    exact hL.flatten hfree ws hws
  exact ⟨fun w hw => (hword w hw).good w rfl, fun w hw => (hword w hw).chain w rfl,
    fun w hw => (hword w hw).last w rfl⟩

/-- A letter in front, with what may stand behind it. -/
theorem Settled.lead (hL : ∀ w ∈ L, ∃ x, w = [x] ∧ Good x ∧ ∀ y, P y → R x y) (hbegins : Begins P M)
    (hM : Settled Good R Free M) : Settled Good R Free (L * M) where
  good w hw y hy := by
    obtain ⟨a, ha, b, hb, rfl⟩ := Language.mem_mul.mp hw
    obtain ⟨x, rfl, hx, -⟩ := hL a ha
    rcases List.mem_cons.mp hy with rfl | hy
    · exact hx
    · exact hM.good b hb y hy
  chain w hw := by
    obtain ⟨a, ha, b, hb, rfl⟩ := Language.mem_mul.mp hw
    obtain ⟨x, rfl, -, hnext⟩ := hL a ha
    obtain ⟨y, rest, rfl, hy⟩ := hbegins b hb
    exact .cons_cons (hnext y hy) (hM.chain _ hb)
  last w hw z hz := by
    obtain ⟨a, ha, b, hb, rfl⟩ := Language.mem_mul.mp hw
    obtain ⟨x, rfl, -⟩ := hL a ha
    obtain ⟨y, rest, rfl, -⟩ := hbegins b hb
    rw [List.singleton_append, List.getLast?_cons_cons] at hz
    exact hM.last _ hb z hz

end RxNetCap.Succession
