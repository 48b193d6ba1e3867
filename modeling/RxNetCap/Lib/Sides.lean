/-
Two of a kind that take turns: the index of one is `i`, that of the other
`1 - i`.
-/
import Mathlib.Algebra.Order.Ring.Int
import Mathlib.Data.Fin.Basic
import Mathlib.Logic.Function.Basic

set_option autoImplicit false

namespace RxNetCap.Sides

/-- The sides are numbered modulo two. -/
scoped instance neZero : NeZero (1 + 1) := ⟨Nat.succ_ne_zero 1⟩

theorem other_ne (i : Fin 2) : 1 - i ≠ i := by
  revert i
  decide

theorem other_other (i : Fin 2) : 1 - (1 - i) = i := by
  revert i
  decide

variable {α : Type} (f : Fin 2 → α) (i : Fin 2) (a : α)

theorem update_same : Function.update f i a i = a := Function.update_self ..

/-- Writing one side leaves the other. -/
theorem update_other : Function.update f i a (1 - i) = f (1 - i) :=
  Function.update_of_ne (other_ne i) ..

theorem update_side : Function.update f (1 - i) a i = f i := Function.update_of_ne (other_ne i).symm ..

end RxNetCap.Sides
