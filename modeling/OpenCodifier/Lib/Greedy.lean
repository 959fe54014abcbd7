import Mathlib.Algebra.GroupWithZero.Nat
import Mathlib.Algebra.BigOperators.Group.List.Basic
import Mathlib.Data.List.Sort
set_option autoImplicit false

universe u v

namespace Greedy

variable {α : Type u} {β : Type v}

section Stable

variable {r before : α → α → Prop} [DecidableRel r] [Std.Total r] [IsTrans α r]

end Stable

section Budget

variable (cost : α → Nat) (budget : Nat)

/-- Items in order while they fit on top of what is used. -/
def within (used : Nat) : List α → List α
  | [] => []
  | a :: l => if budget < used + cost a then [] else a :: within (used + cost a) l

section Ranked

variable {before : α → α → Prop} [DecidableRel before] [DecidableEq α]

def costUpTo (before : α → α → Prop) [DecidableRel before] (l : List α) (s : α) : Nat :=
  ((l.filter fun t => t = s ∨ before t s).map cost).sum

variable (hasymm : ∀ a b, before a b → ¬ before b a)

include hasymm

end Ranked

end Budget

end Greedy
