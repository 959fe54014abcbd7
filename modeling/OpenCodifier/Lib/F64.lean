import Mathlib.Algebra.Order.Monoid.Unbundled.WithTop
import Mathlib.Algebra.Order.Ring.Unbundled.Rat
set_option autoImplicit false

/-- Floating point numbers by what comparisons see of them: exact finite values, two infinities,
and NaN, which compares with nothing. -/
inductive F64 where
  | nan
  | negInf
  | finite (value : ℚ)
  | inf
  deriving DecidableEq

namespace F64

def isFinite : F64 → Bool
  | finite _ => true
  | _ => false

def le : F64 → F64 → Bool
  | nan, _ => false
  | _, nan => false
  | negInf, _ => true
  | _, inf => true
  | finite a, finite b => decide (a ≤ b)
  | _, _ => false

def lt : F64 → F64 → Bool
  | nan, _ => false
  | _, nan => false
  | negInf, b => decide (b ≠ negInf)
  | a, inf => decide (a ≠ inf)
  | finite a, finite b => decide (a < b)
  | _, _ => false

def toRat : F64 → ℚ
  | finite value => value
  | _ => 0

def shift (x : F64) (d : ℚ) : F64 :=
  match x with
  | finite a => finite (a + d)
  | _ => x

/-- The numbers that have no negative infinity and no NaN. -/
def ofTop : WithTop ℚ → F64
  | none => inf
  | some value => finite value

variable {a b : ℚ} {x : F64}

@[simp] theorem isFinite_finite : (finite a).isFinite = true := rfl

@[simp] theorem le_finite : le (finite a) (finite b) = decide (a ≤ b) := rfl

@[simp] theorem lt_finite : lt (finite a) (finite b) = decide (a < b) := rfl

@[simp] theorem ofTop_coe : ofTop (a : WithTop ℚ) = finite a := rfl

theorem isFinite_iff : x.isFinite = true ↔ ∃ value, x = finite value := by
  cases x <;> simp [isFinite]

theorem isFinite_and_pos_iff : (!x.isFinite || le x (finite 0)) = false ↔
    ∃ value, x = finite value ∧ 0 < value := by
  cases x with
  | finite value => simp
  | _ => simp [isFinite]

end F64
