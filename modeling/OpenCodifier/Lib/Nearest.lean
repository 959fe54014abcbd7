import Mathlib.Data.Int.Log
import Mathlib.Data.Rat.Floor
import Mathlib.Tactic.Linarith
set_option autoImplicit false

namespace Nearest

/-- The nearest integer, and the even one of two that are equally near. -/
def toInt (x : ℚ) : Int :=
  if x - ⌊x⌋ < 1 / 2 then ⌊x⌋ else if 1 / 2 < x - ⌊x⌋ then ⌊x⌋ + 1 else ⌊x⌋ + ⌊x⌋ % 2

/-- The distance of the floating point numbers around one whose leading digit is followed by some
more. -/
def spacing (digits : Nat) (x : ℚ) : ℚ := 2 ^ (Int.log 2 |x| - digits)

def round (digits : Nat) (x : ℚ) : ℚ := toInt (x / spacing digits x) * spacing digits x

section Integers

variable {x : ℚ} {n : Int}

@[simp] theorem toInt_intCast (n : Int) : toInt n = n := by simp [toInt]

theorem floor_le_toInt (x : ℚ) : ⌊x⌋ ≤ toInt x := by
  unfold toInt
  split_ifs <;> omega

theorem toInt_le_ceil (x : ℚ) : toInt x ≤ ⌈x⌉ := by
  by_cases hx : (⌊x⌋ : ℚ) = x
  · rw [← hx, toInt_intCast, Int.ceil_intCast]
  · have hlt : (⌊x⌋ : ℚ) < x := lt_of_le_of_ne (Int.floor_le x) hx
    have hceil : ⌊x⌋ + 1 ≤ ⌈x⌉ := Int.add_one_le_iff.mpr (Int.lt_ceil.mpr hlt)
    unfold toInt
    split_ifs <;> omega

theorem le_toInt (h : (n : ℚ) ≤ x) : n ≤ toInt x := (Int.le_floor.mpr h).trans (floor_le_toInt x)

theorem toInt_le (h : x ≤ n) : toInt x ≤ n := (toInt_le_ceil x).trans (Int.ceil_le.mpr h)

end Integers

section Digits

variable {digits : Nat} {x : ℚ}

theorem spacing_pos (digits : Nat) (x : ℚ) : 0 < spacing digits x := zpow_pos (by norm_num) _

@[simp] theorem round_zero (digits : Nat) : round digits 0 = 0 := by simp [round, toInt]

theorem digits_mul_spacing (digits : Nat) (h : 0 < x) :
    ((2 ^ digits : Int) : ℚ) * spacing digits x = 2 ^ Int.log 2 x := by
  rw [spacing, abs_of_pos h, Int.cast_pow, Int.cast_ofNat, ← zpow_natCast,
    ← zpow_add₀ two_ne_zero]
  congr 1
  omega

theorem leading_le_round (digits : Nat) (h : 0 < x) : 2 ^ Int.log 2 x ≤ round digits x := by
  have hpos := spacing_pos digits x
  have hscaled : ((2 ^ digits : Int) : ℚ) ≤ x / spacing digits x := by
    rw [le_div_iff₀ hpos, digits_mul_spacing digits h]
    exact_mod_cast Int.zpow_log_le_self (b := 2) (by norm_num) h
  rw [← digits_mul_spacing digits h, round]
  exact mul_le_mul_of_nonneg_right (by exact_mod_cast le_toInt hscaled) hpos.le

theorem round_le_next (digits : Nat) (h : 0 < x) : round digits x ≤ 2 ^ (Int.log 2 x + 1) := by
  have hpos := spacing_pos digits x
  have hnext : (2 : ℚ) ^ (Int.log 2 x + 1) = ((2 * 2 ^ digits : Int) : ℚ) * spacing digits x := by
    rw [Int.cast_mul, mul_assoc, digits_mul_spacing digits h, zpow_add_one₀ two_ne_zero, mul_comm]
    norm_num
  have hscaled : x / spacing digits x ≤ ((2 * 2 ^ digits : Int) : ℚ) := by
    rw [div_le_iff₀ hpos, ← hnext]
    exact_mod_cast (Int.lt_zpow_succ_log_self (b := 2) (by norm_num) x).le
  rw [hnext, round]
  exact mul_le_mul_of_nonneg_right (by exact_mod_cast toInt_le hscaled) hpos.le

theorem round_zpow (digits : Nat) (e : Int) : round digits (2 ^ e) = 2 ^ e := by
  have hpos : (0 : ℚ) < 2 ^ e := zpow_pos (by norm_num) e
  have hlog : Int.log 2 ((2 : ℚ) ^ e) = e := by
    exact_mod_cast Int.log_zpow (R := ℚ) (b := 2) (by norm_num) e
  have hsame := digits_mul_spacing digits hpos
  rw [hlog] at hsame
  have hscaled : (2 : ℚ) ^ e / spacing digits (2 ^ e) = ((2 ^ digits : Int) : ℚ) := by
    rw [div_eq_iff (spacing_pos _ _).ne', hsame]
  rw [round, hscaled, toInt_intCast, hsame]

theorem zpow_le_round {e : Int} (h : 2 ^ e ≤ x) : 2 ^ e ≤ round digits x := by
  have hpos : 0 < x := (zpow_pos (by norm_num) e).trans_le h
  have hlog : e ≤ Int.log 2 x :=
    (Int.zpow_le_iff_le_log (by norm_num) hpos).mp (by exact_mod_cast h)
  exact (zpow_le_zpow_right₀ (by norm_num) hlog).trans (leading_le_round digits hpos)

theorem round_nonneg (h : 0 ≤ x) : 0 ≤ round digits x := by
  rcases h.eq_or_lt with rfl | hpos
  · rw [round_zero]
  · exact (zpow_pos (by norm_num) _).le.trans (leading_le_round digits hpos)

theorem round_le_zpow {e : Int} (h : 0 ≤ x) (hle : x ≤ 2 ^ e) : round digits x ≤ 2 ^ e := by
  rcases h.eq_or_lt with rfl | hpos
  · rw [round_zero]
    exact hle
  rcases hle.eq_or_lt with rfl | hlt
  · rw [round_zpow]
  · have hlog : Int.log 2 x < e :=
      (Int.lt_zpow_iff_log_lt (by norm_num) hpos).mp (by exact_mod_cast hlt)
    exact (round_le_next digits hpos).trans (zpow_le_zpow_right₀ (by norm_num) hlog)

end Digits

end Nearest

namespace F64

/-- The nearest number of 53 binary digits, which is the nearest double of a number that no double
is far from. -/
def nearest (x : ℚ) : ℚ := Nearest.round 52 x

variable {x bound : ℚ} (e : Int)

theorem nearest_nonneg (h : 0 ≤ x) : 0 ≤ nearest x := Nearest.round_nonneg h

theorem nearest_le (hbound : bound = 2 ^ e) (h : 0 ≤ x) (hle : x ≤ bound) : nearest x ≤ bound := by
  subst hbound
  exact Nearest.round_le_zpow h hle

theorem le_nearest (hbound : bound = 2 ^ e) (hle : bound ≤ x) : bound ≤ nearest x := by
  subst hbound
  exact Nearest.zpow_le_round hle

end F64
