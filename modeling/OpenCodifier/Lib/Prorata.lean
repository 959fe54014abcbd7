import Mathlib.Algebra.BigOperators.Ring.List
import Mathlib.Algebra.Field.Basic
import Mathlib.Algebra.Order.BigOperators.Group.List
import Mathlib.Algebra.Ring.Nat
set_option autoImplicit false

universe u v

namespace Prorata

section Exact

variable {ι : Type u} {K : Type v} [Field K]

theorem sum_mul_div {l : List ι} {weight : ι → K} (h : (l.map weight).sum ≠ 0) (amount : K) :
    (l.map fun i => amount * (weight i / (l.map weight).sum)).sum = amount := by
  have hpart : ∀ i, amount * (weight i / (l.map weight).sum) =
      amount / (l.map weight).sum * weight i := by
    intro i
    rw [mul_div_assoc', div_mul_eq_mul_div]
  simp only [hpart, List.sum_map_mul_left]
  exact div_mul_cancel₀ amount h

theorem sum_div {l : List ι} {weight : ι → K} (h : (l.map weight).sum ≠ 0) :
    (l.map fun i => weight i / (l.map weight).sum).sum = 1 := by
  simpa only [one_mul] using sum_mul_div h 1

end Exact

section Floored

variable {ι : Type u} {l : List ι} {weight : ι → Nat}

theorem sum_div_add_mod (l : List ι) (weight : ι → Nat) (amount total : Nat) :
    total * (l.map fun i => amount * weight i / total).sum +
      (l.map fun i => amount * weight i % total).sum = amount * (l.map weight).sum := by
  induction l with
  | nil => simp
  | cons i l ih =>
    simp only [List.map_cons, List.sum_cons, Nat.mul_add]
    have hi := Nat.div_add_mod (amount * weight i) total
    omega

/-- Floored parts add up to the amount when every division goes out, and only then. -/
theorem sum_div_eq_iff {total : Nat} (htotal : (l.map weight).sum = total) (hpos : 0 < total)
    (amount : Nat) :
    (l.map fun i => amount * weight i / total).sum = amount ↔
      ∀ i ∈ l, total ∣ amount * weight i := by
  have hsum := sum_div_add_mod l weight amount total
  rw [htotal, Nat.mul_comm amount total] at hsum
  have hzero : (l.map fun i => amount * weight i % total).sum = 0 ↔
      ∀ i ∈ l, total ∣ amount * weight i := by
    simp [List.sum_eq_zero_iff_forall_eq_nat, Nat.dvd_iff_mod_eq_zero]
  rw [← hzero]
  constructor
  · intro h
    rw [h] at hsum
    omega
  · intro h
    rw [h, Nat.add_zero] at hsum
    exact Nat.eq_of_mul_eq_mul_left hpos hsum

end Floored

end Prorata
