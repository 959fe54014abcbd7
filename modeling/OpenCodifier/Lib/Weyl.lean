import Mathlib.Algebra.Group.Basic
import Mathlib.Algebra.Module.Basic
import Mathlib.Data.BitVec
import Mathlib.Tactic.Abel
import Mathlib.Tactic.Ring
set_option autoImplicit false

namespace Weyl

section Group

variable {G A : Type} [AddCommGroup G] (step : G) (mix : G → A)

def stream (state : G) (n : Nat) : A := mix (state + (n + 1) • step)

/-- One stream is the other without some of its first outputs. -/
def ShiftOf (f g : Nat → A) (k : Nat) : Prop := ∀ n, f n = g (n + k)

/-- No stream is the other without fewer than `bound` of its first outputs. -/
def Disjoint (bound : Nat) (f g : Nat → A) : Prop :=
  ∀ k < bound, ¬ ShiftOf f g k ∧ ¬ ShiftOf g f k

variable {mix}

theorem shiftOf_stream_iff (hmix : Function.Injective mix) (s t : G) (k : Nat) :
    ShiftOf (stream step mix t) (stream step mix s) k ↔ t - s = k • step := by
  have hstate : ∀ n : Nat, s + (n + k + 1) • step = s + k • step + (n + 1) • step := by
    intro n
    rw [add_nsmul, add_nsmul, add_nsmul]
    abel
  constructor
  · intro h
    have hfirst := hmix (h 0)
    rw [hstate] at hfirst
    rw [add_right_cancel hfirst]
    abel
  · intro h n
    rw [stream, stream, hstate, ← h, add_sub_cancel]

theorem disjoint_stream_iff (hmix : Function.Injective mix) (bound : Nat) (s t : G) :
    Disjoint bound (stream step mix s) (stream step mix t) ↔
      ∀ k < bound, t - s ≠ k • step ∧ s - t ≠ k • step := by
  simp only [Disjoint, shiftOf_stream_iff step hmix, and_comm]

end Group

section Words

variable {w : Nat}

/-- A word is recovered from its sum with its own upper bits, from the top bit down. -/
theorem xorShift_injective {k : Nat} (hk : 0 < k) :
    Function.Injective fun z : BitVec w => z ^^^ (z >>> k) := by
  intro y z h
  have hbit : ∀ i, (y.getLsbD i ^^ y.getLsbD (k + i)) = (z.getLsbD i ^^ z.getLsbD (k + i)) := by
    intro i
    have hi := congrArg (fun v : BitVec w => v.getLsbD i) h
    simpa using hi
  have hall : ∀ d i, w ≤ i + d → y.getLsbD i = z.getLsbD i := by
    intro d
    induction d with
    | zero =>
      intro i hi
      rw [BitVec.getLsbD_of_ge y i hi, BitVec.getLsbD_of_ge z i hi]
    | succ d ih =>
      intro i hi
      have hupper := ih (k + i) (by omega)
      have hsum := hbit i
      rw [hupper] at hsum
      simpa using hsum
  exact BitVec.eq_of_getLsbD_eq fun i hi => hall w i (by omega)

theorem mul_injective {c inverse : BitVec w} (h : c * inverse = 1) :
    Function.Injective fun z : BitVec w => z * c := by
  intro y z hyz
  have hback : y * c * inverse = z * c * inverse := congrArg (· * inverse) hyz
  rwa [mul_assoc, mul_assoc, h, mul_one, mul_one] at hback

/-- How many steps lead from a state to another, when the step has an inverse. -/
theorem eq_nsmul_iff {step inverse : BitVec w} (h : step * inverse = 1) (distance : BitVec w)
    (k : Nat) : distance = k • step ↔ distance * inverse = BitVec.ofNat w k := by
  rw [nsmul_eq_mul, BitVec.natCast_eq_ofNat]
  constructor
  · rintro rfl
    rw [mul_assoc, h, mul_one]
  · intro hk
    rw [← hk, mul_assoc, mul_comm inverse, h, mul_one]

theorem exists_ofNat_iff {bound : Nat} (hbound : bound ≤ 2 ^ w) (v : BitVec w) :
    (∃ k < bound, v = BitVec.ofNat w k) ↔ v.toNat < bound := by
  constructor
  · rintro ⟨k, hk, rfl⟩
    rw [BitVec.toNat_ofNat, Nat.mod_eq_of_lt (by omega)]
    exact hk
  · intro hv
    exact ⟨v.toNat, hv, by rw [BitVec.ofNat_toNat, BitVec.setWidth_eq]⟩

/-- Streams of words are disjoint exactly when they start many steps apart in both directions. -/
theorem disjoint_words_iff {A : Type} {mix : BitVec w → A} (hmix : Function.Injective mix)
    {step inverse : BitVec w} (h : step * inverse = 1) {bound : Nat} (hbound : bound ≤ 2 ^ w)
    (s t : BitVec w) :
    Disjoint bound (stream step mix s) (stream step mix t) ↔
      bound ≤ ((t - s) * inverse).toNat ∧ bound ≤ (-((t - s) * inverse)).toNat := by
  have hneg : (s - t) * inverse = -((t - s) * inverse) := by ring
  rw [disjoint_stream_iff step hmix]
  simp only [ne_eq, eq_nsmul_iff h, hneg]
  rw [← not_lt, ← not_lt, ← exists_ofNat_iff hbound, ← exists_ofNat_iff hbound]
  constructor
  · intro hall
    exact ⟨fun ⟨k, hk, he⟩ => (hall k hk).1 he, fun ⟨k, hk, he⟩ => (hall k hk).2 he⟩
  · rintro ⟨hfirst, hsecond⟩ k hk
    exact ⟨fun he => hfirst ⟨k, hk, he⟩, fun he => hsecond ⟨k, hk, he⟩⟩

end Words

end Weyl
