import Mathlib.Tactic.FieldSimp
import Mathlib.Tactic.Linarith
import Mathlib.Tactic.Positivity
import OpenCodifier.Engine.Classifier
set_option autoImplicit false

namespace OpenCodifier

/-- What the readouts rely on of the arithmetic: an exponential function that is positive and
strictly increasing, and the square root of one. -/
structure ArithmeticLaws [RustStd] : Prop where
  exp_strictMono : StrictMono RustStd.exp
  exp_pos : ∀ x, 0 < RustStd.exp x
  sqrt_one : RustStd.sqrt 1 = 1

namespace Lexical

variable [RustStd]

def logistic (evidence : ℚ) : ℚ :=
  let top := max evidence 0
  RustStd.exp (evidence - top) / (RustStd.exp (evidence - top) + RustStd.exp (0 - top))

section Laws

variable (laws : ArithmeticLaws)
include laws

theorem softmax_pair (evidence : ℚ) :
    softmax [evidence, 0] = [logistic evidence, 1 - logistic evidence] := by
  have hfirst := laws.exp_pos (evidence - max evidence 0)
  have hsecond := laws.exp_pos (0 - max evidence 0)
  simp only [softmax, List.foldl_cons, List.foldl_nil, List.map_cons, List.map_nil, List.sum_cons,
    List.sum_nil, add_zero, logistic]
  rw [if_neg (by linarith)]
  congr 2
  field_simp
  ring

theorem logistic_unit (evidence : ℚ) : 0 ≤ logistic evidence ∧ logistic evidence ≤ 1 := by
  have hfirst := laws.exp_pos (evidence - max evidence 0)
  have hsecond := laws.exp_pos (0 - max evidence 0)
  rw [logistic]
  constructor
  · positivity
  · rw [div_le_one (by positivity)]
    linarith

theorem logistic_strictMono : StrictMono logistic := by
  intro a b hab
  have hmono := laws.exp_strictMono
  have hterm : ∀ x y, 0 < RustStd.exp x ∧ 0 < RustStd.exp y := fun x y =>
    ⟨laws.exp_pos x, laws.exp_pos y⟩
  rw [logistic, logistic, div_lt_div_iff₀]
  · rcases le_total b 0 with hb | hb
    · rw [max_eq_right hb, max_eq_right (hab.le.trans hb), sub_zero, sub_zero]
      have hlt := hmono hab
      have hzero := laws.exp_pos (0 - 0)
      nlinarith
    · rcases le_total a 0 with ha | ha
      · rw [max_eq_left hb, max_eq_right ha, sub_zero, sub_self]
        have hfirst : RustStd.exp a ≤ RustStd.exp 0 := hmono.monotone ha
        have hsecond : RustStd.exp (0 - b) ≤ RustStd.exp 0 := hmono.monotone (by linarith)
        have hstrict : RustStd.exp a < RustStd.exp 0 ∨ RustStd.exp (0 - b) < RustStd.exp 0 := by
          rcases ha.lt_or_eq with ha | ha
          · exact Or.inl (hmono ha)
          · exact Or.inr (hmono (by linarith))
        have ha_pos := laws.exp_pos a
        have hb_pos := laws.exp_pos (0 - b)
        rw [sub_zero]
        rcases hstrict with h | h <;> nlinarith
      · rw [max_eq_left hb, max_eq_left ha, sub_self, sub_self]
        have hlt : RustStd.exp (0 - b) < RustStd.exp (0 - a) := hmono (by linarith)
        have hzero := laws.exp_pos 0
        nlinarith
  · have := hterm (a - max a 0) (0 - max a 0)
    linarith
  · have := hterm (b - max b 0) (0 - max b 0)
    linarith

theorem fromPairs_pair {first second : String} (hne : first ≠ second) (evidence : ℚ) :
    ∃ d, Distribution.fromPairs ([first, second].zip (softmax [evidence, 0])) = .ok d ∧
      d.entries = [⟨first, logistic evidence⟩, ⟨second, 1 - logistic evidence⟩] := by
  obtain ⟨hnonneg, hle⟩ := logistic_unit laws evidence
  let d : Distribution :=
    { entries := [⟨first, logistic evidence⟩, ⟨second, 1 - logistic evidence⟩]
      entries_ne := by simp
      unique := by simpa using hne
      unit := by
        simp only [List.mem_cons, List.not_mem_nil, or_false, forall_eq_or_imp, forall_eq]
        exact ⟨⟨hnonneg, hle⟩, by linarith, by linarith⟩
      normalized := by simp [sumTolerance] }
  exact ⟨d, by rw [softmax_pair laws]; exact Distribution.new_self d, rfl⟩

end Laws

end Lexical

end OpenCodifier
