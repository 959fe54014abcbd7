import OpenCodifier.Engine.Sample
import OpenCodifier.Schema.JevResponse
set_option autoImplicit false

namespace OpenCodifier

/-- A report that is no less sure in any respect is accepted where the other is. -/
theorem ConfidenceReport.outcomeFor_accept_mono {r s : ConfidenceReport} {p : DecisionPolicy}
    (hc : r.calibratedConfidence ≤ s.calibratedConfidence) (hm : r.margin ≤ s.margin)
    (he : s.entropy ≤ r.entropy) (ho : s.oodScore = r.oodScore)
    (h : r.outcomeFor p = .accept) : s.outcomeFor p = .accept := by
  unfold outcomeFor at h
  split at h
  · cases h
  · rename_i habstain
    split at h
    · cases h
    · rename_i hescalate
      split at h
      · rename_i haccept
        simp only [DecisionPolicy.uncertaintyGateTrips, Bool.and_eq_true, Bool.not_eq_true',
          Bool.or_eq_false_iff, decide_eq_true_eq, decide_eq_false_iff_not] at haccept
        obtain ⟨⟨hmin, hrisk⟩, ⟨hentropy, hmargin⟩, hood⟩ := haccept
        have hs : ¬ s.calibratedConfidence < p.abstainBelow :=
          fun hlt => habstain (hc.trans_lt hlt)
        have hs' : ¬ (p.escalateBelow.any fun t => s.calibratedConfidence < t) = true := by
          cases ht : p.escalateBelow with
          | none => simp
          | some t =>
            simp only [ht, Option.any_some, decide_eq_true_eq] at hescalate ⊢
            exact fun hlt => hescalate (hc.trans_lt hlt)
        have hlow : ¬ p.entropyCeiling ≤ (s.entropy : WithTop ℚ) :=
          fun hle => hentropy (hle.trans (WithTop.coe_le_coe.mpr he))
        have hwide : ¬ s.margin < p.minMargin := fun hlt => hmargin (hm.trans_lt hlt)
        rw [outcomeFor, if_neg hs, if_neg hs', if_pos]
        simp [DecisionPolicy.uncertaintyGateTrips, hmin.trans hc, hrisk, hlow, hwide, ho, hood]
      · cases h

namespace Distribution

def twoPoint (p : ℚ) : CoreResult Distribution := fromPairs [("true", p), ("false", 1 - p)]

theorem twoPoint_entries {p : ℚ} {d : Distribution} (h : twoPoint p = .ok d) :
    d.entries = [⟨"true", p⟩, ⟨"false", 1 - p⟩] :=
  new_entries h

theorem twoPoint_ok {p : ℚ} (h : 0 ≤ p ∧ p ≤ 1) : ∃ d, twoPoint p = .ok d := by
  let d : Distribution := {
    entries := [⟨"true", p⟩, ⟨"false", 1 - p⟩]
    entries_ne := by simp
    unique := by simp
    unit := by
      simp only [List.mem_cons, List.not_mem_nil, or_false]
      rintro e (rfl | rfl)
      · exact h
      · exact ⟨sub_nonneg.mpr h.2, sub_le_self 1 h.1⟩
    normalized := by simp [sumTolerance] }
  exact ⟨d, new_self d⟩

theorem twoPoint_margin {p : ℚ} {d : Distribution} (h : twoPoint p = .ok d) :
    d.margin = |2 * p - 1| := by
  rw [margin, twoPoint_entries h]
  by_cases hp : p < 1 - p
  · have hcast : (p : WithBot ℚ) < ((1 - p : ℚ) : WithBot ℚ) := WithBot.coe_lt_coe.mpr hp
    have habs : |2 * p - 1| = 1 - p - p := by
      rw [abs_of_nonpos (by linarith)]
      ring
    simp only [List.foldl_cons, List.foldl_nil, marginStep, WithBot.bot_lt_coe, if_true,
      if_pos hcast]
    exact habs.symm
  · have hcast : ¬ (p : WithBot ℚ) < ((1 - p : ℚ) : WithBot ℚ) :=
      fun hlt => hp (WithBot.coe_lt_coe.mp hlt)
    have habs : |2 * p - 1| = p - (1 - p) := by
      rw [abs_of_nonneg (by linarith)]
      ring
    simp only [List.foldl_cons, List.foldl_nil, marginStep, WithBot.bot_lt_coe, if_true,
      if_neg hcast]
    exact habs.symm

def bits [RustStd] (p : ℚ) : ℚ :=
  entropyStep (entropyStep 0 ⟨"true", p⟩) ⟨"false", 1 - p⟩

theorem twoPoint_entropy [RustStd] {p : ℚ} {d : Distribution} (h : twoPoint p = .ok d) :
    d.entropy = bits p := by
  rw [entropy, twoPoint_entries h]
  rfl

end Distribution

namespace Jev

section Report

theorem worst_eq (l : List (ℚ × ℚ × ℚ)) (start : ℚ × ℚ × ℚ) :
    l.foldl (fun acc n =>
      (if n.1 < acc.1 then n.1 else acc.1, if n.2.1 < acc.2.1 then n.2.1 else acc.2.1,
        if acc.2.2 < n.2.2 then n.2.2 else acc.2.2)) start =
      ((l.map fun n => n.1).foldl (fun x y => if y < x then y else x) start.1,
        (l.map fun n => n.2.1).foldl (fun x y => if y < x then y else x) start.2.1,
        (l.map fun n => n.2.2).foldl (fun x y => if x < y then y else x) start.2.2) := by
  induction l generalizing start with
  | nil => rfl
  | cons n l ih => rw [List.foldl_cons, ih]; rfl

variable [RustStd] {answers : List DecisionAnswer} {bound : ℚ}

theorem top_le_iff : (reportFor answers).topProbability ≤ bound ↔
    1 ≤ bound ∨ ∃ a ∈ answers, (answerNumbers a).1 ≤ bound := by
  rw [reportFor, worst_eq, Extremum.foldl_least_le_iff]
  simp

theorem margin_le_iff : (reportFor answers).margin ≤ bound ↔
    1 ≤ bound ∨ ∃ a ∈ answers, (answerNumbers a).2.1 ≤ bound := by
  rw [reportFor, worst_eq, Extremum.foldl_least_le_iff]
  simp

theorem le_entropy_iff : bound ≤ (reportFor answers).entropy ↔
    bound ≤ 0 ∨ ∃ a ∈ answers, bound ≤ (answerNumbers a).2.2 := by
  rw [reportFor, worst_eq, Extremum.le_foldl_largest_iff]
  simp

theorem accepted_alone {policy : DecisionPolicy} {a : DecisionAnswer} (ha : a ∈ answers)
    (h : (reportFor answers).outcomeFor policy = .accept) :
    (reportFor [a]).outcomeFor policy = .accept := by
  have htop : (reportFor answers).topProbability ≤ (reportFor [a]).topProbability := by
    rw [top_le_iff]
    rcases top_le_iff.mp (le_refl (reportFor [a]).topProbability) with hone | ⟨b, hb, hle⟩
    · exact Or.inl hone
    · exact Or.inr ⟨b, List.mem_singleton.mp hb ▸ ha, hle⟩
  have hmargin : (reportFor answers).margin ≤ (reportFor [a]).margin := by
    rw [margin_le_iff]
    rcases margin_le_iff.mp (le_refl (reportFor [a]).margin) with hone | ⟨b, hb, hle⟩
    · exact Or.inl hone
    · exact Or.inr ⟨b, List.mem_singleton.mp hb ▸ ha, hle⟩
  have hentropy : (reportFor [a]).entropy ≤ (reportFor answers).entropy := by
    rw [le_entropy_iff]
    rcases le_entropy_iff.mp (le_refl (reportFor [a]).entropy) with hzero | ⟨b, hb, hle⟩
    · exact Or.inl hzero
    · exact Or.inr ⟨b, List.mem_singleton.mp hb ▸ ha, hle⟩
  exact ConfidenceReport.outcomeFor_accept_mono htop hmargin hentropy rfl h

end Report

section Conservative

theorem one_le_abs_iff {p : ℚ} (h : 0 ≤ p ∧ p ≤ 1) : 1 ≤ |2 * p - 1| ↔ p = 0 ∨ p = 1 := by
  rw [le_abs]
  constructor
  · rintro (hle | hle)
    · exact Or.inr (by linarith)
    · exact Or.inl (by linarith)
  · rintro (rfl | rfl) <;> norm_num

variable [RustStd]

/-- The distribution an answer stands for; a boolean one stands for its value and the other. -/
def ownDistribution : DecisionAnswer → Option Distribution
  | .choice _ _ d _ => some d
  | .score _ _ _ d _ => some d
  | .boolean _ _ p _ => (Distribution.twoPoint p).toOption

/-- No answer is surer in the report than in its own distribution, and what the report lets pass,
each answer lets pass alone. -/
structure Conservative (answers : List DecisionAnswer) : Prop where
  numbers : ∀ a ∈ answers, ∀ d ∈ ownDistribution a,
    (reportFor answers).topProbability ≤ d.top.probability ∧
      (reportFor answers).margin ≤ d.margin ∧ d.entropy ≤ (reportFor answers).entropy
  accepted : ∀ policy, (reportFor answers).outcomeFor policy = .accept →
    ∀ a ∈ answers, (reportFor [a]).outcomeFor policy = .accept

/-- Some answer of the list is as unsure as a boolean one of a mass. -/
structure Backed (answers : List DecisionAnswer) (p : ℚ) : Prop where
  margin : p = 0 ∨ p = 1 ∨ ∃ b ∈ answers, (answerNumbers b).2.1 ≤ |2 * p - 1|
  entropy : Distribution.bits p ≤ 0 ∨ ∃ b ∈ answers, Distribution.bits p ≤ (answerNumbers b).2.2

/-- Another answer backs every boolean one. -/
def AllBacked (answers : List DecisionAnswer) : Prop :=
  ∀ id value p confidence, DecisionAnswer.boolean id value p confidence ∈ answers →
    0 ≤ p → p ≤ 1 → Backed answers p

theorem Conservative.allBacked {answers : List DecisionAnswer} (h : Conservative answers) :
    AllBacked answers := by
  intro id value p confidence ha hlow hhigh
  obtain ⟨d, hd⟩ := Distribution.twoPoint_ok ⟨hlow, hhigh⟩
  obtain ⟨-, hmargin, hentropy⟩ := h.numbers _ ha d (Result.toOption_eq_some.mpr hd)
  rw [Distribution.twoPoint_margin hd, margin_le_iff, one_le_abs_iff ⟨hlow, hhigh⟩,
    or_assoc] at hmargin
  rw [Distribution.twoPoint_entropy hd, le_entropy_iff] at hentropy
  exact ⟨hmargin, hentropy⟩

theorem AllBacked.conservative {answers : List DecisionAnswer} (h : AllBacked answers) :
    Conservative answers := by
  refine ⟨fun a ha d hd => ?_, fun policy haccept a ha => accepted_alone ha haccept⟩
  have hself (hnumbers : answerNumbers a = (d.top.probability, d.margin, d.entropy)) :
      (reportFor answers).topProbability ≤ d.top.probability ∧
        (reportFor answers).margin ≤ d.margin ∧ d.entropy ≤ (reportFor answers).entropy := by
    rw [top_le_iff, margin_le_iff, le_entropy_iff]
    exact ⟨Or.inr ⟨a, ha, by rw [hnumbers]⟩, Or.inr ⟨a, ha, by rw [hnumbers]⟩,
      Or.inr ⟨a, ha, by rw [hnumbers]⟩⟩
  cases a with
  | choice id choice d' confidence =>
    cases hd
    exact hself rfl
  | score id expected level d' confidence =>
    cases hd
    exact hself rfl
  | boolean id value p confidence =>
    have hd := Result.toOption_eq_some.mp hd
    have hmem : ⟨"true", p⟩ ∈ d.entries := by simp [Distribution.twoPoint_entries hd]
    have hunit : 0 ≤ p ∧ p ≤ 1 := d.unit _ hmem
    obtain ⟨hmargin, hentropy⟩ := h id value p confidence ha hunit.1 hunit.2
    refine ⟨?_, ?_, ?_⟩
    · exact top_le_iff.mpr (Or.inr ⟨_, ha, d.le_top _ hmem⟩)
    · rw [Distribution.twoPoint_margin hd, margin_le_iff, one_le_abs_iff hunit, or_assoc]
      exact hmargin
    · rw [Distribution.twoPoint_entropy hd, le_entropy_iff]
      exact hentropy

/-- The report is conservative exactly when another answer backs every boolean one. -/
theorem conservative_iff (answers : List DecisionAnswer) :
    Conservative answers ↔ AllBacked answers :=
  ⟨Conservative.allBacked, AllBacked.conservative⟩

/-- Under a logarithm that is negative below one, booleans alone have a conservative report only
where all are certain. -/
theorem conservative_booleans_iff (hlog : ∀ q : ℚ, 0 < q → q < 1 → RustStd.log2 q < 0)
    (hone : RustStd.log2 1 = 0) {answers : List DecisionAnswer}
    (h : ∀ a ∈ answers, ∃ id value p confidence,
      a = .boolean id value p confidence ∧ 0 ≤ p ∧ p ≤ 1) :
    Conservative answers ↔ ∀ id value p confidence,
      DecisionAnswer.boolean id value p confidence ∈ answers → p = 0 ∨ p = 1 := by
  have hzero : Distribution.bits 0 = 0 := by
    simp [Distribution.bits, Distribution.entropyStep, hone]
  have hcertain : Distribution.bits 1 = 0 := by
    simp [Distribution.bits, Distribution.entropyStep, hone]
  have hpositive (p : ℚ) (hlow : 0 < p) (hhigh : p < 1) : 0 < Distribution.bits p := by
    have hother : 0 < 1 - p := sub_pos.mpr hhigh
    have hp := mul_neg_of_pos_of_neg hlow (hlog p hlow hhigh)
    have hq := mul_neg_of_pos_of_neg hother (hlog (1 - p) hother (sub_lt_self 1 hlow))
    simp only [Distribution.bits, Distribution.entropyStep, if_pos hlow, if_pos hother]
    linarith
  have hnone (b : DecisionAnswer) (hb : b ∈ answers) : (answerNumbers b).2.2 = 0 := by
    obtain ⟨id, value, p, confidence, rfl, -⟩ := h b hb
    rfl
  constructor
  · intro hconservative id value p confidence ha
    obtain ⟨_, _, _, _, heq, hlow, hhigh⟩ := h _ ha
    cases heq
    have hbits : Distribution.bits p ≤ 0 := by
      have hbacked := hconservative.allBacked id value p confidence ha hlow hhigh
      rcases hbacked.entropy with hle | ⟨b, hb, hle⟩
      · exact hle
      · rwa [hnone b hb] at hle
    by_contra hne
    rw [not_or] at hne
    exact absurd (hpositive p (lt_of_le_of_ne hlow (Ne.symm hne.1)) (lt_of_le_of_ne hhigh hne.2))
      (not_lt.mpr hbits)
  · intro hall
    refine AllBacked.conservative fun id value p confidence ha _ _ => ?_
    rcases hall id value p confidence ha with rfl | rfl
    · exact ⟨Or.inl rfl, Or.inl hzero.le⟩
    · exact ⟨Or.inr (Or.inl rfl), Or.inl hcertain.le⟩

end Conservative

section Samples

attribute [local instance] plainStd

/-- Two booleans of masses 0.55 and 0.99. -/
def weakest : List DecisionAnswer :=
  [.boolean ⟨"a", by decide⟩ true (11 / 20) (11 / 20),
    .boolean ⟨"b", by decide⟩ false (99 / 100) (99 / 100)]

/-- The report has the margin 0.55 where the first answer's own distribution has 0.1. -/
theorem weakest_not_conservative : weakest ≠ [] ∧ ¬ Conservative weakest := by
  refine ⟨by simp [weakest], fun h => ?_⟩
  obtain ⟨d, hd⟩ := @Distribution.twoPoint_ok (11 / 20) (by norm_num)
  obtain ⟨-, hmargin, -⟩ := h.numbers _ List.mem_cons_self d (Result.toOption_eq_some.mpr hd)
  rw [Distribution.twoPoint_margin hd, margin_le_iff] at hmargin
  simp only [weakest, List.mem_cons, List.not_mem_nil, or_false, exists_eq_or_imp,
    exists_eq_left, answerNumbers] at hmargin
  norm_num [abs_of_nonneg] at hmargin

end Samples

end Jev

end OpenCodifier
