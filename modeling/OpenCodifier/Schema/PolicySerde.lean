import OpenCodifier.Lib.Json
import OpenCodifier.Lib.Result
import OpenCodifier.Core.Policy
set_option autoImplicit false

namespace OpenCodifier

open Json

def RiskLevel.names : List (String × RiskLevel) :=
  [("low", .low), ("medium", .medium), ("high", .high), ("critical", .critical)]

def RiskLevel.serialize : RiskLevel → Value
  | .low => .str "low"
  | .medium => .str "medium"
  | .high => .str "high"
  | .critical => .str "critical"

def OodMode.names : List (String × OodMode) :=
  [("answer_entropy", .answerEntropy), ("lexical_band", .lexicalBand)]

def OodMode.serialize : OodMode → Value
  | .answerEntropy => .str "answer_entropy"
  | .lexicalBand => .str "lexical_band"

@[simp] theorem RiskLevel.asVariant_serialize (risk : RiskLevel) :
    asVariant RiskLevel.names risk.serialize.1 = some risk := by
  cases risk <;> rfl

@[simp] theorem OodMode.asVariant_serialize (mode : OodMode) :
    asVariant OodMode.names mode.serialize.1 = some mode := by
  cases mode <;> rfl

namespace AbstainCandidate

def serialize (c : AbstainCandidate) : Value :=
  .struct [("id", some (.str c.id)), ("description", some (.str c.description))]

/-- The source checks the candidate when the policy takes it. -/
def deserialize (j : Json) : Option AbstainCandidate := do
  let f ← j.fields? 2
  let id ← f.required 0 "id" asStr
  let description ← f.required 1 "description" asStr
  (AbstainCandidate.new id description).toOption

theorem new_self (c : AbstainCandidate) : AbstainCandidate.new c.id c.description = .ok c := by
  rw [AbstainCandidate.new, dif_neg (not_or.mpr c.id_ok), dif_neg c.description_ne]

@[simp] theorem deserialize_serialize (c : AbstainCandidate) :
    deserialize c.serialize.1 = some c := by
  simp [deserialize, serialize, Fields.required, new_self, Except.toOption]

end AbstainCandidate

/-- What a policy is written as: a disabled gate is left out. -/
structure RawDecisionPolicy where
  minConfidence : ℚ
  verifyBelow : ℚ
  abstainBelow : ℚ
  risk : RiskLevel
  entropyCeiling : Option ℚ
  minMargin : Option ℚ
  oodCeiling : Option ℚ
  oodMode : Option OodMode
  booleanThreshold : Option ℚ
  abstainCandidate : Option AbstainCandidate
  maxLabelOverlap : Option ℚ
  escalateBelow : Option ℚ

namespace RawDecisionPolicy

def fields (raw : RawDecisionPolicy) : List (String × Option Value) :=
  [("min_confidence", some (.float raw.minConfidence)),
    ("verify_below", some (.float raw.verifyBelow)),
    ("abstain_below", some (.float raw.abstainBelow)),
    ("risk", some raw.risk.serialize),
    ("entropy_ceiling", raw.entropyCeiling.map .float),
    ("min_margin", raw.minMargin.map .float),
    ("ood_ceiling", raw.oodCeiling.map .float),
    ("ood_mode", raw.oodMode.map OodMode.serialize),
    ("boolean_threshold", raw.booleanThreshold.map .float),
    ("abstain_candidate", raw.abstainCandidate.map AbstainCandidate.serialize),
    ("max_label_overlap", raw.maxLabelOverlap.map .float),
    ("escalate_below", raw.escalateBelow.map .float)]

def serialize (raw : RawDecisionPolicy) : Value := .struct raw.fields

theorem fields_nodup (raw : RawDecisionPolicy) : (raw.fields.map Prod.fst).Nodup := by
  have hnames : ["min_confidence", "verify_below", "abstain_below", "risk", "entropy_ceiling",
      "min_margin", "ood_ceiling", "ood_mode", "boolean_threshold", "abstain_candidate",
      "max_label_overlap", "escalate_below"].Nodup := by decide
  exact hnames

def deserialize (j : Json) : Option RawDecisionPolicy := do
  let f ← j.fields? 12
  let minConfidence ← f.required 0 "min_confidence" asFloat
  let verifyBelow ← f.required 1 "verify_below" asFloat
  let abstainBelow ← f.required 2 "abstain_below" asFloat
  let risk ← f.required 3 "risk" (asVariant RiskLevel.names)
  let entropyCeiling ← f.defaulted 4 "entropy_ceiling" none (asOption asFloat)
  let minMargin ← f.defaulted 5 "min_margin" none (asOption asFloat)
  let oodCeiling ← f.defaulted 6 "ood_ceiling" none (asOption asFloat)
  let oodMode ← f.defaulted 7 "ood_mode" none (asOption (asVariant OodMode.names))
  let booleanThreshold ← f.defaulted 8 "boolean_threshold" none (asOption asFloat)
  let abstainCandidate ←
    f.defaulted 9 "abstain_candidate" none (asOption AbstainCandidate.deserialize)
  let maxLabelOverlap ← f.defaulted 10 "max_label_overlap" none (asOption asFloat)
  let escalateBelow ← f.defaulted 11 "escalate_below" none (asOption asFloat)
  some ⟨minConfidence, verifyBelow, abstainBelow, risk, entropyCeiling, minMargin, oodCeiling,
    oodMode, booleanThreshold, abstainCandidate, maxLabelOverlap, escalateBelow⟩

@[simp] theorem deserialize_serialize (raw : RawDecisionPolicy) :
    deserialize raw.serialize.1 = some raw := by
  have hn := raw.fields_nodup
  rw [serialize, Value.struct_val, deserialize, fields?_obj, Option.bind_eq_bind,
    Option.bind_some, Value.required_struct hn rfl, Value.asFloat_float, Value.required_struct hn rfl,
    Value.asFloat_float, Value.required_struct hn rfl, Value.asFloat_float,
    Value.required_struct hn rfl, RiskLevel.asVariant_serialize,
    Value.defaulted_struct hn rfl _ rfl fun a _ => Value.asFloat_float a,
    Value.defaulted_struct hn rfl _ rfl fun a _ => Value.asFloat_float a,
    Value.defaulted_struct hn rfl _ rfl fun a _ => Value.asFloat_float a,
    Value.defaulted_struct hn rfl _ rfl fun a _ => OodMode.asVariant_serialize a,
    Value.defaulted_struct hn rfl _ rfl fun a _ => Value.asFloat_float a,
    Value.defaulted_struct hn rfl _ rfl fun a _ => AbstainCandidate.deserialize_serialize a,
    Value.defaulted_struct hn rfl _ rfl fun a _ => Value.asFloat_float a,
    Value.defaulted_struct hn rfl _ rfl fun a _ => Value.asFloat_float a]
  rfl

end RawDecisionPolicy

namespace DecisionPolicy

/-- The finite ceilings are the ones that are written. -/
def finite : WithTop ℚ → Option ℚ
  | none => none
  | some value => some value

def toRaw (p : DecisionPolicy) : RawDecisionPolicy where
  minConfidence := p.minConfidence
  verifyBelow := p.verifyBelow
  abstainBelow := p.abstainBelow
  risk := p.risk
  entropyCeiling := finite p.entropyCeiling
  minMargin := if p.minMargin ≠ 0 then some p.minMargin else none
  oodCeiling := finite p.oodCeiling
  oodMode := if p.oodMode ≠ .answerEntropy then some p.oodMode else none
  booleanThreshold := p.booleanThreshold
  abstainCandidate := p.abstainCandidate
  maxLabelOverlap := p.maxLabelOverlap
  escalateBelow := p.escalateBelow

def setGate {α : Type} (set : DecisionPolicy → α → CoreResult DecisionPolicy) (gate : Option α)
    (p : DecisionPolicy) : CoreResult DecisionPolicy :=
  match gate with
  | some value => set p value
  | none => .ok p

variable [RustStd]

def tryFrom (raw : RawDecisionPolicy) : CoreResult DecisionPolicy := do
  let policy ← DecisionPolicy.new raw.minConfidence raw.verifyBelow raw.abstainBelow raw.risk
  let policy ← setGate (fun p c => p.withEntropyCeiling (c : ℚ)) raw.entropyCeiling policy
  let policy ← setGate withMinMargin raw.minMargin policy
  let policy ← setGate (fun p c => p.withOodCeiling (c : ℚ)) raw.oodCeiling policy
  let policy ← setGate withBooleanThreshold raw.booleanThreshold policy
  let policy ← setGate withAbstainCandidate raw.abstainCandidate policy
  let policy ← setGate withMaxLabelOverlap raw.maxLabelOverlap policy
  let policy ← setGate withEscalateBelow raw.escalateBelow policy
  .ok (policy.withOodMode (raw.oodMode.getD .answerEntropy))

def serialize (p : DecisionPolicy) : Value := p.toRaw.serialize

def deserialize (j : Json) : Option DecisionPolicy := do
  let raw ← RawDecisionPolicy.deserialize j
  (tryFrom raw).toOption

section FirstGates

variable (p : DecisionPolicy)

/-- The policy with only the first of its gates set, in the order they are set in. -/
def firstGates (n : Nat) : DecisionPolicy :=
  { p with
    entropyCeiling := if 0 < n then p.entropyCeiling else ⊤
    minMargin := if 1 < n then p.minMargin else 0
    oodCeiling := if 2 < n then p.oodCeiling else ⊤
    booleanThreshold := if 3 < n then p.booleanThreshold else none
    abstainCandidate := if 4 < n then p.abstainCandidate else none
    maxLabelOverlap := if 5 < n then p.maxLabelOverlap else none
    escalateBelow := if 6 < n then p.escalateBelow else none
    oodMode := if 7 < n then p.oodMode else .answerEntropy
    entropyCeiling_pos := by
      split
      · exact p.entropyCeiling_pos
      · exact WithTop.coe_lt_top 0
    minMargin_range := by
      split
      · exact p.minMargin_range
      · simp [isUnitInterval]
    oodCeiling_range := by
      split
      · exact p.oodCeiling_range
      · exact Or.inl rfl
    booleanThreshold_range := by
      split
      · exact p.booleanThreshold_range
      · simp
    maxLabelOverlap_range := by
      split
      · exact p.maxLabelOverlap_range
      · simp
    escalateBelow_range := by
      split
      · exact p.escalateBelow_range
      · simp }

theorem new_eq :
    DecisionPolicy.new p.minConfidence p.verifyBelow p.abstainBelow p.risk =
      .ok (p.firstGates 0) := by
  have hv := p.abstainBelow_nonneg.trans p.abstainBelow_le
  have hm := hv.trans p.verifyBelow_le
  have hv1 := p.verifyBelow_le.trans p.minConfidence_le
  have ha1 := p.abstainBelow_le.trans hv1
  unfold DecisionPolicy.new
  split
  · rename_i h
    simp [firstOutOfRange, isUnitInterval, p.abstainBelow_nonneg, hv, hm, hv1, ha1,
      p.minConfidence_le] at h
  · rw [dif_pos ⟨p.abstainBelow_le, p.verifyBelow_le⟩]
    rfl

theorem setGate_entropyCeiling :
    setGate (fun p c => p.withEntropyCeiling (c : ℚ)) (finite p.entropyCeiling) (p.firstGates 0) =
      .ok (p.firstGates 1) := by
  obtain ⟨_, _, _, _, ceiling⟩ := p
  cases ceiling with
  | top => rfl
  | coe value => exact dif_pos (by assumption)

theorem setGate_minMargin :
    setGate withMinMargin (if p.minMargin ≠ 0 then some p.minMargin else none) (p.firstGates 1) =
      .ok (p.firstGates 2) := by
  by_cases h : p.minMargin = 0
  · cases p
    cases h
    rfl
  · rw [if_pos h]
    exact dif_pos p.minMargin_range

theorem setGate_oodCeiling :
    setGate (fun p c => p.withOodCeiling (c : ℚ)) (finite p.oodCeiling) (p.firstGates 2) =
      .ok (p.firstGates 3) := by
  obtain ⟨_, _, _, _, _, _, ceiling⟩ := p
  cases ceiling with
  | top => rfl
  | coe value => exact dif_pos (by assumption)

theorem setGate_booleanThreshold :
    setGate withBooleanThreshold p.booleanThreshold (p.firstGates 3) = .ok (p.firstGates 4) := by
  cases h : p.booleanThreshold with
  | none =>
    cases p
    cases h
    rfl
  | some t =>
    have ht := p.booleanThreshold_range t h
    cases p
    cases h
    exact dif_pos ht

omit [RustStd] in
theorem setGate_abstainCandidate :
    setGate withAbstainCandidate p.abstainCandidate (p.firstGates 4) = .ok (p.firstGates 5) := by
  cases h : p.abstainCandidate with
  | none =>
    cases p
    cases h
    rfl
  | some c =>
    cases p
    cases h
    rfl

theorem setGate_maxLabelOverlap :
    setGate withMaxLabelOverlap p.maxLabelOverlap (p.firstGates 5) = .ok (p.firstGates 6) := by
  cases h : p.maxLabelOverlap with
  | none =>
    cases p
    cases h
    rfl
  | some t =>
    have ht := p.maxLabelOverlap_range t h
    cases p
    cases h
    exact dif_pos ht

theorem setGate_escalateBelow :
    setGate withEscalateBelow p.escalateBelow (p.firstGates 6) = .ok (p.firstGates 7) := by
  cases h : p.escalateBelow with
  | none =>
    cases p
    cases h
    rfl
  | some t =>
    have ht := p.escalateBelow_range t h
    have hu : isUnitInterval t = true := (isUnitInterval_iff t).mpr
      ⟨p.abstainBelow_nonneg.trans ht.1, ht.2.trans p.minConfidence_le⟩
    cases p
    cases h
    simp only [setGate, withEscalateBelow, hu, Bool.not_true, Bool.false_eq_true, if_false]
    exact dif_pos ht

end FirstGates

/-- The constructors give every policy back from its raw form. -/
theorem tryFrom_toRaw (p : DecisionPolicy) : tryFrom p.toRaw = .ok p := by
  rw [tryFrom]
  refine Result.bind_ok.mpr ⟨_, p.new_eq, ?_⟩
  refine Result.bind_ok.mpr ⟨_, p.setGate_entropyCeiling, ?_⟩
  refine Result.bind_ok.mpr ⟨_, p.setGate_minMargin, ?_⟩
  refine Result.bind_ok.mpr ⟨_, p.setGate_oodCeiling, ?_⟩
  refine Result.bind_ok.mpr ⟨_, p.setGate_booleanThreshold, ?_⟩
  refine Result.bind_ok.mpr ⟨_, p.setGate_abstainCandidate, ?_⟩
  refine Result.bind_ok.mpr ⟨_, p.setGate_maxLabelOverlap, ?_⟩
  refine Result.bind_ok.mpr ⟨_, p.setGate_escalateBelow, ?_⟩
  by_cases h : p.oodMode = .answerEntropy
  · cases p
    cases h
    rfl
  · rw [toRaw, if_pos h]
    rfl

theorem deserialize_serialize (p : DecisionPolicy) : deserialize p.serialize.1 = some p := by
  simp [deserialize, serialize, tryFrom_toRaw, Except.toOption]

end DecisionPolicy

end OpenCodifier
