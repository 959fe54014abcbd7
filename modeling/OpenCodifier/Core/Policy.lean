import Mathlib.Algebra.Order.Monoid.Unbundled.WithTop
import Mathlib.Tactic.NormNum
import Mathlib.Data.Rat.Defs
import OpenCodifier.Core.Ids
set_option autoImplicit false

namespace OpenCodifier

inductive RiskLevel where
  | low
  | medium
  | high
  | critical
  deriving DecidableEq

inductive OodMode where
  | answerEntropy
  | lexicalBand
  deriving DecidableEq

structure AbstainCandidate where
  id : String
  description : String
  id_ok : id ≠ "" ∧ id ≠ "none"
  description_ne : description ≠ ""

theorem AbstainCandidate.ext {a b : AbstainCandidate} (hid : a.id = b.id)
    (hdescription : a.description = b.description) : a = b := by
  cases a
  cases b
  cases hid
  cases hdescription
  rfl

instance : DecidableEq AbstainCandidate := fun a b =>
  decidable_of_iff (a.id = b.id ∧ a.description = b.description)
    ⟨fun h => AbstainCandidate.ext h.1 h.2, fun h => h ▸ ⟨rfl, rfl⟩⟩

def AbstainCandidate.new (id description : String) : CoreResult AbstainCandidate :=
  if hi : id = "" ∨ id = "none" then
    .error (.emptyField "abstain candidate id (empty or the reserved \"none\")")
  else if hd : description = "" then
    .error (.emptyField "abstain candidate description")
  else .ok ⟨id, description, not_or.mp hi, hd⟩

/-- How much certainty a decision must have. An infinite ceiling is `⊤`, and the
fields carry the cascade order and the ranges the constructors enforce. -/
structure DecisionPolicy where
  minConfidence : ℚ
  verifyBelow : ℚ
  abstainBelow : ℚ
  risk : RiskLevel
  entropyCeiling : WithTop ℚ
  minMargin : ℚ
  oodCeiling : WithTop ℚ
  oodMode : OodMode
  booleanThreshold : Option ℚ
  abstainCandidate : Option AbstainCandidate
  maxLabelOverlap : Option ℚ
  escalateBelow : Option ℚ
  abstainBelow_nonneg : 0 ≤ abstainBelow
  abstainBelow_le : abstainBelow ≤ verifyBelow
  verifyBelow_le : verifyBelow ≤ minConfidence
  minConfidence_le : minConfidence ≤ 1
  entropyCeiling_pos : (0 : WithTop ℚ) < entropyCeiling
  minMargin_range : isUnitInterval minMargin = true
  oodCeiling_range : oodCeiling = ⊤ ∨ ((0 : WithTop ℚ) ≤ oodCeiling ∧ oodCeiling ≤ (1 : WithTop ℚ))
  booleanThreshold_range : ∀ t ∈ booleanThreshold, 0 ≤ t ∧ t < 1
  maxLabelOverlap_range : ∀ t ∈ maxLabelOverlap, 0 < t ∧ t ≤ 1
  escalateBelow_range : ∀ t ∈ escalateBelow, abstainBelow ≤ t ∧ t ≤ minConfidence
  deriving DecidableEq

namespace DecisionPolicy

variable [RustStd]

def rangeReason (name : String) (value : ℚ) : String :=
  name ++ " must be a finite value in [0, 1], got " ++ RustStd.display value

def firstOutOfRange (gates : List (String × ℚ)) : Option (String × ℚ) :=
  gates.find? fun gate => !isUnitInterval gate.2

def new (minConfidence verifyBelow abstainBelow : ℚ) (risk : RiskLevel) :
    CoreResult DecisionPolicy :=
  match hr : firstOutOfRange
      [("min_confidence", minConfidence), ("verify_below", verifyBelow),
        ("abstain_below", abstainBelow)] with
  | some gate => .error (.invalidPolicy (rangeReason gate.1 gate.2))
  | none =>
    if ho : abstainBelow ≤ verifyBelow ∧ verifyBelow ≤ minConfidence then
      .ok {
        minConfidence, verifyBelow, abstainBelow, risk
        entropyCeiling := ⊤
        minMargin := 0
        oodCeiling := ⊤
        oodMode := .answerEntropy
        booleanThreshold := none
        abstainCandidate := none
        maxLabelOverlap := none
        escalateBelow := none
        abstainBelow_nonneg := by
          simp [firstOutOfRange, isUnitInterval_iff] at hr
          exact hr.2.2.1
        abstainBelow_le := ho.1
        verifyBelow_le := ho.2
        minConfidence_le := by
          simp [firstOutOfRange, isUnitInterval_iff] at hr
          exact hr.1.2
        entropyCeiling_pos := WithTop.coe_lt_top 0
        minMargin_range := by simp [isUnitInterval]
        oodCeiling_range := Or.inl rfl
        booleanThreshold_range := by simp
        maxLabelOverlap_range := by simp
        escalateBelow_range := by simp }
    else
      .error (.invalidPolicy ("expected abstain_below <= verify_below <= min_confidence, got "
        ++ RustStd.display abstainBelow ++ " > " ++ RustStd.display verifyBelow ++ " > "
        ++ RustStd.display minConfidence))

def withBooleanThreshold (p : DecisionPolicy) (threshold : ℚ) : CoreResult DecisionPolicy :=
  if h : 0 ≤ threshold ∧ threshold < 1 then
    .ok { p with booleanThreshold := some threshold, booleanThreshold_range := by simpa using h }
  else
    .error (.invalidPolicy ("boolean_threshold must be a finite value strictly inside (0, 1), got "
      ++ RustStd.display threshold))

/-- The source validates the candidate again; the type already did. -/
def withAbstainCandidate (p : DecisionPolicy) (candidate : AbstainCandidate) :
    CoreResult DecisionPolicy :=
  .ok { p with abstainCandidate := some candidate }

def withMaxLabelOverlap (p : DecisionPolicy) (overlap : ℚ) : CoreResult DecisionPolicy :=
  if h : 0 < overlap ∧ overlap ≤ 1 then
    .ok { p with maxLabelOverlap := some overlap, maxLabelOverlap_range := by simpa using h }
  else
    .error (.invalidPolicy ("max_label_overlap must be a finite value in (0, 1], got "
      ++ RustStd.display overlap))

def withOodMode (p : DecisionPolicy) (mode : OodMode) : DecisionPolicy :=
  { p with oodMode := mode }

def displayCeiling : WithTop ℚ → String
  | none => "inf"
  | some value => RustStd.display value

def withEntropyCeiling (p : DecisionPolicy) (ceiling : WithTop ℚ) : CoreResult DecisionPolicy :=
  if h : (0 : WithTop ℚ) < ceiling then
    .ok { p with entropyCeiling := ceiling, entropyCeiling_pos := h }
  else
    .error (.invalidPolicy
      ("entropy_ceiling must be a positive number (or infinity to disable), got "
        ++ displayCeiling ceiling))

def withMinMargin (p : DecisionPolicy) (margin : ℚ) : CoreResult DecisionPolicy :=
  if h : isUnitInterval margin then .ok { p with minMargin := margin, minMargin_range := h }
  else .error (.invalidPolicy (rangeReason "min_margin" margin))

def withOodCeiling (p : DecisionPolicy) (ceiling : WithTop ℚ) : CoreResult DecisionPolicy :=
  if h : ceiling = ⊤ ∨ ((0 : WithTop ℚ) ≤ ceiling ∧ ceiling ≤ (1 : WithTop ℚ)) then
    .ok { p with oodCeiling := ceiling, oodCeiling_range := h }
  else
    .error (.invalidPolicy
      ("ood_ceiling must be a finite value in [0, 1] (or infinity to disable), got "
        ++ displayCeiling ceiling))

def withEscalateBelow (p : DecisionPolicy) (threshold : ℚ) : CoreResult DecisionPolicy :=
  if !isUnitInterval threshold then
    .error (.invalidPolicy (rangeReason "escalate_below" threshold))
  else if h : p.abstainBelow ≤ threshold ∧ threshold ≤ p.minConfidence then
    .ok { p with escalateBelow := some threshold, escalateBelow_range := by simpa using h }
  else
    .error (.invalidPolicy ("expected abstain_below <= escalate_below <= min_confidence, got "
      ++ RustStd.display threshold ++ " outside [" ++ RustStd.display p.abstainBelow ++ ", "
      ++ RustStd.display p.minConfidence ++ "]"))

end DecisionPolicy

def DecisionPolicy.defaults : DecisionPolicy where
  minConfidence := 4 / 5
  verifyBelow := 13 / 20
  abstainBelow := 1 / 2
  risk := .low
  entropyCeiling := ⊤
  minMargin := 0
  oodCeiling := ⊤
  oodMode := .answerEntropy
  booleanThreshold := none
  abstainCandidate := none
  maxLabelOverlap := none
  escalateBelow := none
  abstainBelow_nonneg := by norm_num
  abstainBelow_le := by norm_num
  verifyBelow_le := by norm_num
  minConfidence_le := by norm_num
  entropyCeiling_pos := WithTop.coe_lt_top 0
  minMargin_range := by simp [isUnitInterval]
  oodCeiling_range := Or.inl rfl
  booleanThreshold_range := by simp
  maxLabelOverlap_range := by simp
  escalateBelow_range := by simp

/-- The built-in policy is what its own constructor accepts. -/
theorem DecisionPolicy.defaults_new [RustStd] :
    DecisionPolicy.new (4 / 5) (13 / 20) (1 / 2) .low = .ok DecisionPolicy.defaults := by
  unfold DecisionPolicy.new
  split
  · rename_i h
    norm_num [firstOutOfRange, isUnitInterval] at h
    cases h
  · rw [dif_pos (by norm_num)]
    rfl

/-- Per-request ceilings, in bytes, counts and nanoseconds. -/
structure Limits where
  maxInputBytes : Nat := 1048576
  maxQuestions : Nat := 32
  maxCandidates : Nat := 256
  maxGraphNodes : Nat := 128
  maxExecutionTime : Nat := 120000000000
  maxRetrievalResults : Nat := 64
  maxImageBytes : Nat := 2097152
  maxImages : Nat := 4
  deriving DecidableEq

structure RequestMetadata where
  requestId : Option String := none
  limits : Limits := {}
  family : Option DecisionFamily := none
  deriving DecidableEq

end OpenCodifier
