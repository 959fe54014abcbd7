import OpenCodifier.Lib.F64
import OpenCodifier.Engine.Sample
import OpenCodifier.Schema.PolicySerde
set_option autoImplicit false

namespace OpenCodifier

open Json

/-- A candidate as a caller gives it, before the policy checks it. -/
structure AbstainRecord where
  id : String
  description : String
  deriving DecidableEq

def AbstainRecord.serialize (c : AbstainRecord) : Value :=
  .struct [("id", some (.str c.id)), ("description", some (.str c.description))]

/-- A policy as the source declares it: its fields promise nothing. -/
structure PolicyRecord where
  minConfidence : F64
  verifyBelow : F64
  abstainBelow : F64
  risk : RiskLevel
  entropyCeiling : F64
  minMargin : F64
  oodCeiling : F64
  oodMode : OodMode
  booleanThreshold : Option F64
  abstainCandidate : Option AbstainRecord
  maxLabelOverlap : Option F64
  escalateBelow : Option F64
  deriving DecidableEq

namespace PolicyRecord

def isUnitInterval (value : F64) : Bool :=
  value.isFinite && (F64.le (.finite 0) value && F64.le value (.finite 1))

section Builders

variable [RustStd]

def display : F64 → String
  | .nan => "NaN"
  | .negInf => "-inf"
  | .finite value => RustStd.display value
  | .inf => "inf"

def rangeReason (name : String) (value : F64) : String :=
  name ++ " must be a finite value in [0, 1], got " ++ display value

def new (minConfidence verifyBelow abstainBelow : F64) (risk : RiskLevel) :
    CoreResult PolicyRecord :=
  match [("min_confidence", minConfidence), ("verify_below", verifyBelow),
      ("abstain_below", abstainBelow)].find? fun gate => !isUnitInterval gate.2 with
  | some gate => .error (.invalidPolicy (rangeReason gate.1 gate.2))
  | none =>
    if !(F64.le abstainBelow verifyBelow && F64.le verifyBelow minConfidence) then
      .error (.invalidPolicy ("expected abstain_below <= verify_below <= min_confidence, got "
        ++ display abstainBelow ++ " > " ++ display verifyBelow ++ " > "
        ++ display minConfidence))
    else
      .ok {
        minConfidence, verifyBelow, abstainBelow, risk
        entropyCeiling := .inf
        minMargin := .finite 0
        oodCeiling := .inf
        oodMode := .answerEntropy
        booleanThreshold := none
        abstainCandidate := none
        maxLabelOverlap := none
        escalateBelow := none }

def withBooleanThreshold (r : PolicyRecord) (threshold : F64) : CoreResult PolicyRecord :=
  if !threshold.isFinite || !(F64.le (.finite 0) threshold && F64.lt threshold (.finite 1)) then
    .error (.invalidPolicy ("boolean_threshold must be a finite value strictly inside (0, 1), got "
      ++ display threshold))
  else .ok { r with booleanThreshold := some threshold }

def withAbstainCandidate (r : PolicyRecord) (candidate : AbstainRecord) :
    CoreResult PolicyRecord := do
  let _ ← AbstainCandidate.new candidate.id candidate.description
  .ok { r with abstainCandidate := some candidate }

def withMaxLabelOverlap (r : PolicyRecord) (overlap : F64) : CoreResult PolicyRecord :=
  if !overlap.isFinite || !(F64.le (.finite 0) overlap && F64.le overlap (.finite 1)) ||
      overlap = .finite 0 then
    .error (.invalidPolicy ("max_label_overlap must be a finite value in (0, 1], got "
      ++ display overlap))
  else .ok { r with maxLabelOverlap := some overlap }

def withOodMode (r : PolicyRecord) (mode : OodMode) : PolicyRecord := { r with oodMode := mode }

def withEntropyCeiling (r : PolicyRecord) (ceiling : F64) : CoreResult PolicyRecord :=
  if (!ceiling.isFinite || F64.le ceiling (.finite 0)) && ceiling ≠ .inf then
    .error (.invalidPolicy
      ("entropy_ceiling must be a positive number (or infinity to disable), got "
        ++ display ceiling))
  else .ok { r with entropyCeiling := ceiling }

def withMinMargin (r : PolicyRecord) (margin : F64) : CoreResult PolicyRecord :=
  if !isUnitInterval margin then .error (.invalidPolicy (rangeReason "min_margin" margin))
  else .ok { r with minMargin := margin }

def withOodCeiling (r : PolicyRecord) (ceiling : F64) : CoreResult PolicyRecord :=
  if ceiling ≠ .inf && !isUnitInterval ceiling then
    .error (.invalidPolicy
      ("ood_ceiling must be a finite value in [0, 1] (or infinity to disable), got "
        ++ display ceiling))
  else .ok { r with oodCeiling := ceiling }

def withEscalateBelow (r : PolicyRecord) (threshold : F64) : CoreResult PolicyRecord :=
  if !isUnitInterval threshold then
    .error (.invalidPolicy (rangeReason "escalate_below" threshold))
  else if !(F64.le r.abstainBelow threshold && F64.le threshold r.minConfidence) then
    .error (.invalidPolicy ("expected abstain_below <= escalate_below <= min_confidence, got "
      ++ display threshold ++ " outside [" ++ display r.abstainBelow ++ ", "
      ++ display r.minConfidence ++ "]"))
  else .ok { r with escalateBelow := some threshold }

end Builders

section Wire

/-- A number that is not finite has no text in a document. -/
def number : F64 → Value
  | .finite value => .float value
  | _ => .null

def gate (disabled value : F64) : Option Value :=
  if value = disabled then none else some (number value)

def modeField (mode : OodMode) : Option Value :=
  if mode = .answerEntropy then none else some mode.serialize

def fields (r : PolicyRecord) : List (String × Option Value) :=
  [("min_confidence", some (number r.minConfidence)),
    ("verify_below", some (number r.verifyBelow)),
    ("abstain_below", some (number r.abstainBelow)),
    ("risk", some r.risk.serialize),
    ("entropy_ceiling", gate .inf r.entropyCeiling),
    ("min_margin", gate (.finite 0) r.minMargin),
    ("ood_ceiling", gate .inf r.oodCeiling),
    ("ood_mode", modeField r.oodMode),
    ("boolean_threshold", r.booleanThreshold.map number),
    ("abstain_candidate", r.abstainCandidate.map AbstainRecord.serialize),
    ("max_label_overlap", r.maxLabelOverlap.map number),
    ("escalate_below", r.escalateBelow.map number)]

def serialize (r : PolicyRecord) : Value := .struct r.fields

/-- A gate is set when the raw form names it. -/
def setGate {α : Type} (set : PolicyRecord → α → CoreResult PolicyRecord) (gate : Option α)
    (r : PolicyRecord) : CoreResult PolicyRecord :=
  match gate with
  | some value => set r value
  | none => .ok r

variable [RustStd]

def tryFrom (raw : RawDecisionPolicy) : CoreResult PolicyRecord := do
  let policy ← PolicyRecord.new (.finite raw.minConfidence) (.finite raw.verifyBelow)
    (.finite raw.abstainBelow) raw.risk
  let policy ← setGate (fun r v => r.withEntropyCeiling (.finite v)) raw.entropyCeiling policy
  let policy ← setGate (fun r v => r.withMinMargin (.finite v)) raw.minMargin policy
  let policy ← setGate (fun r v => r.withOodCeiling (.finite v)) raw.oodCeiling policy
  let policy ← setGate (fun r v => r.withBooleanThreshold (.finite v)) raw.booleanThreshold policy
  let policy ← setGate (fun r c => r.withAbstainCandidate ⟨c.id, c.description⟩)
    raw.abstainCandidate policy
  let policy ← setGate (fun r v => r.withMaxLabelOverlap (.finite v)) raw.maxLabelOverlap policy
  let policy ← setGate (fun r v => r.withEscalateBelow (.finite v)) raw.escalateBelow policy
  .ok (policy.withOodMode (raw.oodMode.getD .answerEntropy))

def deserialize (j : Json) : Option PolicyRecord := do
  let raw ← RawDecisionPolicy.deserialize j
  (tryFrom raw).toOption

end Wire

section Abstraction

def ofPolicy (p : DecisionPolicy) : PolicyRecord where
  minConfidence := .finite p.minConfidence
  verifyBelow := .finite p.verifyBelow
  abstainBelow := .finite p.abstainBelow
  risk := p.risk
  entropyCeiling := .ofTop p.entropyCeiling
  minMargin := .finite p.minMargin
  oodCeiling := .ofTop p.oodCeiling
  oodMode := p.oodMode
  booleanThreshold := p.booleanThreshold.map .finite
  abstainCandidate := p.abstainCandidate.map fun c => ⟨c.id, c.description⟩
  maxLabelOverlap := p.maxLabelOverlap.map .finite
  escalateBelow := p.escalateBelow.map .finite

theorem isUnitInterval_finite (value : ℚ) :
    isUnitInterval (.finite value) = OpenCodifier.isUnitInterval value := by
  simp [isUnitInterval, OpenCodifier.isUnitInterval]

theorem fields_ofPolicy (p : DecisionPolicy) : (ofPolicy p).fields = p.toRaw.fields := by
  have hceiling (c : WithTop ℚ) : gate .inf (.ofTop c) =
      (DecisionPolicy.finite c).map .float := by
    cases c with
    | top => rfl
    | coe value => rfl
  have hmargin : gate (.finite 0) (.finite p.minMargin) =
      (if p.minMargin ≠ 0 then some p.minMargin else none).map .float := by
    by_cases h : p.minMargin = 0 <;> simp [gate, h, number]
  have hmode : modeField p.oodMode =
      (if p.oodMode ≠ .answerEntropy then some p.oodMode else none).map OodMode.serialize := by
    by_cases h : p.oodMode = .answerEntropy <;> simp [modeField, h]
  have hgate (o : Option ℚ) : (o.map F64.finite).map number = o.map Value.float := by
    cases o <;> rfl
  have hcandidate : (p.abstainCandidate.map fun c => (⟨c.id, c.description⟩ : AbstainRecord)).map
      AbstainRecord.serialize = p.abstainCandidate.map AbstainCandidate.serialize := by
    cases p.abstainCandidate <;> rfl
  simp only [fields, RawDecisionPolicy.fields, ofPolicy, DecisionPolicy.toRaw, hceiling, hmargin,
    hmode, hgate, hcandidate]
  rfl

theorem serialize_ofPolicy (p : DecisionPolicy) : (ofPolicy p).serialize = p.serialize := by
  rw [serialize, fields_ofPolicy]
  rfl

section Candidates

variable [RustStd]

/-- What the constructor does: a gate out of range, gates out of order, or a policy without
optional gates. -/
theorem new_cases (a b c : ℚ) (risk : RiskLevel) :
    let first := DecisionPolicy.firstOutOfRange
      [("min_confidence", a), ("verify_below", b), ("abstain_below", c)]
    (∃ gate, first = some gate ∧ DecisionPolicy.new a b c risk =
      .error (.invalidPolicy (DecisionPolicy.rangeReason gate.1 gate.2))) ∨
    (first = none ∧ ¬(c ≤ b ∧ b ≤ a) ∧ DecisionPolicy.new a b c risk =
      .error (.invalidPolicy ("expected abstain_below <= verify_below <= min_confidence, got "
        ++ RustStd.display c ++ " > " ++ RustStd.display b ++ " > " ++ RustStd.display a))) ∨
    (first = none ∧ (c ≤ b ∧ b ≤ a) ∧ (DecisionPolicy.new a b c risk).map ofPolicy = .ok {
      minConfidence := .finite a, verifyBelow := .finite b, abstainBelow := .finite c, risk
      entropyCeiling := .inf, minMargin := .finite 0, oodCeiling := .inf
      oodMode := .answerEntropy, booleanThreshold := none, abstainCandidate := none
      maxLabelOverlap := none, escalateBelow := none }) := by
  intro first
  rw [DecisionPolicy.new]
  split
  · rename_i gate hgate
    exact .inl ⟨gate, hgate, rfl⟩
  · rename_i hnone
    by_cases h : c ≤ b ∧ b ≤ a
    · rw [dif_pos h]
      exact .inr (.inr ⟨hnone, h, rfl⟩)
    · rw [dif_neg h]
      exact .inr (.inl ⟨hnone, h, rfl⟩)

theorem new_ofPolicy (a b c : ℚ) (risk : RiskLevel) :
    new (.finite a) (.finite b) (.finite c) risk = (DecisionPolicy.new a b c risk).map ofPolicy := by
  have hfind (gates : List (String × ℚ)) :
      (gates.map fun gate => (gate.1, F64.finite gate.2)).find? (fun gate => !isUnitInterval gate.2) =
        (DecisionPolicy.firstOutOfRange gates).map fun gate => (gate.1, F64.finite gate.2) := by
    rw [DecisionPolicy.firstOutOfRange, List.find?_map]
    simp only [← isUnitInterval_finite, Function.comp_def]
  have hgates := hfind [("min_confidence", a), ("verify_below", b), ("abstain_below", c)]
  simp only [List.map_cons, List.map_nil] at hgates
  rw [new, hgates]
  rcases new_cases a b c risk with ⟨gate, hfirst, hnew⟩ | ⟨hfirst, h, hnew⟩ | ⟨hfirst, h, hnew⟩
  · rw [hfirst, hnew]
    rfl
  · have hout : b < c ∨ a < b := (not_and_or.mp h).imp not_le.mp not_le.mp
    rw [hfirst, hnew, Option.map_none]
    exact if_pos (by simpa using hout)
  · rw [hfirst, hnew, Option.map_none]
    exact if_neg (by simp [h])

end Candidates

variable [RustStd] (p : DecisionPolicy)

theorem withBooleanThreshold_ofPolicy (t : ℚ) :
    (ofPolicy p).withBooleanThreshold (.finite t) = (p.withBooleanThreshold t).map ofPolicy := by
  rw [withBooleanThreshold, DecisionPolicy.withBooleanThreshold]
  by_cases h : 0 ≤ t ∧ t < 1
  · rw [dif_pos h, if_neg (by simp [h])]
    rfl
  · have hout : t < 0 ∨ 1 ≤ t := (not_and_or.mp h).imp not_le.mp not_lt.mp
    rw [dif_neg h, if_pos (by simpa using hout)]
    rfl

omit [RustStd] in
theorem withAbstainCandidate_ofPolicy (c : AbstainCandidate) :
    (ofPolicy p).withAbstainCandidate ⟨c.id, c.description⟩ =
      (p.withAbstainCandidate c).map ofPolicy := by
  rw [withAbstainCandidate, AbstainCandidate.new_self]
  rfl

theorem withMaxLabelOverlap_ofPolicy (t : ℚ) :
    (ofPolicy p).withMaxLabelOverlap (.finite t) = (p.withMaxLabelOverlap t).map ofPolicy := by
  rw [withMaxLabelOverlap, DecisionPolicy.withMaxLabelOverlap]
  by_cases h : 0 < t ∧ t ≤ 1
  · rw [dif_pos h, if_neg (by simp [h.1.le, h.2, h.1.ne'])]
    rfl
  · have hout : (t < 0 ∨ 1 < t) ∨ t = 0 := by
      rcases lt_trichotomy t 0 with hlt | heq | hgt
      · exact .inl (.inl hlt)
      · exact .inr heq
      · exact .inl (.inr (not_le.mp fun hle => h ⟨hgt, hle⟩))
    rw [dif_neg h, if_pos (by simpa using hout)]
    rfl

theorem withEntropyCeiling_ofPolicy (c : WithTop ℚ) :
    (ofPolicy p).withEntropyCeiling (.ofTop c) = (p.withEntropyCeiling c).map ofPolicy := by
  rw [withEntropyCeiling, DecisionPolicy.withEntropyCeiling]
  cases c with
  | top =>
    have htop : (0 : WithTop ℚ) < ⊤ := WithTop.coe_lt_top 0
    rw [dif_pos htop]
    rfl
  | coe v =>
    by_cases h : 0 < v
    · rw [dif_pos (WithTop.coe_pos.mpr h), if_neg (by simp [h])]
      rfl
    · rw [dif_neg (by simpa using h), if_pos (by simpa using h)]
      rfl

theorem withMinMargin_ofPolicy (v : ℚ) :
    (ofPolicy p).withMinMargin (.finite v) = (p.withMinMargin v).map ofPolicy := by
  rw [withMinMargin, DecisionPolicy.withMinMargin, isUnitInterval_finite]
  by_cases h : OpenCodifier.isUnitInterval v = true
  · rw [dif_pos h, if_neg (by simp [h])]
    rfl
  · rw [dif_neg h, if_pos (by simpa using h)]
    rfl

theorem withOodCeiling_ofPolicy (c : WithTop ℚ) :
    (ofPolicy p).withOodCeiling (.ofTop c) = (p.withOodCeiling c).map ofPolicy := by
  rw [withOodCeiling, DecisionPolicy.withOodCeiling]
  cases c with
  | top =>
    rw [dif_pos (.inl rfl)]
    rfl
  | coe v =>
    have hrange : ((v : WithTop ℚ) = ⊤ ∨ ((0 : WithTop ℚ) ≤ v ∧ (v : WithTop ℚ) ≤ (1 : WithTop ℚ))) ↔
        OpenCodifier.isUnitInterval v = true := by
      rw [isUnitInterval_iff]
      simp
    rw [F64.ofTop_coe, isUnitInterval_finite]
    by_cases h : OpenCodifier.isUnitInterval v = true
    · rw [dif_pos (hrange.mpr h), if_neg (by simp [h])]
      rfl
    · rw [dif_neg (hrange.not.mpr h), if_pos (by simpa using h)]
      rfl

theorem withEscalateBelow_ofPolicy (t : ℚ) :
    (ofPolicy p).withEscalateBelow (.finite t) = (p.withEscalateBelow t).map ofPolicy := by
  rw [withEscalateBelow, isUnitInterval_finite]
  by_cases hu : OpenCodifier.isUnitInterval t = true
  · by_cases h : p.abstainBelow ≤ t ∧ t ≤ p.minConfidence
    · rw [if_neg (by simp [hu]), if_neg (by simp [ofPolicy, h]), DecisionPolicy.withEscalateBelow,
        if_neg (by simp [hu]), dif_pos h]
      rfl
    · have hout : t < p.abstainBelow ∨ p.minConfidence < t :=
        (not_and_or.mp h).imp not_le.mp not_le.mp
      rw [if_neg (by simp [hu]), if_pos (by simpa [ofPolicy] using hout),
        DecisionPolicy.withEscalateBelow, if_neg (by simp [hu]), dif_neg h]
      rfl
  · rw [if_pos (by simpa using hu), DecisionPolicy.withEscalateBelow, if_pos (by simpa using hu)]
    rfl

omit [RustStd] p in
theorem setGate_bind {α : Type} {set : DecisionPolicy → α → CoreResult DecisionPolicy}
    {setRecord : PolicyRecord → α → CoreResult PolicyRecord}
    {next : DecisionPolicy → CoreResult DecisionPolicy}
    {nextRecord : PolicyRecord → CoreResult PolicyRecord} {gate : Option α} {p : DecisionPolicy}
    (h : ∀ v, setRecord (ofPolicy p) v = (set p v).map ofPolicy)
    (hnext : ∀ p, nextRecord (ofPolicy p) = (next p).map ofPolicy) :
    (setGate setRecord gate (ofPolicy p) >>= nextRecord) =
      (DecisionPolicy.setGate set gate p >>= next).map ofPolicy := by
  have hgate : setGate setRecord gate (ofPolicy p) =
      (DecisionPolicy.setGate set gate p).map ofPolicy := by
    cases gate with
    | none => rfl
    | some v => exact h v
  rw [hgate]
  exact Result.map_bind_map hnext

omit p in
theorem tryFrom_eq (raw : RawDecisionPolicy) :
    tryFrom raw = (DecisionPolicy.tryFrom raw).map ofPolicy := by
  rw [tryFrom, DecisionPolicy.tryFrom, new_ofPolicy]
  refine Result.map_bind_map fun p => ?_
  refine setGate_bind (fun v => withEntropyCeiling_ofPolicy p v) fun p => ?_
  refine setGate_bind (withMinMargin_ofPolicy p) fun p => ?_
  refine setGate_bind (fun v => withOodCeiling_ofPolicy p v) fun p => ?_
  refine setGate_bind (withBooleanThreshold_ofPolicy p) fun p => ?_
  refine setGate_bind (withAbstainCandidate_ofPolicy p) fun p => ?_
  refine setGate_bind (withMaxLabelOverlap_ofPolicy p) fun p => ?_
  exact setGate_bind (withEscalateBelow_ofPolicy p) fun p => rfl

omit p in
theorem deserialize_eq (j : Json) : deserialize j = (DecisionPolicy.deserialize j).map ofPolicy := by
  rw [deserialize, DecisionPolicy.deserialize]
  cases RawDecisionPolicy.deserialize j with
  | none => rfl
  | some raw =>
    change (tryFrom raw).toOption = (DecisionPolicy.tryFrom raw).toOption.map ofPolicy
    rw [tryFrom_eq]
    cases DecisionPolicy.tryFrom raw <;> rfl

theorem deserialize_serialize_ofPolicy :
    deserialize (ofPolicy p).serialize.1 = some (ofPolicy p) := by
  rw [serialize_ofPolicy, deserialize_eq, DecisionPolicy.deserialize_serialize, Option.map_some]

end Abstraction

inductive Call where
  | booleanThreshold (threshold : F64)
  | abstainCandidate (candidate : AbstainRecord)
  | maxLabelOverlap (overlap : F64)
  | oodMode (mode : OodMode)
  | entropyCeiling (ceiling : F64)
  | minMargin (margin : F64)
  | oodCeiling (ceiling : F64)
  | escalateBelow (threshold : F64)

/-- Where a policy comes from: its constructor, or a document. -/
inductive Origin where
  | built (minConfidence verifyBelow abstainBelow : F64) (risk : RiskLevel)
  | decoded (document : Json)

def Call.threshold? : Call → Option F64
  | .booleanThreshold threshold => some threshold
  | _ => none

def Origin.threshold? : Origin → Option F64
  | .built .. => none
  | .decoded document =>
    ((RawDecisionPolicy.deserialize document).bind fun raw => raw.booleanThreshold).map .finite

/-- The boolean threshold named last, by a call or by the document. -/
def lastThreshold (origin : Origin) (calls : List Call) : Option F64 :=
  (calls.filterMap Call.threshold?).getLast?.or origin.threshold?

section Runs

variable [RustStd]

def Call.apply (r : PolicyRecord) : Call → CoreResult PolicyRecord
  | .booleanThreshold threshold => r.withBooleanThreshold threshold
  | .abstainCandidate candidate => r.withAbstainCandidate candidate
  | .maxLabelOverlap overlap => r.withMaxLabelOverlap overlap
  | .oodMode mode => .ok (r.withOodMode mode)
  | .entropyCeiling ceiling => r.withEntropyCeiling ceiling
  | .minMargin margin => r.withMinMargin margin
  | .oodCeiling ceiling => r.withOodCeiling ceiling
  | .escalateBelow threshold => r.withEscalateBelow threshold

def Origin.policy : Origin → Option PolicyRecord
  | .built minConfidence verifyBelow abstainBelow risk =>
    (PolicyRecord.new minConfidence verifyBelow abstainBelow risk).toOption
  | .decoded document => PolicyRecord.deserialize document

def applyAll (calls : List Call) (r : PolicyRecord) : CoreResult PolicyRecord :=
  calls.foldlM Call.apply r

/-- The policy that a sequence of accepted calls leads to. -/
def reach (origin : Origin) (calls : List Call) : Option PolicyRecord := do
  let r ← origin.policy
  (applyAll calls r).toOption

theorem withEscalateBelow_ok {r r' : PolicyRecord} {t : F64} (h : r.withEscalateBelow t = .ok r') :
    isUnitInterval t = true ∧ { r with escalateBelow := some t } = r' := by
  rw [withEscalateBelow] at h
  split at h
  · cases h
  · rename_i hunit
    exact ⟨by simpa using hunit, (Result.ite_error_ok.mp h).2⟩

/-- A call that a builder accepts leads from the record of a policy to the record of a policy. -/
theorem apply_ofPolicy {p : DecisionPolicy} {call : Call} {r : PolicyRecord}
    (h : call.apply (ofPolicy p) = .ok r) : ∃ q, r = ofPolicy q := by
  have himage {x : CoreResult DecisionPolicy} (hx : x.map ofPolicy = .ok r) :
      ∃ q, r = ofPolicy q := by
    cases x with
    | error e => cases hx
    | ok q => exact ⟨q, (Except.ok.inj hx).symm⟩
  have hfinite {x : F64} (hx : isUnitInterval x = true) : ∃ v, x = .finite v :=
    F64.isFinite_iff.mp (Bool.and_eq_true_iff.mp hx).1
  cases call with
  | booleanThreshold t =>
    have hc := (Result.ite_error_ok.mp h).1
    obtain ⟨v, rfl⟩ : ∃ v, t = .finite v := F64.isFinite_iff.mp <| by
      by_contra hnot
      simp [hnot] at hc
    exact himage ((withBooleanThreshold_ofPolicy p v).symm.trans h)
  | abstainCandidate c =>
    obtain ⟨c', hc, -⟩ := Result.bind_ok.mp h
    have hsame : c'.id = c.id ∧ c'.description = c.description := by
      rw [AbstainCandidate.new] at hc
      split at hc
      · cases hc
      · split at hc
        · cases hc
        · cases hc
          exact ⟨rfl, rfl⟩
    have hcall := withAbstainCandidate_ofPolicy p c'
    rw [hsame.1, hsame.2] at hcall
    exact himage (hcall.symm.trans h)
  | maxLabelOverlap t =>
    have hc := (Result.ite_error_ok.mp h).1
    obtain ⟨v, rfl⟩ : ∃ v, t = .finite v := F64.isFinite_iff.mp <| by
      by_contra hnot
      simp [hnot] at hc
    exact himage ((withMaxLabelOverlap_ofPolicy p v).symm.trans h)
  | oodMode mode => exact ⟨p.withOodMode mode, (Except.ok.inj h).symm⟩
  | entropyCeiling c =>
    have hc := (Result.ite_error_ok.mp h).1
    obtain ⟨v, rfl⟩ : ∃ v, c = .ofTop v := by
      cases c with
      | finite v => exact ⟨v, rfl⟩
      | inf => exact ⟨⊤, rfl⟩
      | nan => simp [F64.isFinite] at hc
      | negInf => simp [F64.isFinite] at hc
    exact himage ((withEntropyCeiling_ofPolicy p v).symm.trans h)
  | minMargin v =>
    obtain ⟨v, rfl⟩ := hfinite (by simpa using (Result.ite_error_ok.mp h).1)
    exact himage ((withMinMargin_ofPolicy p v).symm.trans h)
  | oodCeiling c =>
    have hc := (Result.ite_error_ok.mp h).1
    obtain ⟨v, rfl⟩ : ∃ v, c = .ofTop v := by
      by_cases hinf : c = .inf
      · exact ⟨⊤, hinf⟩
      · obtain ⟨v, rfl⟩ := hfinite (by simpa [hinf] using hc)
        exact ⟨v, rfl⟩
    exact himage ((withOodCeiling_ofPolicy p v).symm.trans h)
  | escalateBelow t =>
    obtain ⟨v, rfl⟩ := hfinite (withEscalateBelow_ok h).1
    exact himage ((withEscalateBelow_ofPolicy p v).symm.trans h)

theorem apply_threshold {call : Call} {r r' : PolicyRecord} (h : call.apply r = .ok r') :
    r'.booleanThreshold = call.threshold?.or r.booleanThreshold := by
  cases call with
  | booleanThreshold t =>
    obtain ⟨-, rfl⟩ := Result.ite_error_ok.mp h
    rfl
  | abstainCandidate c =>
    obtain ⟨_, -, h⟩ := Result.bind_ok.mp h
    cases h
    rfl
  | oodMode mode =>
    cases h
    rfl
  | escalateBelow t =>
    obtain ⟨-, rfl⟩ := withEscalateBelow_ok h
    rfl
  | maxLabelOverlap _ | entropyCeiling _ | minMargin _ | oodCeiling _ =>
    obtain ⟨-, rfl⟩ := Result.ite_error_ok.mp h
    rfl

/-- The calls keep the record the record of a policy, with the boolean threshold they named last. -/
theorem applyAll_ofPolicy {calls : List Call} {p : DecisionPolicy} {r : PolicyRecord}
    (h : applyAll calls (ofPolicy p) = .ok r) :
    (∃ q, r = ofPolicy q) ∧ r.booleanThreshold =
      (calls.filterMap Call.threshold?).getLast?.or (ofPolicy p).booleanThreshold := by
  rw [applyAll] at h
  induction calls generalizing p with
  | nil =>
    cases h
    exact ⟨⟨p, rfl⟩, rfl⟩
  | cons call calls ih =>
    rw [List.foldlM_cons] at h
    obtain ⟨r', hcall, hrest⟩ := Result.bind_ok.mp h
    obtain ⟨q, rfl⟩ := apply_ofPolicy hcall
    obtain ⟨hq, hlast⟩ := ih hrest
    refine ⟨hq, ?_⟩
    rw [hlast, apply_threshold hcall, List.filterMap_cons]
    cases call.threshold? with
    | none => rfl
    | some t =>
      rw [List.getLast?_cons]
      cases (calls.filterMap Call.threshold?).getLast? <;> rfl

theorem new_ok {a b c : F64} {risk : RiskLevel} {r : PolicyRecord} (h : new a b c risk = .ok r) :
    ∃ p, r = ofPolicy p ∧ p.booleanThreshold = none := by
  have hall : isUnitInterval a = true ∧ isUnitInterval b = true ∧ isUnitInterval c = true := by
    rw [new] at h
    split at h
    · cases h
    · rename_i hnone
      simpa using List.find?_eq_none.mp hnone
  have hfinite {x : F64} (hx : isUnitInterval x = true) : ∃ v, x = .finite v :=
    F64.isFinite_iff.mp (Bool.and_eq_true_iff.mp hx).1
  obtain ⟨a, rfl⟩ := hfinite hall.1
  obtain ⟨b, rfl⟩ := hfinite hall.2.1
  obtain ⟨c, rfl⟩ := hfinite hall.2.2
  rw [new_ofPolicy] at h
  rcases new_cases a b c risk with ⟨_, -, hnew⟩ | ⟨-, -, hnew⟩ | ⟨-, -, hnew⟩
  · rw [hnew] at h
    cases h
  · rw [hnew] at h
    cases h
  · cases hp : DecisionPolicy.new a b c risk with
    | error e =>
      rw [hp] at h
      cases h
    | ok p =>
      rw [hp] at h hnew
      cases h
      refine ⟨p, rfl, ?_⟩
      have hthreshold := congrArg booleanThreshold (Except.ok.inj hnew)
      simpa [ofPolicy] using hthreshold

/-- The calls that the raw form of a policy stands for, in the order they are made in. -/
def rawCalls (raw : RawDecisionPolicy) : List Call :=
  (raw.entropyCeiling.map fun v => Call.entropyCeiling (.finite v)).toList ++
    ((raw.minMargin.map fun v => Call.minMargin (.finite v)).toList ++
    ((raw.oodCeiling.map fun v => Call.oodCeiling (.finite v)).toList ++
    ((raw.booleanThreshold.map fun v => Call.booleanThreshold (.finite v)).toList ++
    ((raw.abstainCandidate.map fun c => Call.abstainCandidate ⟨c.id, c.description⟩).toList ++
    ((raw.maxLabelOverlap.map fun v => Call.maxLabelOverlap (.finite v)).toList ++
    ((raw.escalateBelow.map fun v => Call.escalateBelow (.finite v)).toList ++
    [Call.oodMode (raw.oodMode.getD .answerEntropy)]))))))

theorem tryFrom_calls (raw : RawDecisionPolicy) :
    tryFrom raw = (do
      let r ← new (.finite raw.minConfidence) (.finite raw.verifyBelow) (.finite raw.abstainBelow)
        raw.risk
      applyAll (rawCalls raw) r) := by
  have hgate {α : Type} (call : α → Call) (gate : Option α) (r : PolicyRecord) :
      (gate.map call).toList.foldlM Call.apply r = setGate (fun r v => (call v).apply r) gate r := by
    cases gate with
    | none => rfl
    | some v => exact bind_pure _
  simp only [applyAll, rawCalls, List.foldlM_append, hgate]
  rfl

omit [RustStd] in
theorem filterMap_rawCalls (raw : RawDecisionPolicy) :
    (rawCalls raw).filterMap Call.threshold? = (raw.booleanThreshold.map F64.finite).toList := by
  have hother {α : Type} (call : α → Call) (h : ∀ v, (call v).threshold? = none)
      (gate : Option α) : (gate.map call).toList.filterMap Call.threshold? = [] := by
    cases gate with
    | none => rfl
    | some v => simp [h]
  have hown : ((raw.booleanThreshold.map fun v => Call.booleanThreshold (.finite v)).toList).filterMap
      Call.threshold? = (raw.booleanThreshold.map F64.finite).toList := by
    cases raw.booleanThreshold <;> rfl
  simp only [rawCalls, List.filterMap_append, hown,
    hother (fun v => .entropyCeiling (.finite v)) fun _ => rfl,
    hother (fun v => .minMargin (.finite v)) fun _ => rfl,
    hother (fun v => .oodCeiling (.finite v)) fun _ => rfl,
    hother (fun c : AbstainCandidate => .abstainCandidate ⟨c.id, c.description⟩) fun _ => rfl,
    hother (fun v => .maxLabelOverlap (.finite v)) fun _ => rfl,
    hother (fun v => .escalateBelow (.finite v)) fun _ => rfl, List.nil_append]
  exact List.append_nil _

theorem origin_ofPolicy {origin : Origin} {r : PolicyRecord} (h : origin.policy = some r) :
    (∃ p, r = ofPolicy p) ∧ r.booleanThreshold = origin.threshold? := by
  cases origin with
  | built a b c risk =>
    obtain ⟨p, rfl, hp⟩ := new_ok (Result.toOption_eq_some.mp h)
    exact ⟨⟨p, rfl⟩, by simp [ofPolicy, hp, Origin.threshold?]⟩
  | decoded j =>
    obtain ⟨raw, hraw, hfrom⟩ := Option.bind_eq_some_iff.mp h
    rw [tryFrom_calls] at hfrom
    obtain ⟨r', hnew, hcalls⟩ := Result.bind_ok.mp (Result.toOption_eq_some.mp hfrom)
    obtain ⟨p, rfl, hp⟩ := new_ok hnew
    obtain ⟨hq, hlast⟩ := applyAll_ofPolicy hcalls
    refine ⟨hq, ?_⟩
    rw [hlast, filterMap_rawCalls, Origin.threshold?, hraw]
    cases hb : raw.booleanThreshold <;> simp [ofPolicy, hp, hb]

/-- The invariants that the source documents. -/
structure Lawful (r : PolicyRecord) : Prop where
  abstain_nonneg : F64.le (.finite 0) r.abstainBelow = true
  abstain_le : F64.le r.abstainBelow r.verifyBelow = true
  verify_le : F64.le r.verifyBelow r.minConfidence = true
  min_le : F64.le r.minConfidence (.finite 1) = true
  entropy_pos : F64.lt (.finite 0) r.entropyCeiling = true
  margin : isUnitInterval r.minMargin = true
  ood : r.oodCeiling = .inf ∨ isUnitInterval r.oodCeiling = true
  threshold : ∀ t ∈ r.booleanThreshold,
    F64.lt (.finite 0) t = true ∧ F64.lt t (.finite 1) = true
  candidate : ∀ c ∈ r.abstainCandidate, c.id ≠ "" ∧ c.id ≠ "none" ∧ c.description ≠ ""
  overlap : ∀ t ∈ r.maxLabelOverlap, F64.lt (.finite 0) t = true ∧ F64.le t (.finite 1) = true
  escalate : ∀ t ∈ r.escalateBelow,
    F64.le r.abstainBelow t = true ∧ F64.le t r.minConfidence = true

omit [RustStd] in
theorem lawful_ofPolicy (p : DecisionPolicy) (h : p.booleanThreshold ≠ some 0) :
    (ofPolicy p).Lawful := by
  refine {
    abstain_nonneg := by simpa [ofPolicy] using p.abstainBelow_nonneg
    abstain_le := by simpa [ofPolicy] using p.abstainBelow_le
    verify_le := by simpa [ofPolicy] using p.verifyBelow_le
    min_le := by simpa [ofPolicy] using p.minConfidence_le
    entropy_pos := ?_
    margin := by simpa [ofPolicy, isUnitInterval_finite] using p.minMargin_range
    ood := ?_
    threshold := ?_
    candidate := ?_
    overlap := ?_
    escalate := ?_ }
  · have hpos := p.entropyCeiling_pos
    change F64.lt (.finite 0) (.ofTop p.entropyCeiling) = true
    cases hc : p.entropyCeiling with
    | top => rfl
    | coe v =>
      rw [hc] at hpos
      simpa using hpos
  · have hrange := p.oodCeiling_range
    change F64.ofTop p.oodCeiling = .inf ∨ isUnitInterval (.ofTop p.oodCeiling) = true
    cases hc : p.oodCeiling with
    | top => exact .inl rfl
    | coe v =>
      rw [hc] at hrange
      refine .inr ?_
      rw [F64.ofTop_coe, isUnitInterval_finite, isUnitInterval_iff]
      simpa using hrange
  · intro t ht
    obtain ⟨v, hv, rfl⟩ := Option.mem_map.mp ht
    have hrange := p.booleanThreshold_range v hv
    have hne : v ≠ 0 := by
      rintro rfl
      exact h hv
    simpa using ⟨lt_of_le_of_ne hrange.1 hne.symm, hrange.2⟩
  · intro c hc
    obtain ⟨c, -, rfl⟩ := Option.mem_map.mp hc
    exact ⟨c.id_ok.1, c.id_ok.2, c.description_ne⟩
  · intro t ht
    obtain ⟨v, hv, rfl⟩ := Option.mem_map.mp ht
    simpa using p.maxLabelOverlap_range v hv
  · intro t ht
    obtain ⟨v, hv, rfl⟩ := Option.mem_map.mp ht
    simpa [ofPolicy] using p.escalateBelow_range v hv

/-- A policy that a constructor and builders or a document lead to keeps its invariants exactly
when the boolean threshold named last is not zero, and it is always read back as it was written. -/
theorem reach_lawful_iff {origin : Origin} {calls : List Call} {r : PolicyRecord}
    (h : reach origin calls = some r) :
    (r.Lawful ↔ lastThreshold origin calls ≠ some (.finite 0)) ∧
      PolicyRecord.deserialize r.serialize.1 = some r := by
  obtain ⟨r0, horigin, hcalls⟩ := Option.bind_eq_some_iff.mp h
  obtain ⟨⟨p, rfl⟩, hfirst⟩ := origin_ofPolicy horigin
  obtain ⟨⟨q, rfl⟩, hlast⟩ := applyAll_ofPolicy (Result.toOption_eq_some.mp hcalls)
  rw [hfirst, ← lastThreshold] at hlast
  refine ⟨⟨fun hlaw hzero => ?_, fun hne => lawful_ofPolicy q fun hq => ?_⟩,
    deserialize_serialize_ofPolicy q⟩
  · have hpos := (hlaw.threshold (.finite 0) (hlast.trans hzero)).1
    simp at hpos
  · rw [← hlast] at hne
    exact hne (by simp [ofPolicy, hq])

end Runs

section Samples

attribute [local instance] plainStd

def defaultGates : Origin := .built (.finite (4 / 5)) (.finite (13 / 20)) (.finite (1 / 2)) .low

theorem reach_lawful_half :
    ∃ r, reach defaultGates [.booleanThreshold (.finite 0), .booleanThreshold (.finite (1 / 2))] =
      some r ∧ r.Lawful ∧ PolicyRecord.deserialize r.serialize.1 = some r := by
  have hsome : (reach defaultGates
      [.booleanThreshold (.finite 0), .booleanThreshold (.finite (1 / 2))]).isSome = true := by
    decide +kernel
  obtain ⟨r, hr⟩ := Option.isSome_iff_exists.mp hsome
  have h := reach_lawful_iff hr
  exact ⟨r, hr, h.1.mpr (by decide +kernel), h.2⟩

theorem reach_unlawful_zero :
    ∃ r, reach defaultGates [.booleanThreshold (.finite 0)] = some r ∧ ¬r.Lawful := by
  have hzero : (reach defaultGates [.booleanThreshold (.finite 0)]).map booleanThreshold =
      some (some (.finite 0)) := by
    decide +kernel
  obtain ⟨r, hr, hthreshold⟩ := Option.map_eq_some_iff.mp hzero
  refine ⟨r, hr, fun h => ?_⟩
  have hpos := (h.threshold (.finite 0) hthreshold).1
  simp at hpos

end Samples

end PolicyRecord

end OpenCodifier
