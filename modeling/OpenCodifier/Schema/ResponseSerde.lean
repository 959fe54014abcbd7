import OpenCodifier.Core.Request
import OpenCodifier.Schema.StateSerde
set_option autoImplicit false

namespace OpenCodifier

open Json

namespace DistributionEntry

def serialize (e : DistributionEntry) : Value :=
  .struct [("key", some (.str e.key)), ("probability", some (.float e.probability))]

def deserialize (j : Json) : Option DistributionEntry := do
  let f ← j.fields? 2
  let key ← f.required 0 "key" asStr
  let probability ← f.required 1 "probability" asFloat
  if isUnitInterval probability then some ⟨key, probability⟩ else none

theorem deserialize_serialize {e : DistributionEntry}
    (h : 0 ≤ e.probability ∧ e.probability ≤ 1) : deserialize e.serialize.1 = some e := by
  simp [deserialize, serialize, Fields.required, (isUnitInterval_iff _).mpr h]

end DistributionEntry

namespace Distribution

def serialize (d : Distribution) : Value :=
  .struct [("entries", some (.array (d.entries.map DistributionEntry.serialize)))]

def deserialize (j : Json) : Option Distribution := do
  let f ← j.fields? 1
  let entries ← f.required 0 "entries" (asList DistributionEntry.deserialize)
  (Distribution.new entries).toOption

@[simp] theorem deserialize_serialize (d : Distribution) :
    deserialize d.serialize.1 = some d := by
  have hread := Value.asList_array (l := d.entries)
    fun e he => DistributionEntry.deserialize_serialize (d.unit e he)
  simp [deserialize, serialize, Fields.required, hread, d.new_self, Except.toOption]

end Distribution

namespace DecisionAnswer

def fields : DecisionAnswer → List (String × Option Value)
  | choice questionId chosen distribution confidence =>
    [("type", some (.str "choice")), ("question_id", some questionId.serialize),
      ("choice", some chosen.serialize), ("distribution", some distribution.serialize),
      ("confidence", some (.float confidence))]
  | boolean questionId value probability confidence =>
    [("type", some (.str "boolean")), ("question_id", some questionId.serialize),
      ("value", some (.bool value)), ("probability", some (.float probability)),
      ("confidence", some (.float confidence))]
  | score questionId expected level distribution confidence =>
    [("type", some (.str "score")), ("question_id", some questionId.serialize),
      ("expected", some (.float expected)), ("level", some (.str level)),
      ("distribution", some distribution.serialize), ("confidence", some (.float confidence))]

def serialize (a : DecisionAnswer) : Value := .struct a.fields

def deserializeChoice (j : Json) : Option DecisionAnswer := do
  let f ← j.fields? 4
  let questionId ← f.required 0 "question_id" Ident.deserialize
  let chosen ← f.required 1 "choice" Ident.deserialize
  let distribution ← f.required 2 "distribution" Distribution.deserialize
  let confidence ← f.required 3 "confidence" asFloat
  some (.choice questionId chosen distribution confidence)

def deserializeBoolean (j : Json) : Option DecisionAnswer := do
  let f ← j.fields? 4
  let questionId ← f.required 0 "question_id" Ident.deserialize
  let value ← f.required 1 "value" asBool
  let probability ← f.required 2 "probability" asFloat
  let confidence ← f.required 3 "confidence" asFloat
  some (.boolean questionId value probability confidence)

def deserializeScore (j : Json) : Option DecisionAnswer := do
  let f ← j.fields? 5
  let questionId ← f.required 0 "question_id" Ident.deserialize
  let expected ← f.required 1 "expected" asFloat
  let level ← f.required 2 "level" asStr
  let distribution ← f.required 3 "distribution" Distribution.deserialize
  let confidence ← f.required 4 "confidence" asFloat
  some (.score questionId expected level distribution confidence)

def deserialize (j : Json) : Option DecisionAnswer := do
  let raw ← match untag "type" j with
    | some ("choice", rest) => deserializeChoice rest
    | some ("boolean", rest) => deserializeBoolean rest
    | some ("score", rest) => deserializeScore rest
    | _ => none
  (raw.validate.map fun _ => raw).toOption

theorem fields_nodup (a : DecisionAnswer) : (a.fields.map Prod.fst).Nodup := by
  cases a <;> simp [fields]

theorem deserialize_serialize {a : DecisionAnswer} (h : a.validate = .ok ()) :
    deserialize a.serialize.1 = some a := by
  have hn := a.fields_nodup
  cases a with
  | choice questionId chosen distribution confidence =>
    rw [deserialize, serialize, Value.untag_struct hn rfl]
    simp [fields, deserializeChoice, Fields.required, h, Except.map, Except.toOption]
  | boolean questionId value probability confidence =>
    rw [deserialize, serialize, Value.untag_struct hn rfl]
    simp [fields, deserializeBoolean, Fields.required, h, Except.map, Except.toOption]
  | score questionId expected level distribution confidence =>
    rw [deserialize, serialize, Value.untag_struct hn rfl]
    simp [fields, deserializeScore, Fields.required, h, Except.map, Except.toOption]

end DecisionAnswer

def DecisionOutcome.names : List (String × DecisionOutcome) :=
  [("accept", .accept), ("verified", .verified), ("verify", .verify), ("abstain", .abstain),
    ("escalate", .escalate), ("no_valid_candidate", .noValidCandidate)]

def DecisionOutcome.serialize : DecisionOutcome → Value
  | .accept => .str "accept"
  | .verified => .str "verified"
  | .verify => .str "verify"
  | .abstain => .str "abstain"
  | .escalate => .str "escalate"
  | .noValidCandidate => .str "no_valid_candidate"

@[simp] theorem DecisionOutcome.asVariant_serialize (outcome : DecisionOutcome) :
    asVariant DecisionOutcome.names outcome.serialize.1 = some outcome := by
  cases outcome <;> rfl

namespace ConfidenceReport

def fields (r : ConfidenceReport) : List (String × Option Value) :=
  [("top_probability", some (.float r.topProbability)), ("margin", some (.float r.margin)),
    ("entropy", some (.float r.entropy)),
    ("calibrated_confidence", some (.float r.calibratedConfidence)),
    ("ood_score", some (.float r.oodScore)),
    ("verifier_agreement", some (.ofOption (r.verifierAgreement.map .bool)))]

def serialize (r : ConfidenceReport) : Value := .struct r.fields

def deserialize (j : Json) : Option ConfidenceReport := do
  let f ← j.fields? 6
  let topProbability ← f.required 0 "top_probability" asFloat
  let margin ← f.required 1 "margin" asFloat
  let entropy ← f.required 2 "entropy" asFloat
  let calibratedConfidence ← f.required 3 "calibrated_confidence" asFloat
  let oodScore ← f.required 4 "ood_score" asFloat
  let verifierAgreement ← f.optional 5 "verifier_agreement" asBool
  some ⟨topProbability, margin, entropy, calibratedConfidence, oodScore, verifierAgreement⟩

@[simp] theorem deserialize_serialize (r : ConfidenceReport) :
    deserialize r.serialize.1 = some r := by
  have hn : (r.fields.map Prod.fst).Nodup := by simp [fields]
  rw [serialize, Value.struct_val, deserialize, fields?_obj, Option.bind_eq_bind,
    Option.bind_some, Value.required_struct hn rfl, Value.asFloat_float,
    Value.required_struct hn rfl, Value.asFloat_float, Value.required_struct hn rfl,
    Value.asFloat_float, Value.required_struct hn rfl, Value.asFloat_float,
    Value.required_struct hn rfl, Value.asFloat_float,
    Value.optional_struct hn rfl _ rfl fun a _ => Value.asBool_bool a]
  rfl

end ConfidenceReport

namespace TraceEntry

def serialize (e : TraceEntry) : Value :=
  .struct [("node", some (.str e.node)),
    ("detail", some (.object (e.detail.mapValues fun _ value => value.serialize)))]

def deserialize (j : Json) : Option TraceEntry := do
  let f ← j.fields? 2
  let node ← f.required 0 "node" asStr
  let detail ← f.required 1 "detail" (asMap FactValue.deserialize)
  some ⟨node, detail⟩

def FitsWords (e : TraceEntry) : Prop := ∀ d ∈ e.detail.entries, d.2.FitsWords

theorem deserialize_serialize {e : TraceEntry} (h : e.FitsWords) :
    deserialize e.serialize.1 = some e := by
  have hdetail : asMap FactValue.deserialize
      (Value.object (e.detail.mapValues fun _ value => value.serialize)).1 = some e.detail :=
    Value.asMap_object fun d hd => FactValue.deserialize_serialize (h d hd)
  simp [deserialize, serialize, Fields.required, hdetail]

end TraceEntry

namespace DecisionTrace

def fields (t : DecisionTrace) : List (String × Option Value) :=
  [("trace_version", some (.nat t.traceVersion)),
    ("entries", some (.array (t.entries.map TraceEntry.serialize)))]

def serialize (t : DecisionTrace) : Value := .struct t.fields

def deserialize (j : Json) : Option DecisionTrace := do
  let f ← j.fields? 2
  let traceVersion ← f.required 0 "trace_version" (asUnsigned 32)
  let entries ← f.required 1 "entries" (asList TraceEntry.deserialize)
  some ⟨traceVersion, entries⟩

structure FitsWords (t : DecisionTrace) : Prop where
  traceVersion : t.traceVersion < 2 ^ 32
  entries : ∀ e ∈ t.entries, e.FitsWords

theorem deserialize_serialize {t : DecisionTrace} (h : t.FitsWords) :
    deserialize t.serialize.1 = some t := by
  have hentries := Value.asList_array (l := t.entries)
    fun e he => TraceEntry.deserialize_serialize (h.entries e he)
  have hn : (t.fields.map Prod.fst).Nodup := by simp [fields]
  rw [serialize, Value.struct_val, deserialize, fields?_obj, Option.bind_eq_bind,
    Option.bind_some, Value.required_struct hn rfl, Value.asUnsigned_nat h.traceVersion,
    Value.required_struct hn rfl, hentries]
  rfl

end DecisionTrace

namespace DecisionMetrics

def fields (m : DecisionMetrics) : List (String × Option Value) :=
  [("candidates_in", some (.nat m.candidatesIn)),
    ("candidates_out", some (.nat m.candidatesOut)), ("cache_hit", some (.bool m.cacheHit)),
    ("verification_triggered", some (.bool m.verificationTriggered))]

def serialize (m : DecisionMetrics) : Value := .struct m.fields

def deserialize (j : Json) : Option DecisionMetrics := do
  let f ← j.fields? 4
  let candidatesIn ← f.required 0 "candidates_in" (asUnsigned 64)
  let candidatesOut ← f.required 1 "candidates_out" (asUnsigned 64)
  let cacheHit ← f.required 2 "cache_hit" asBool
  let verificationTriggered ← f.required 3 "verification_triggered" asBool
  some ⟨candidatesIn, candidatesOut, cacheHit, verificationTriggered⟩

structure FitsWords (m : DecisionMetrics) : Prop where
  candidatesIn : m.candidatesIn < 2 ^ 64
  candidatesOut : m.candidatesOut < 2 ^ 64

theorem deserialize_serialize {m : DecisionMetrics} (h : m.FitsWords) :
    deserialize m.serialize.1 = some m := by
  have hn : (m.fields.map Prod.fst).Nodup := by simp [fields]
  rw [serialize, Value.struct_val, deserialize, fields?_obj, Option.bind_eq_bind,
    Option.bind_some, Value.required_struct hn rfl, Value.asUnsigned_nat h.candidatesIn,
    Value.required_struct hn rfl, Value.asUnsigned_nat h.candidatesOut,
    Value.required_struct hn rfl, Value.asBool_bool, Value.required_struct hn rfl,
    Value.asBool_bool]
  rfl

end DecisionMetrics

section Escalation

def EscalationReason.names : List (String × EscalationReason) :=
  [("below_confidence", .belowConfidence)]

def EscalationReason.serialize : EscalationReason → Value
  | .belowConfidence => .str "below_confidence"

def EscalationGateKind.names : List (String × EscalationGateKind) := [("confidence", .confidence)]

def EscalationGateKind.serialize : EscalationGateKind → Value
  | .confidence => .str "confidence"

def EscalationAction.names : List (String × EscalationAction) :=
  [("ask_the_host_model", .askTheHostModel)]

def EscalationAction.serialize : EscalationAction → Value
  | .askTheHostModel => .str "ask_the_host_model"

theorem EscalationReason.asVariant_serialize (reason : EscalationReason) :
    asVariant EscalationReason.names reason.serialize.1 = some reason := by
  cases reason
  rfl

theorem EscalationGateKind.asVariant_serialize (kind : EscalationGateKind) :
    asVariant EscalationGateKind.names kind.serialize.1 = some kind := by
  cases kind
  rfl

theorem EscalationAction.asVariant_serialize (action : EscalationAction) :
    asVariant EscalationAction.names action.serialize.1 = some action := by
  cases action
  rfl

namespace EscalationGate

def serialize (g : EscalationGate) : Value :=
  .struct [("kind", some g.kind.serialize), ("threshold", some (.float g.threshold)),
    ("observed", some (.float g.observed))]

def deserialize (j : Json) : Option EscalationGate := do
  let f ← j.fields? 3
  let kind ← f.required 0 "kind" (asVariant EscalationGateKind.names)
  let threshold ← f.required 1 "threshold" asFloat
  let observed ← f.required 2 "observed" asFloat
  some ⟨kind, threshold, observed⟩

@[simp] theorem deserialize_serialize (g : EscalationGate) :
    deserialize g.serialize.1 = some g := by
  simp [deserialize, serialize, Fields.required, EscalationGateKind.asVariant_serialize]

end EscalationGate

namespace EngineProvenance

def fields (e : EngineProvenance) : List (String × Option Value) :=
  [("model_id", some (.str e.modelId)), ("graph_version", some (.nat e.graphVersion)),
    ("calibration_version", some (.nat e.calibrationVersion)),
    ("engine_semver", some (.str e.engineSemver))]

def serialize (e : EngineProvenance) : Value := .struct e.fields

def deserialize (j : Json) : Option EngineProvenance := do
  let f ← j.fields? 4
  let modelId ← f.required 0 "model_id" asStr
  let graphVersion ← f.required 1 "graph_version" (asUnsigned 64)
  let calibrationVersion ← f.required 2 "calibration_version" (asUnsigned 64)
  let engineSemver ← f.required 3 "engine_semver" asStr
  some ⟨modelId, graphVersion, calibrationVersion, engineSemver⟩

structure FitsWords (e : EngineProvenance) : Prop where
  graphVersion : e.graphVersion < 2 ^ 64
  calibrationVersion : e.calibrationVersion < 2 ^ 64

theorem deserialize_serialize {e : EngineProvenance} (h : e.FitsWords) :
    deserialize e.serialize.1 = some e := by
  have hn : (e.fields.map Prod.fst).Nodup := by simp [fields]
  rw [serialize, Value.struct_val, deserialize, fields?_obj, Option.bind_eq_bind,
    Option.bind_some, Value.required_struct hn rfl, Value.asStr_str,
    Value.required_struct hn rfl, Value.asUnsigned_nat h.graphVersion,
    Value.required_struct hn rfl, Value.asUnsigned_nat h.calibrationVersion,
    Value.required_struct hn rfl, Value.asStr_str]
  rfl

end EngineProvenance

namespace EscalationQuestion

def serialize (q : EscalationQuestion) : Value :=
  .struct [("kind", some (.str q.kind)), ("text", some (.str q.text))]

def deserialize (j : Json) : Option EscalationQuestion := do
  let f ← j.fields? 2
  let kind ← f.required 0 "kind" asStr
  let text ← f.required 1 "text" asStr
  some ⟨kind, text⟩

@[simp] theorem deserialize_serialize (q : EscalationQuestion) :
    deserialize q.serialize.1 = some q := by
  simp [deserialize, serialize, Fields.required]

end EscalationQuestion

namespace StateSummary

def fields (s : StateSummary) : List (String × Option Value) :=
  [("text_bytes", some (.nat s.textBytes)), ("fact_count", some (.nat s.factCount)),
    ("image_count", some (.nat s.imageCount))]

def serialize (s : StateSummary) : Value := .struct s.fields

def deserialize (j : Json) : Option StateSummary := do
  let f ← j.fields? 3
  let textBytes ← f.required 0 "text_bytes" (asUnsigned 64)
  let factCount ← f.required 1 "fact_count" (asUnsigned 64)
  let imageCount ← f.required 2 "image_count" (asUnsigned 64)
  some ⟨textBytes, factCount, imageCount⟩

structure FitsWords (s : StateSummary) : Prop where
  textBytes : s.textBytes < 2 ^ 64
  factCount : s.factCount < 2 ^ 64
  imageCount : s.imageCount < 2 ^ 64

theorem deserialize_serialize {s : StateSummary} (h : s.FitsWords) :
    deserialize s.serialize.1 = some s := by
  have hn : (s.fields.map Prod.fst).Nodup := by simp [fields]
  rw [serialize, Value.struct_val, deserialize, fields?_obj, Option.bind_eq_bind,
    Option.bind_some, Value.required_struct hn rfl, Value.asUnsigned_nat h.textBytes,
    Value.required_struct hn rfl, Value.asUnsigned_nat h.factCount,
    Value.required_struct hn rfl, Value.asUnsigned_nat h.imageCount]
  rfl

end StateSummary

namespace CandidateEvidence

def serialize (e : CandidateEvidence) : Value :=
  .struct [("id", some e.id.serialize), ("why", some (.str e.why))]

def deserialize (j : Json) : Option CandidateEvidence := do
  let f ← j.fields? 2
  let id ← f.required 0 "id" Ident.deserialize
  let why ← f.required 1 "why" asStr
  some ⟨id, why⟩

@[simp] theorem deserialize_serialize (e : CandidateEvidence) :
    deserialize e.serialize.1 = some e := by
  simp [deserialize, serialize, Fields.required]

end CandidateEvidence

namespace PartialAnswerValue

def serialize : PartialAnswerValue → Value
  | boolean value => .bool value
  | text value => .str value

/-- Untagged: the first variant that reads. -/
def deserialize (j : Json) : Option PartialAnswerValue :=
  ((asBool j).map .boolean).or ((asStr j).map .text)

@[simp] theorem deserialize_serialize (v : PartialAnswerValue) :
    deserialize v.serialize.1 = some v := by
  cases v <;> rfl

end PartialAnswerValue

namespace PartialAnswer

def serialize (a : PartialAnswer) : Value :=
  .struct [("value", some a.value.serialize), ("probability", some (.float a.probability))]

def deserialize (j : Json) : Option PartialAnswer := do
  let f ← j.fields? 2
  let value ← f.required 0 "value" PartialAnswerValue.deserialize
  let probability ← f.required 1 "probability" asFloat
  some ⟨value, probability⟩

@[simp] theorem deserialize_serialize (a : PartialAnswer) :
    deserialize a.serialize.1 = some a := by
  simp [deserialize, serialize, Fields.required]

end PartialAnswer

namespace EscalationPayload

def fields (p : EscalationPayload) : List (String × Option Value) :=
  [("question", some p.question.serialize), ("state_summary", some p.stateSummary.serialize),
    ("candidates_ruled_in", some (.array (p.candidatesRuledIn.map CandidateEvidence.serialize))),
    ("candidates_ruled_out", some (.array (p.candidatesRuledOut.map CandidateEvidence.serialize))),
    ("partial_answer", some (.ofOption (p.partialAnswer.map PartialAnswer.serialize))),
    ("trace", some (.array (p.trace.map TraceEntry.serialize))),
    ("guidance", some (.str p.guidance)),
    ("truncated", Value.skipIf (p.truncated = false) (.bool p.truncated))]

def serialize (p : EscalationPayload) : Value := .struct p.fields

def deserialize (j : Json) : Option EscalationPayload := do
  let f ← j.fields? 8
  let question ← f.required 0 "question" EscalationQuestion.deserialize
  let stateSummary ← f.required 1 "state_summary" StateSummary.deserialize
  let candidatesRuledIn ←
    f.required 2 "candidates_ruled_in" (asList CandidateEvidence.deserialize)
  let candidatesRuledOut ←
    f.required 3 "candidates_ruled_out" (asList CandidateEvidence.deserialize)
  let partialAnswer ← f.optional 4 "partial_answer" PartialAnswer.deserialize
  let trace ← f.required 5 "trace" (asList TraceEntry.deserialize)
  let guidance ← f.required 6 "guidance" asStr
  let truncated ← f.defaulted 7 "truncated" false asBool
  some ⟨question, stateSummary, candidatesRuledIn, candidatesRuledOut, partialAnswer, trace,
    guidance, truncated⟩

structure FitsWords (p : EscalationPayload) : Prop where
  stateSummary : p.stateSummary.FitsWords
  trace : ∀ e ∈ p.trace, e.FitsWords

theorem fields_nodup (p : EscalationPayload) : (p.fields.map Prod.fst).Nodup := by
  have hnames : ["question", "state_summary", "candidates_ruled_in", "candidates_ruled_out",
      "partial_answer", "trace", "guidance", "truncated"].Nodup := by decide
  exact hnames

theorem deserialize_serialize {p : EscalationPayload} (h : p.FitsWords) :
    deserialize p.serialize.1 = some p := by
  have hn := p.fields_nodup
  have hread (l : List CandidateEvidence) :=
    Value.asList_array (l := l) fun e _ => CandidateEvidence.deserialize_serialize e
  have htrace := Value.asList_array (l := p.trace)
    fun e he => TraceEntry.deserialize_serialize (h.trace e he)
  rw [serialize, Value.struct_val, deserialize, fields?_obj, Option.bind_eq_bind,
    Option.bind_some, Value.required_struct hn rfl, EscalationQuestion.deserialize_serialize,
    Value.required_struct hn rfl, StateSummary.deserialize_serialize h.stateSummary,
    Value.required_struct hn rfl, hread, Value.required_struct hn rfl, hread,
    Value.optional_struct hn rfl _ rfl fun a _ => PartialAnswer.deserialize_serialize a,
    Value.required_struct hn rfl, htrace, Value.required_struct hn rfl, Value.asStr_str,
    Value.defaulted_struct_skipIf hn rfl _ (Value.asBool_bool p.truncated)]
  rfl

end EscalationPayload

namespace EscalationReport

def fields (r : EscalationReport) : List (String × Option Value) :=
  [("reason", some r.reason.serialize), ("gate", some r.gate.serialize),
    ("requested_action", some r.requestedAction.serialize), ("engine", some r.engine.serialize),
    ("payload", some r.payload.serialize)]

def serialize (r : EscalationReport) : Value := .struct r.fields

def deserialize (j : Json) : Option EscalationReport := do
  let f ← j.fields? 5
  let reason ← f.required 0 "reason" (asVariant EscalationReason.names)
  let gate ← f.required 1 "gate" EscalationGate.deserialize
  let requestedAction ← f.required 2 "requested_action" (asVariant EscalationAction.names)
  let engine ← f.required 3 "engine" EngineProvenance.deserialize
  let payload ← f.required 4 "payload" EscalationPayload.deserialize
  some ⟨reason, gate, requestedAction, engine, payload⟩

structure FitsWords (r : EscalationReport) : Prop where
  engine : r.engine.FitsWords
  payload : r.payload.FitsWords

theorem deserialize_serialize {r : EscalationReport} (h : r.FitsWords) :
    deserialize r.serialize.1 = some r := by
  have hn : (r.fields.map Prod.fst).Nodup := by simp [fields]
  rw [serialize, Value.struct_val, deserialize, fields?_obj, Option.bind_eq_bind,
    Option.bind_some, Value.required_struct hn rfl, EscalationReason.asVariant_serialize,
    Value.required_struct hn rfl, EscalationGate.deserialize_serialize,
    Value.required_struct hn rfl, EscalationAction.asVariant_serialize,
    Value.required_struct hn rfl, EngineProvenance.deserialize_serialize h.engine,
    Value.required_struct hn rfl, EscalationPayload.deserialize_serialize h.payload]
  rfl

end EscalationReport

end Escalation

namespace DecisionResponse

def fields (r : DecisionResponse) : List (String × Option Value) :=
  [("answers", some (.array (r.answers.map DecisionAnswer.serialize))),
    ("outcome", some r.outcome.serialize), ("confidence", some r.confidence.serialize),
    ("trace", some r.trace.serialize), ("metrics", some r.metrics.serialize),
    ("escalation", r.escalation.map EscalationReport.serialize)]

def serialize (r : DecisionResponse) : Value := .struct r.fields

variable [RustStd]

/-- A report is attached to a response that already stands. -/
def attach (escalation : Option EscalationReport) (r : DecisionResponse) :
    CoreResult DecisionResponse :=
  match escalation with
  | some report => r.withEscalation report
  | none => .ok r

def deserialize (j : Json) : Option DecisionResponse := do
  let f ← j.fields? 6
  let answers ← f.required 0 "answers" (asList DecisionAnswer.deserialize)
  let outcome ← f.required 1 "outcome" (asVariant DecisionOutcome.names)
  let confidence ← f.required 2 "confidence" ConfidenceReport.deserialize
  let trace ← f.required 3 "trace" DecisionTrace.deserialize
  let metrics ← f.required 4 "metrics" DecisionMetrics.deserialize
  let escalation ← f.defaulted 5 "escalation" none (asOption EscalationReport.deserialize)
  (do
    let response ← DecisionResponse.new answers outcome confidence trace metrics
    attach escalation response).toOption

structure FitsWords (r : DecisionResponse) : Prop where
  trace : r.trace.FitsWords
  metrics : r.metrics.FitsWords
  escalation : ∀ report ∈ r.escalation, report.FitsWords

/-- The constructors give back the response they built. -/
def Built (r : DecisionResponse) : Prop :=
  (do
    let response ← DecisionResponse.new r.answers r.outcome r.confidence r.trace r.metrics
    attach r.escalation response) = .ok r

section Constructors

variable {answers : List DecisionAnswer} {outcome : DecisionOutcome}
  {confidence : ConfidenceReport} {trace : DecisionTrace} {metrics : DecisionMetrics}
  {escalation : Option EscalationReport} {r : DecisionResponse}

theorem parts_of_new
    (h : (do
      let response ← DecisionResponse.new answers outcome confidence trace metrics
      attach escalation response) = .ok r) :
    r.answers = answers ∧ r.outcome = outcome ∧ r.confidence = confidence ∧ r.trace = trace ∧
      r.metrics = metrics ∧ r.escalation = escalation := by
  obtain ⟨response, hnew, hattach⟩ := Result.bind_ok.mp h
  obtain ⟨rfl, rfl, rfl, rfl, rfl, hnone⟩ := new_ok hnew
  cases escalation with
  | none =>
    cases hattach
    simp [hnone]
  | some report =>
    simp only [attach, withEscalation] at hattach
    split at hattach
    · cases hattach
    · split at hattach
      · cases hattach
        simp
      · cases hattach

theorem built_of_new
    (h : (do
      let response ← DecisionResponse.new answers outcome confidence trace metrics
      attach escalation response) = .ok r) : r.Built := by
  obtain ⟨ha, ho, hc, ht, hm, he⟩ := parts_of_new h
  rw [Built, ha, ho, hc, ht, hm, he]
  exact h

theorem built_of_deserialize {j : Json} (h : deserialize j = some r) : r.Built := by
  rw [deserialize] at h
  obtain ⟨_, -, h⟩ := Option.bind_eq_some_iff.mp h
  obtain ⟨_, -, h⟩ := Option.bind_eq_some_iff.mp h
  obtain ⟨_, -, h⟩ := Option.bind_eq_some_iff.mp h
  obtain ⟨_, -, h⟩ := Option.bind_eq_some_iff.mp h
  obtain ⟨_, -, h⟩ := Option.bind_eq_some_iff.mp h
  obtain ⟨_, -, h⟩ := Option.bind_eq_some_iff.mp h
  obtain ⟨_, -, h⟩ := Option.bind_eq_some_iff.mp h
  exact built_of_new (Result.toOption_eq_some.mp h)

end Constructors

theorem deserialize_serialize {r : DecisionResponse} (hw : r.FitsWords) (hb : r.Built) :
    deserialize r.serialize.1 = some r := by
  have hn : (r.fields.map Prod.fst).Nodup := by simp [fields]
  have hanswers := Value.asList_array (l := r.answers)
    fun a ha => DecisionAnswer.deserialize_serialize (r.answers_valid a ha)
  rw [serialize, Value.struct_val, deserialize, fields?_obj, Option.bind_eq_bind,
    Option.bind_some, Value.required_struct hn rfl, hanswers,
    Value.required_struct hn rfl, DecisionOutcome.asVariant_serialize,
    Value.required_struct hn rfl, ConfidenceReport.deserialize_serialize,
    Value.required_struct hn rfl, DecisionTrace.deserialize_serialize hw.trace,
    Value.required_struct hn rfl, DecisionMetrics.deserialize_serialize hw.metrics,
    Value.defaulted_struct hn rfl _ rfl fun a ha =>
      EscalationReport.deserialize_serialize (hw.escalation a ha)]
  simp only [Option.bind_eq_bind, Option.bind_some]
  rw [hb]
  rfl

end DecisionResponse

end OpenCodifier
