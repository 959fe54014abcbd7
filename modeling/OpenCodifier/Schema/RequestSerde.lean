import OpenCodifier.Core.Request
import OpenCodifier.Schema.StateSerde
import OpenCodifier.Schema.PolicySerde
set_option autoImplicit false

namespace OpenCodifier

open Json

/-- Durations are kept in nanoseconds. -/
abbrev Duration := Nat

namespace Duration

def perSecond : Nat := 1000000000

def asSecs (d : Duration) : Nat := d / perSecond

def fields (d : Duration) : List (String × Option Value) :=
  [("secs", some (.nat (d / perSecond))), ("nanos", some (.nat (d % perSecond)))]

def serialize (d : Duration) : Value := .struct d.fields

/-- Unlike a derived struct, a duration refuses further names. -/
def deserialize (j : Json) : Option Duration := do
  let f ← j.fields? 2
  if !f.closed ["secs", "nanos"] then none
  let secs ← f.required 0 "secs" (asUnsigned 64)
  let nanos ← f.required 1 "nanos" (asUnsigned 32)
  if secs + nanos / perSecond < 2 ^ 64 then some (secs * perSecond + nanos) else none

def FitsWords (d : Duration) : Prop := d / perSecond < 2 ^ 64

theorem deserialize_serialize {d : Duration} (h : d.FitsWords) :
    deserialize (serialize d).1 = some d := by
  have hn : (d.fields.map Prod.fst).Nodup := by simp [fields]
  have hclosed : (Fields.keyed (Value.structFields d.fields)).closed ["secs", "nanos"] = true :=
    Value.closed_struct hn (by simp [fields])
  have hnanos : d % perSecond < 2 ^ 32 := (Nat.mod_lt d (by decide)).trans (by decide)
  have hcarry : d % perSecond / perSecond = 0 := Nat.div_eq_of_lt (Nat.mod_lt d (by decide))
  have hsum : d / perSecond * perSecond + d % perSecond = d := Nat.div_add_mod' d perSecond
  rw [serialize, Value.struct_val, deserialize, fields?_obj, Option.bind_eq_bind,
    Option.bind_some, hclosed, Value.required_struct hn rfl, Value.asUnsigned_nat h,
    Value.required_struct hn rfl, Value.asUnsigned_nat hnanos]
  simp only [Bool.not_true, Bool.false_eq_true, if_false, Option.bind_eq_bind, Option.bind_some,
    hcarry, Nat.add_zero, hsum]
  exact if_pos h

end Duration

namespace Limits

def fields (l : Limits) : List (String × Option Value) :=
  [("max_input_bytes", some (.nat l.maxInputBytes)),
    ("max_questions", some (.nat l.maxQuestions)),
    ("max_candidates", some (.nat l.maxCandidates)),
    ("max_graph_nodes", some (.nat l.maxGraphNodes)),
    ("max_execution_time", some (Duration.serialize l.maxExecutionTime)),
    ("max_retrieval_results", some (.nat l.maxRetrievalResults)),
    ("max_image_bytes", Value.skipIf (l.maxImageBytes = 2097152) (.nat l.maxImageBytes)),
    ("max_images", Value.skipIf (l.maxImages = 4) (.nat l.maxImages))]

def serialize (l : Limits) : Value := .struct l.fields

def deserialize (j : Json) : Option Limits := do
  let f ← j.fields? 8
  let maxInputBytes ← f.required 0 "max_input_bytes" (asUnsigned 64)
  let maxQuestions ← f.required 1 "max_questions" (asUnsigned 64)
  let maxCandidates ← f.required 2 "max_candidates" (asUnsigned 64)
  let maxGraphNodes ← f.required 3 "max_graph_nodes" (asUnsigned 64)
  let maxExecutionTime ← f.required 4 "max_execution_time" Duration.deserialize
  let maxRetrievalResults ← f.required 5 "max_retrieval_results" (asUnsigned 64)
  let maxImageBytes ← f.defaulted 6 "max_image_bytes" 2097152 (asUnsigned 64)
  let maxImages ← f.defaulted 7 "max_images" 4 (asUnsigned 64)
  some ⟨maxInputBytes, maxQuestions, maxCandidates, maxGraphNodes, maxExecutionTime,
    maxRetrievalResults, maxImageBytes, maxImages⟩

structure FitsWords (l : Limits) : Prop where
  maxInputBytes : l.maxInputBytes < 2 ^ 64
  maxQuestions : l.maxQuestions < 2 ^ 64
  maxCandidates : l.maxCandidates < 2 ^ 64
  maxGraphNodes : l.maxGraphNodes < 2 ^ 64
  maxExecutionTime : Duration.FitsWords l.maxExecutionTime
  maxRetrievalResults : l.maxRetrievalResults < 2 ^ 64
  maxImageBytes : l.maxImageBytes < 2 ^ 64
  maxImages : l.maxImages < 2 ^ 64

theorem fields_nodup (l : Limits) : (l.fields.map Prod.fst).Nodup := by
  have hnames : ["max_input_bytes", "max_questions", "max_candidates", "max_graph_nodes",
      "max_execution_time", "max_retrieval_results", "max_image_bytes", "max_images"].Nodup := by
    decide
  exact hnames

theorem deserialize_serialize {l : Limits} (h : l.FitsWords) :
    deserialize l.serialize.1 = some l := by
  have hn := l.fields_nodup
  rw [serialize, Value.struct_val, deserialize, fields?_obj, Option.bind_eq_bind,
    Option.bind_some, Value.required_struct hn rfl, Value.asUnsigned_nat h.maxInputBytes,
    Value.required_struct hn rfl, Value.asUnsigned_nat h.maxQuestions,
    Value.required_struct hn rfl, Value.asUnsigned_nat h.maxCandidates,
    Value.required_struct hn rfl, Value.asUnsigned_nat h.maxGraphNodes,
    Value.required_struct hn rfl, Duration.deserialize_serialize h.maxExecutionTime,
    Value.required_struct hn rfl, Value.asUnsigned_nat h.maxRetrievalResults,
    Value.defaulted_struct_skipIf hn rfl _ (Value.asUnsigned_nat h.maxImageBytes),
    Value.defaulted_struct_skipIf hn rfl _ (Value.asUnsigned_nat h.maxImages)]
  rfl

end Limits

namespace RequestMetadata

def fields (m : RequestMetadata) : List (String × Option Value) :=
  [("request_id", some (.ofOption (m.requestId.map .str))),
    ("limits", some m.limits.serialize),
    ("family", m.family.map Ident.serialize)]

def serialize (m : RequestMetadata) : Value := .struct m.fields

def deserialize (j : Json) : Option RequestMetadata := do
  let f ← j.fields? 3
  let requestId ← f.optional 0 "request_id" asStr
  let limits ← f.required 1 "limits" Limits.deserialize
  let family ← f.defaulted 2 "family" none (asOption Ident.deserialize)
  some ⟨requestId, limits, family⟩

theorem deserialize_serialize {m : RequestMetadata} (h : m.limits.FitsWords) :
    deserialize m.serialize.1 = some m := by
  have hn : (m.fields.map Prod.fst).Nodup := by simp [fields]
  rw [serialize, Value.struct_val, deserialize, fields?_obj, Option.bind_eq_bind,
    Option.bind_some, Value.optional_struct hn rfl _ rfl fun a _ => Value.asStr_str a,
    Value.required_struct hn rfl, Limits.deserialize_serialize h,
    Value.defaulted_struct hn rfl _ rfl fun a _ => Ident.deserialize_serialize a]
  rfl

end RequestMetadata

section Questions

namespace Candidate

def serialize (c : Candidate) : Value :=
  .struct [("id", some c.id.serialize), ("description", some (.str c.description))]

def deserialize (j : Json) : Option Candidate := do
  let f ← j.fields? 2
  let id ← f.required 0 "id" asStr
  let description ← f.required 1 "description" asStr
  (Candidate.new id description).toOption

theorem new_self (c : Candidate) : Candidate.new c.id.text c.description = .ok c := by
  simp [Candidate.new, Ident.new_text, bind, Except.bind, pure, Except.pure]

theorem deserialize_serialize (c : Candidate) : deserialize c.serialize.1 = some c := by
  simp [deserialize, serialize, Ident.serialize, Fields.required, new_self, Except.toOption]

end Candidate

namespace ScoreLevel

def serialize (l : ScoreLevel) : Value := .struct [("label", some (.str l.label))]

def deserialize (j : Json) : Option ScoreLevel := do
  let f ← j.fields? 1
  let label ← f.required 0 "label" asStr
  (ScoreLevel.new label).toOption

theorem deserialize_serialize (l : ScoreLevel) : deserialize l.serialize.1 = some l := by
  have hnew : ScoreLevel.new l.label = .ok l := dif_neg l.label_ne
  simp [deserialize, serialize, Fields.required, hnew, Except.toOption]

end ScoreLevel

def ChoiceQuestion.deserialize (j : Json) : Option ChoiceQuestion := do
  let f ← j.fields? 3
  let id ← f.required 0 "id" asStr
  let text ← f.required 1 "text" asStr
  let candidates ← f.required 2 "candidates" (asList Candidate.deserialize)
  (ChoiceQuestion.new id text candidates).toOption

def BooleanQuestion.deserialize (j : Json) : Option BooleanQuestion := do
  let f ← j.fields? 2
  let id ← f.required 0 "id" asStr
  let text ← f.required 1 "text" asStr
  (BooleanQuestion.new id text).toOption

def ScoreQuestion.deserialize (j : Json) : Option ScoreQuestion := do
  let f ← j.fields? 3
  let id ← f.required 0 "id" asStr
  let text ← f.required 1 "text" asStr
  let levels ← f.required 2 "levels" (asList ScoreLevel.deserialize)
  (ScoreQuestion.new id text levels).toOption

theorem ChoiceQuestion.new_ok_iff {id text : String} {candidates : List Candidate}
    {q : ChoiceQuestion} : ChoiceQuestion.new id text candidates = .ok q ↔
      q.id.text = id ∧ q.text = text ∧ q.candidates = candidates := by
  refine ⟨new_ok, ?_⟩
  rintro ⟨rfl, rfl, rfl⟩
  exact q.new_self

theorem BooleanQuestion.new_self (q : BooleanQuestion) :
    BooleanQuestion.new q.id.text q.text = .ok q := by
  rw [BooleanQuestion.new, dif_neg q.text_ne, Ident.new_text]
  rfl

theorem BooleanQuestion.new_ok_iff {id text : String} {q : BooleanQuestion} :
    BooleanQuestion.new id text = .ok q ↔ q.id.text = id ∧ q.text = text := by
  refine ⟨new_ok, ?_⟩
  rintro ⟨rfl, rfl⟩
  exact q.new_self

theorem ScoreQuestion.new_self (q : ScoreQuestion) :
    ScoreQuestion.new q.id.text q.text q.levels = .ok q := by
  have hfirst := (firstRepeat_none [] (q.levels.map ScoreLevel.label)).mpr ⟨q.unique, by simp⟩
  rw [ScoreQuestion.new, Ident.new_text]
  simp only [bind, Except.bind]
  rw [dif_neg q.text_ne, dif_neg (not_lt.mpr q.two_levels)]
  split
  · rename_i h
    rw [hfirst] at h
    cases h
  · rfl

theorem ScoreQuestion.new_ok_iff {id text : String} {levels : List ScoreLevel}
    {q : ScoreQuestion} : ScoreQuestion.new id text levels = .ok q ↔
      q.id.text = id ∧ q.text = text ∧ q.levels = levels := by
  constructor
  · exact fun h => ⟨(new_ok h).1, new_text h, (new_ok h).2⟩
  · rintro ⟨rfl, rfl, rfl⟩
    exact q.new_self

namespace DecisionQuestion

def fields : DecisionQuestion → List (String × Option Value)
  | choice q =>
    [("type", some (.str "choice")), ("id", some q.id.serialize), ("text", some (.str q.text)),
      ("candidates", some (.array (q.candidates.map Candidate.serialize)))]
  | boolean q =>
    [("type", some (.str "boolean")), ("id", some q.id.serialize), ("text", some (.str q.text))]
  | score q =>
    [("type", some (.str "score")), ("id", some q.id.serialize), ("text", some (.str q.text)),
      ("levels", some (.array (q.levels.map ScoreLevel.serialize)))]

def serialize (q : DecisionQuestion) : Value := .struct q.fields

def deserialize (j : Json) : Option DecisionQuestion :=
  match untag "type" j with
  | some ("choice", rest) => (ChoiceQuestion.deserialize rest).map .choice
  | some ("boolean", rest) => (BooleanQuestion.deserialize rest).map .boolean
  | some ("score", rest) => (ScoreQuestion.deserialize rest).map .score
  | _ => none

theorem fields_nodup (q : DecisionQuestion) : (q.fields.map Prod.fst).Nodup := by
  cases q <;> simp [fields]

theorem deserialize_serialize (q : DecisionQuestion) : deserialize q.serialize.1 = some q := by
  have hn := q.fields_nodup
  cases q with
  | choice q =>
    have hread := Value.asList_array (l := q.candidates)
      fun c _ => Candidate.deserialize_serialize c
    rw [deserialize, serialize, Value.untag_struct hn rfl]
    simp [fields, ChoiceQuestion.deserialize, Fields.required, Ident.serialize, hread,
      ChoiceQuestion.new_self, Except.toOption]
  | boolean q =>
    rw [deserialize, serialize, Value.untag_struct hn rfl]
    simp [fields, BooleanQuestion.deserialize, Fields.required, Ident.serialize,
      BooleanQuestion.new_self, Except.toOption]
  | score q =>
    have hread := Value.asList_array (l := q.levels) fun l _ => ScoreLevel.deserialize_serialize l
    rw [deserialize, serialize, Value.untag_struct hn rfl]
    simp [fields, ScoreQuestion.deserialize, Fields.required, Ident.serialize, hread,
      ScoreQuestion.new_self, Except.toOption]

end DecisionQuestion

end Questions

namespace DecisionRequest

def serialize (r : DecisionRequest) : Value :=
  .struct [("state", some r.state.serialize),
    ("questions", some (.array (r.questions.map DecisionQuestion.serialize))),
    ("policy", some r.policy.serialize), ("metadata", some r.metadata.serialize)]

def deserialize [RustStd] (j : Json) : Option DecisionRequest := do
  let f ← j.fields? 4
  let state ← f.required 0 "state" State.deserialize
  let questions ← f.required 1 "questions" (asList DecisionQuestion.deserialize)
  let policy ← f.defaulted 2 "policy" .defaults DecisionPolicy.deserialize
  let metadata ← f.defaulted 3 "metadata" {} RequestMetadata.deserialize
  (DecisionRequest.new state questions policy metadata).toOption

structure FitsWords (r : DecisionRequest) : Prop where
  state : r.state.FitsWords
  limits : r.metadata.limits.FitsWords

/-- Every image of the request stays under the wire ceiling. -/
def FitsWire (r : DecisionRequest) : Prop := ∀ image ∈ r.state.images, image.FitsWire

theorem built_of_deserialize [RustStd] {j : Json} {r : DecisionRequest}
    (h : deserialize j = some r) :
    DecisionRequest.new r.state r.questions r.policy r.metadata = .ok r := by
  rw [deserialize] at h
  obtain ⟨_, -, h⟩ := Option.bind_eq_some_iff.mp h
  obtain ⟨_, -, h⟩ := Option.bind_eq_some_iff.mp h
  obtain ⟨_, -, h⟩ := Option.bind_eq_some_iff.mp h
  obtain ⟨_, -, h⟩ := Option.bind_eq_some_iff.mp h
  obtain ⟨_, -, h⟩ := Option.bind_eq_some_iff.mp h
  exact new_self (Result.toOption_eq_some.mp h)

theorem deserialize_serialize [RustStd] {r : DecisionRequest} (hw : r.FitsWords)
    (hi : r.FitsWire)
    (hnew : DecisionRequest.new r.state r.questions r.policy r.metadata = .ok r) :
    deserialize r.serialize.1 = some r := by
  have hquestions := Value.asList_array (l := r.questions)
    fun q _ => DecisionQuestion.deserialize_serialize q
  simp [deserialize, serialize, Fields.required, Fields.defaulted, hquestions,
    State.deserialize_serialize hw.state hi, DecisionPolicy.deserialize_serialize,
    RequestMetadata.deserialize_serialize hw.limits, hnew, Except.toOption]

theorem deserialize_serialize_none [RustStd] {r : DecisionRequest} (h : ¬ r.FitsWire) :
    deserialize r.serialize.1 = none := by
  have himage : ∃ image ∈ r.state.images, ¬ image.FitsWire := by
    simpa [FitsWire] using h
  simp [deserialize, serialize, Fields.required, State.deserialize_serialize_none himage]

end DecisionRequest

end OpenCodifier
