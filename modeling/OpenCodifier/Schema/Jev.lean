import OpenCodifier.Lib.JsonOrder
import OpenCodifier.Schema.Codec
import OpenCodifier.Schema.StateSerde
set_option autoImplicit false

namespace OpenCodifier

open Json

namespace Jev

def maxCriteria : Nat := 255

/-- One question as it arrives; criteria keep the order they are read in. -/
structure QuestionWire where
  kind : String
  instructions : String
  criteria : Option (List (String × String))

structure RequestWire where
  state : String
  model : String
  facts : Option (List (String × Json))
  questions : List (String × QuestionWire)

def QuestionWire.deserialize (j : Json) : Option QuestionWire := do
  let f ← j.fields? 3
  if f.distinct ["type", "instructions", "criteria"] then do
    let kind ← f.required 0 "type" asStr
    let instructions ← f.required 1 "instructions" asStr
    let criteria ← f.defaulted 2 "criteria" none (asOption (asOrdered asStr))
    some ⟨kind, instructions, criteria⟩
  else none

def asSorted (j : Json) : Option (List (String × Json)) :=
  match j.normalize with
  | .obj fields => some fields
  | _ => none

def RequestWire.deserialize (j : Json) : Option RequestWire := do
  let f ← j.fields? 4
  if f.distinct ["state", "model", "facts", "questions"] then do
    let state ← f.required 0 "state" asStr
    let model ← f.required 1 "model" asStr
    let facts ← f.defaulted 2 "facts" none (asOption asSorted)
    let questions ← f.required 3 "questions" (asOrdered QuestionWire.deserialize)
    some ⟨state, model, facts, questions⟩
  else none

def missingName (text : String) : Option String :=
  let mark := "missing field `".toList
  if mark.isPrefixOf text.toList then
    some (String.ofList ((text.toList.drop mark.length).takeWhile fun c => c ∉ "`".toList))
  else none

/-- The closest schema error for a refused question. -/
def wireError (field text : String) : SchemaError :=
  match missingName text with
  | some name => .missingField name (" in Jev question `" ++ field ++ "`")
  | none => .invalidValue field text

variable [RustStd]

section Questions

def requiredCriteria (q : QuestionWire) : SchemaResult (List (String × String)) :=
  match q.criteria with
  | some criteria => .ok criteria
  | none => .error (.missing "criteria")

def choice (id instructions : String) (criteria : List (String × String)) (limits : Limits) :
    SchemaResult ChoiceQuestion :=
  if criteria = [] then
    .error (.invalidValue id "a choice question needs at least one criterion")
  else if maxCriteria < criteria.length then
    .error (.limitExceeded "max_criteria" criteria.length maxCriteria)
  else do
    enforceCandidateLimit criteria.length limits
    let candidates ← criteria.mapM fun e => orInvalid id (Candidate.new e.1 e.2)
    ofCoreSchema (ChoiceQuestion.new id instructions candidates)

/-- The descriptions of the levels are dropped. -/
def score (id instructions : String) (criteria : List (String × String)) (limits : Limits) :
    SchemaResult ScoreQuestion :=
  if criteria.length < 2 then
    .error (.invalidValue id
      ("a score needs at least two levels, got " ++ toString criteria.length))
  else do
    enforceCandidateLimit criteria.length limits
    let levels ← criteria.mapM fun e => orInvalid id (ScoreLevel.new e.1)
    ofCoreSchema (ScoreQuestion.new id instructions levels)

def question (id : String) (q : QuestionWire) (limits : Limits) :
    SchemaResult DecisionQuestion := do
  let instructions ← nonEmpty "instructions" q.instructions
  if q.kind = "choice" then do
    let criteria ← requiredCriteria q
    DecisionQuestion.choice <$> choice id instructions criteria limits
  else if q.kind = "score" then do
    let criteria ← requiredCriteria q
    DecisionQuestion.score <$> score id instructions criteria limits
  else if q.kind = "noul" then
    DecisionQuestion.boolean <$> ofCoreSchema (BooleanQuestion.new id instructions)
  else .error (.invalidType (id ++ ".type") "choice|score|noul" q.kind)

theorem score_ok {id instructions : String} {criteria : List (String × String)} {limits : Limits}
    {q : ScoreQuestion} (h : score id instructions criteria limits = .ok q) :
    q.id.text = id ∧ q.levels.map ScoreLevel.label = criteria.map Prod.fst := by
  unfold score at h
  split at h
  · cases h
  · obtain ⟨-, h⟩ := Result.bind_unit_ok.mp h
    obtain ⟨levels, hlevels, h⟩ := Result.bind_ok.mp h
    obtain ⟨hid, hq⟩ := ScoreQuestion.new_ok (ofCoreSchema_ok h)
    rw [hq]
    exact ⟨hid, Result.mapM_map_eq hlevels fun e level hlevel =>
      ScoreLevel.new_ok (orInvalid_ok hlevel)⟩

theorem question_score {id : String} {w : QuestionWire} {limits : Limits} {q : ScoreQuestion}
    (h : question id w limits = .ok (.score q)) :
    ∃ criteria, w.criteria = some criteria ∧ q.id.text = id ∧
      q.levels.map ScoreLevel.label = criteria.map Prod.fst := by
  obtain ⟨instructions, -, h⟩ := Result.bind_ok.mp h
  split at h
  · obtain ⟨criteria, -, h⟩ := Result.bind_ok.mp h
    obtain ⟨c, -, h⟩ := Result.map_ok.mp h
    cases h
  · split at h
    · obtain ⟨criteria, hcriteria, h⟩ := Result.bind_ok.mp h
      obtain ⟨s, hs, h⟩ := Result.map_ok.mp h
      cases h
      unfold requiredCriteria at hcriteria
      split at hcriteria
      · rename_i criteria' hw
        cases hcriteria
        exact ⟨criteria, hw, score_ok hs⟩
      · cases hcriteria
    · split at h
      · obtain ⟨b, -, h⟩ := Result.map_ok.mp h
        cases h
      · cases h

end Questions

variable [SerdeTexts]

def addFact (s : State) (e : String × Json) : SchemaResult State :=
  match FactValue.deserialize e.2 with
  | some fact => .ok (s.withFact e.1 fact)
  | none => .error (.invalidValue e.1 (SerdeTexts.refusal "FactValue" e.2))

def build (wire : RequestWire) (limits : Limits) : SchemaResult DecisionRequest := do
  enforceLimits wire.state.utf8ByteSize wire.questions.length limits
  let state ← (wire.facts.getD []).foldlM addFact
    ((State.fromText wire.state).withFact "model" (.text wire.model))
  let questions ← wire.questions.mapM fun e => question e.1 e.2 limits
  ofCoreSchema (DecisionRequest.new state questions .defaults { limits })

/-- From the text, which a document tree stands for. -/
def decodeRequestStr (text : Except String Json) (limits : Limits) :
    SchemaResult DecisionRequest :=
  match text with
  | .error reason => .error (.json reason)
  | .ok document =>
    match RequestWire.deserialize document with
    | some wire => build wire limits
    | none => .error (.json (SerdeTexts.refusal "RequestWire" document))

def readQuestion (e : String × Json) : SchemaResult (String × QuestionWire) :=
  match QuestionWire.deserialize e.2 with
  | some q => .ok (e.1, q)
  | none => .error (wireError e.1 (SerdeTexts.refusal "QuestionWire" e.2))

def readFacts (fields : List (String × Json)) : SchemaResult (Option (List (String × Json))) :=
  match lookup fields "facts" with
  | none => .ok none
  | some .null => .ok none
  | some value => some <$> asObject "facts" value

/-- From a value, whose maps are sorted. -/
def decodeRequest (payload : Value) (limits : Limits) : SchemaResult DecisionRequest := do
  let body ← asObject "payload" payload.1
  let state ← requiredString body "state"
  let model ← requiredString body "model"
  let facts ← readFacts body
  let questions ← requiredObject body "questions"
  let ordered ← questions.mapM readQuestion
  build ⟨state, model, facts, ordered⟩ limits

def indexDistribution (d : Distribution) : Value :=
  .object (OrdMap.ofList (d.entries.zipIdx.map fun e => (toString e.2, .float e.1.probability)))

def encodeAnswer : DecisionAnswer → String × Value
  | .choice id choice _ _ => (id.text, .str choice.text)
  | .boolean id value probability _ =>
    (id.text, .float (if value then probability else 1 - probability))
  | .score id _ _ d _ => (id.text, indexDistribution d)

def encodeResponse (r : DecisionResponse) : SchemaResult Value :=
  .ok (.struct [("answers", some (.object (OrdMap.ofList (r.answers.map encodeAnswer))))])

def format : WireFormat where
  name := "jev"
  decodeRequest := decodeRequest
  encodeResponse := encodeResponse

end Jev

end OpenCodifier
