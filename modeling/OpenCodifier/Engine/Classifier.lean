import OpenCodifier.Lib.Extremum
import OpenCodifier.Core.Response
import OpenCodifier.Engine.Lexical
import OpenCodifier.Engine.Error
set_option autoImplicit false

namespace OpenCodifier

/-- Something that can decide one question about one state. Implementations are
pure; the extended form may reuse an index and may report lexical support. -/
structure Classifier where
  modelId : String
  decide : State → DecisionQuestion → EngineResult Distribution
  decideExtended : State → DecisionQuestion → Option Lexical.Bm25Index →
    EngineResult (Distribution × Option ℚ)

/-- The trait's default for the extended form: no index, no lexical support. -/
def Classifier.ofDecide (modelId : String)
    (decide : State → DecisionQuestion → EngineResult Distribution) : Classifier where
  modelId := modelId
  decide := decide
  decideExtended := fun state question _ => do
    let d ← decide state question
    pure (d, none)

def answerKeys : DecisionQuestion → List String
  | .choice q => q.candidates.map fun c => c.id.text
  | .boolean _ => ["true", "false"]
  | .score q => q.levels.map ScoreLevel.label

namespace MockClassifier

def uniform (question : DecisionQuestion) : EngineResult Distribution :=
  let keys := answerKeys question
  if keys = [] then
    .error (.invalidDistribution question.id.text "question kind has no answer keys")
  else ofCore (Distribution.fromPairs (keys.map fun key => (key, 1 / (keys.length : ℚ))))

/-- Scripted questions answer from the table, the others uniformly. -/
def classifier (modelId : String) (scripted : OrdMap String Distribution) : Classifier :=
  .ofDecide modelId fun _ question =>
    match scripted.get? question.id.text with
    | some d => .ok d
    | none => uniform question

end MockClassifier

namespace LexicalClassifier

variable [RustStd]

def queryFor (state : State) (question : DecisionQuestion) : String :=
  question.text ++ " " ++ state.text

def distributionOver (question : QuestionId) (keys : List String) (scores : List ℚ) :
    EngineResult Distribution :=
  match Distribution.fromPairs (keys.zip (Lexical.softmax scores)) with
  | .ok d => .ok d
  | .error e => .error (.invalidDistribution question.text e.display)

/-- The position of the best score; among equals the last one. -/
def bestPosition (scores : List ℚ) : Nat :=
  ((Extremum.lastMax Prod.fst scores.zipIdx).map Prod.snd).getD 0

def scoreDocuments (index : Lexical.Bm25Index) (query : String) : List ℚ × ℚ :=
  let scores := Lexical.boundLexicalSpread (index.scoreAll query)
  (scores, index.coverage (bestPosition scores) query)

/-- A handed-off index is used when it has the right number of documents. -/
def usableIndex (documents : List String) (index : Option Lexical.Bm25Index) :
    Lexical.Bm25Index :=
  match index with
  | some prebuilt =>
    if prebuilt.len = documents.length then prebuilt else Lexical.Bm25Index.new documents
  | none => Lexical.Bm25Index.new documents

def decideChoiceWithSupport (query : String) (question : ChoiceQuestion)
    (index : Option Lexical.Bm25Index) : EngineResult (Distribution × ℚ) := do
  let documents := question.candidates.map Candidate.description
  let scored := scoreDocuments (usableIndex documents index) query
  let d ← distributionOver question.id (question.candidates.map fun c => c.id.text) scored.1
  pure (d, scored.2)

def decideBooleanWithSupport (stateText : String) (question : BooleanQuestion) :
    EngineResult (Distribution × ℚ) := do
  let index := Lexical.Bm25Index.new [question.text]
  let evidence := ((index.scoreAll stateText).head?).getD 0
  let scores := Lexical.boundLexicalSpread [evidence, 0]
  let scores := if Lexical.negationPolarity question.text < 0 then scores.reverse else scores
  let d ← distributionOver question.id ["true", "false"] scores
  pure (d, index.coverage 0 stateText)

def decideScoreWithSupport (query : String) (question : ScoreQuestion) :
    EngineResult (Distribution × ℚ) := do
  let labels := question.levels.map ScoreLevel.label
  let scored := scoreDocuments (Lexical.Bm25Index.new labels) query
  let d ← distributionOver question.id labels scored.1
  pure (d, scored.2)

def decideWithSupport (state : State) (question : DecisionQuestion)
    (index : Option Lexical.Bm25Index) : EngineResult (Distribution × ℚ) :=
  match question with
  | .choice q => decideChoiceWithSupport (queryFor state question) q index
  | .boolean q => decideBooleanWithSupport state.text q
  | .score q => decideScoreWithSupport (queryFor state question) q

def classifier (modelId : String) : Classifier where
  modelId := modelId
  decide := fun state question => do
    let r ← decideWithSupport state question none
    pure r.1
  decideExtended := fun state question index => do
    let r ← decideWithSupport state question index
    pure (r.1, some r.2)

end LexicalClassifier

end OpenCodifier
