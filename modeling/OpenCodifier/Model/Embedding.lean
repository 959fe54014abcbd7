import OpenCodifier.Engine.Classifier
import OpenCodifier.Engine.Rerank
import Mathlib.Tactic.NormNum
set_option autoImplicit false

namespace OpenCodifier

structure EmbeddingClassifier where
  backend : EmbeddingBackend
  temperature : ℚ
  temperature_pos : 0 < temperature

namespace EmbeddingClassifier

def new (backend : EmbeddingBackend) : EmbeddingClassifier := ⟨backend, 1, by norm_num⟩

variable [RustStd]

def withTemperature (self : EmbeddingClassifier) (temperature : ℚ) :
    EngineResult EmbeddingClassifier :=
  if h : 0 < temperature then .ok ⟨self.backend, temperature, h⟩
  else .error (.invalidConfig ("temperature must be finite and positive, got " ++
    RustStd.display temperature))

def norm (vector : List ℚ) : ℚ := RustStd.sqrt (vector.map fun x => x * x).sum

/-- Cosine similarity against a query whose norm is known, zero for a vector without a norm. -/
def cosineWithNorm (queryNorm : ℚ) (a b : List ℚ) : ℚ :=
  if queryNorm = 0 ∨ norm b = 0 then 0
  else ((a.zip b).map fun e => e.1 * e.2).sum / (queryNorm * norm b)

def cosine (a b : List ℚ) : ℚ := cosineWithNorm (norm a) a b

section Decide

variable (self : EmbeddingClassifier)

def noEmbeddingsFailure : EngineError :=
  .classifierFailed self.backend.modelId "backend returned fewer embeddings than texts"

def embedAll (texts : List String) : EngineResult (List (List ℚ)) :=
  match self.backend.embed texts with
  | .ok vectors => .ok vectors
  | .error error => .error (.classifierFailed self.backend.modelId error)

def distributionOver (keys : List String) (scores : List ℚ) : EngineResult Distribution :=
  match Distribution.fromPairs (keys.zip (Lexical.softmax scores)) with
  | .ok d => .ok d
  | .error e => .error (.classifierFailed self.backend.modelId e.display)

/-- What a candidate is embedded as: its description, or its id when there is none. -/
def candidateText (candidate : Candidate) : String :=
  if candidate.description = "" then candidate.id.text else candidate.description

/-- Score answers by their similarity to a query, all embedded in one call. -/
def decideAgainst (query : String) (texts keys : List String) : EngineResult Distribution := do
  let vectors ← self.embedAll (query :: texts)
  match vectors with
  | [] => .error self.noEmbeddingsFailure
  | first :: rest =>
    self.distributionOver keys (rest.map fun vector =>
      cosineWithNorm (norm first) first vector / self.temperature)

def decideChoice (state : State) (question : ChoiceQuestion) : EngineResult Distribution :=
  self.decideAgainst (state.text ++ " \n " ++ question.text)
    (question.candidates.map candidateText) (question.candidates.map fun c => c.id.text)

def decideBoolean (state : State) (question : BooleanQuestion) : EngineResult Distribution := do
  let vectors ← self.embedAll [state.text, question.text]
  match vectors with
  | stateVector :: questionVector :: _ =>
    let evidence := cosine stateVector questionVector * Lexical.negationPolarity question.text
    self.distributionOver ["true", "false"] [evidence / self.temperature, 0]
  | _ => .error self.noEmbeddingsFailure

def decideScore (state : State) (question : ScoreQuestion) : EngineResult Distribution :=
  self.decideAgainst state.text (question.levels.map ScoreLevel.label)
    (question.levels.map ScoreLevel.label)

def decide (state : State) : DecisionQuestion → EngineResult Distribution
  | .choice question => self.decideChoice state question
  | .boolean question => self.decideBoolean state question
  | .score question => self.decideScore state question

def classifier : Classifier := .ofDecide self.backend.modelId self.decide

end Decide

end EmbeddingClassifier

end OpenCodifier
