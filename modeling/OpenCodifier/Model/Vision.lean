import OpenCodifier.Engine.Classifier
import OpenCodifier.Model.Error
import Mathlib.Tactic.NormNum
set_option autoImplicit false

namespace OpenCodifier

structure Siglip2Config where
  logitScale : ℚ
  logitScale_pos : 0 < logitScale
  deriving DecidableEq

namespace Siglip2Config

def defaultLogitScale : ℚ := 10

def new : Siglip2Config := ⟨defaultLogitScale, by norm_num [defaultLogitScale]⟩

def withLogitScale [RustStd] (_config : Siglip2Config) (logitScale : ℚ) :
    ModelResult Siglip2Config :=
  if h : 0 < logitScale then .ok ⟨logitScale, h⟩
  else .error (.contractViolation ("logit_scale must be finite and positive, got " ++
    RustStd.display logitScale))

end Siglip2Config

/-- How the subject of an answer becomes the text that an image is scored against. -/
inductive PromptTemplate where
  | questionSubject
  | photoOf
  deriving DecidableEq

namespace PromptTemplate

def prompt (question subject : String) : PromptTemplate → String
  | questionSubject => question ++ "\n" ++ subject
  | photoOf => "a photo of " ++ subject ++ "."

def tag : PromptTemplate → String
  | questionSubject => "question-subject"
  | photoOf => "photo-of"

def fromTag [DebugTexts] (tag : String) : ModelResult PromptTemplate :=
  if tag = "question-subject" then .ok questionSubject
  else if tag = "photo-of" then .ok photoOf
  else .error (.contractViolation ("unknown prompt template tag " ++ DebugTexts.str tag))

theorem fromTag_tag [DebugTexts] (template : PromptTemplate) :
    fromTag template.tag = .ok template := by
  cases template <;> rfl

end PromptTemplate

/-- A dual encoder: vectors of images and of texts in one space, or an error text. -/
structure ImageTextEmbedder where
  modelId : String
  embedImages : List ImageInput → Except String (List (List ℚ))
  embedTexts : List String → Except String (List (List ℚ))

section Head

variable [RustStd]

/-- A vector scaled to norm one; one without a norm stays as it is. -/
def normalized (vector : List ℚ) : List ℚ :=
  let norm := RustStd.sqrt (vector.map fun x => x * x).sum
  if 0 < norm then vector.map fun x => x / norm else vector

def zeroShotScores (image : List ℚ) (texts : List (List ℚ)) (logitScale : ℚ) : List ℚ :=
  let image := normalized image
  texts.map fun text => ((image.zip (normalized text)).map fun e => e.1 * e.2).sum * logitScale

/-- Add a vector slot by slot; slots that it does not have keep their value. -/
def addSlots : List ℚ → List ℚ → List ℚ
  | slot :: slots, value :: values => (slot + value) :: addSlots slots values
  | slots, _ => slots

def pooledImage (images : List (List ℚ)) : Option (List ℚ) :=
  match images with
  | [] => none
  | first :: _ =>
    let sums := images.foldl addSlots (first.map fun _ => 0)
    some (normalized (sums.map fun value => value / images.length))

end Head

structure VisionClassifier where
  embedder : ImageTextEmbedder
  config : Siglip2Config
  template : PromptTemplate

namespace VisionClassifier

section Decide

variable (self : VisionClassifier)

/-- The id names the embedder and the template. -/
def modelId : String :=
  self.embedder.modelId ++ ":siglip2-zero-shot:" ++ self.template.tag

def noImagesFailure : EngineError :=
  .classifierFailed self.modelId ("state carries no images; the vision readout decides over " ++
    "images and never falls back to text-only evidence")

def shortReturnFailure (what : String) : EngineError :=
  .classifierFailed self.modelId
    ("embedder returned fewer " ++ what ++ " embeddings than requested")

def embedded (vectors : Except String (List (List ℚ))) : EngineResult (List (List ℚ)) :=
  match vectors with
  | .ok vectors => .ok vectors
  | .error error => .error (.classifierFailed self.modelId error)

variable [RustStd]

def imageEmbedding (state : State) : EngineResult (List ℚ) :=
  if state.images = [] then .error self.noImagesFailure
  else do
    let vectors ← self.embedded (self.embedder.embedImages state.images)
    if vectors.length < state.images.length then .error (self.shortReturnFailure "image")
    else
      match pooledImage vectors with
      | some image => .ok image
      | none => .error self.noImagesFailure

def choiceSubject (candidate : Candidate) : String :=
  if candidate.description = "" then candidate.id.text else candidate.description

def scorePrompts (image : List ℚ) (prompts : List String) : EngineResult (List ℚ) := do
  let vectors ← self.embedded (self.embedder.embedTexts prompts)
  if vectors.length < prompts.length then .error (self.shortReturnFailure "text")
  else .ok (zeroShotScores image vectors self.config.logitScale)

def distributionOver (keys : List String) (scores : List ℚ) : EngineResult Distribution :=
  match Distribution.fromPairs (keys.zip (Lexical.softmax scores)) with
  | .ok d => .ok d
  | .error e => .error (.classifierFailed self.modelId e.display)

def decideAmong (state : State) (question : String) (subjects keys : List String) :
    EngineResult Distribution := do
  let image ← self.imageEmbedding state
  let scores ← self.scorePrompts image (subjects.map fun s => self.template.prompt question s)
  self.distributionOver keys scores

def decideChoice (state : State) (question : ChoiceQuestion) : EngineResult Distribution :=
  self.decideAmong state question.text (question.candidates.map choiceSubject)
    (question.candidates.map fun c => c.id.text)

def decideBoolean (state : State) (question : BooleanQuestion) : EngineResult Distribution := do
  let image ← self.imageEmbedding state
  let vectors ← self.embedded (self.embedder.embedTexts [question.text])
  match vectors with
  | [] => .error (self.shortReturnFailure "text")
  | text :: _ =>
    let dot := ((image.zip (normalized text)).map fun e => e.1 * e.2).sum
    let evidence := dot * self.config.logitScale * Lexical.negationPolarity question.text
    self.distributionOver ["true", "false"] [evidence, 0]

def decideScore (state : State) (question : ScoreQuestion) : EngineResult Distribution :=
  self.decideAmong state question.text (question.levels.map ScoreLevel.label)
    (question.levels.map ScoreLevel.label)

def decide (state : State) : DecisionQuestion → EngineResult Distribution
  | .choice question => self.decideChoice state question
  | .boolean question => self.decideBoolean state question
  | .score question => self.decideScore state question

def classifier : Classifier := .ofDecide self.modelId self.decide

end Decide

end VisionClassifier

end OpenCodifier
