import OpenCodifier.Lib.Json
import OpenCodifier.Engine.Classifier
import OpenCodifier.Model.Error
set_option autoImplicit false

namespace OpenCodifier

open Json (Value lookup)

structure LlamaConfig where
  modelId : String
  instructions : String

namespace LlamaConfig

def defaultInstructions : String := "Select the correct option."

def new (modelId : String) : LlamaConfig := ⟨modelId, defaultInstructions⟩

end LlamaConfig

/-- Why an exchange failed: with a status when the server answered. -/
structure LlamaError where
  status : Option Nat
  message : String
  deriving DecidableEq

namespace LlamaError

def display (self : LlamaError) : String := self.message

end LlamaError

/-- The one verb that the rung needs: a document to a path, and a document back. -/
structure Transport where
  postJson : String → Value → Except LlamaError Value

section Pointer

/-- A position in an array, written without a sign and without leading zeros. -/
def arrayIndex (token : String) : Option Nat :=
  let digits := token.toList
  if digits = [] ∨ digits.all Char.isDigit = false ∨
      (digits.head? = some '0' ∧ digits.length ≠ 1) then none
  else some (digits.foldl (fun index digit => index * 10 + (digit.toNat - '0'.toNat)) 0)

def pointerStep (j : Json) (token : String) : Option Json :=
  match j with
  | .obj fields => lookup fields token
  | .arr items => (arrayIndex token).bind fun index => items[index]?
  | _ => none

def pointer (tokens : List String) (j : Json) : Option Json := tokens.foldlM pointerStep j

def getKey (key : String) : Json → Option Json
  | .obj fields => lookup fields key
  | _ => none

def fieldsOf : Json → Option (List (String × Json))
  | .obj fields => some fields
  | _ => none

end Pointer

structure LlamaDecisionClassifier where
  transport : Transport
  config : LlamaConfig

namespace LlamaDecisionClassifier

variable [RustStd] [DebugTexts] (self : LlamaDecisionClassifier)

def failure (reason : String) : EngineError := .classifierFailed self.config.modelId reason

def orFailure {α : Type} (reason : String) : Option α → EngineResult α
  | some a => .ok a
  | none => .error (self.failure reason)

/-- The request: the answers as an enumeration, the state as the only context. -/
def payload (state : State) (question : DecisionQuestion) : Value :=
  .struct [("instructions", some (.str self.config.instructions)),
    ("schema", some (.struct [("choice", some (.struct [("type", some (.str "enum")),
      ("choices", some (.array ((answerKeys question).map Value.str))),
      ("description", some (.str question.text))]))])),
    ("contexts", some (.array [.str state.text])),
    ("mode", some (.str "tree"))]

def exchange (state : State) (question : DecisionQuestion) : EngineResult Value :=
  match self.transport.postJson "/v1/decision" (self.payload state question) with
  | .ok response => .ok response
  | .error error => .error (self.failure error.display)

/-- The mass of a declared answer; a number of a document is finite. -/
def answerMass (map : List (String × Json)) (answer : String) : EngineResult (String × ℚ) := do
  let value ← self.orFailure
    ("response \x60distribution\x60 is missing declared answer " ++ DebugTexts.str answer)
    (lookup map answer)
  let probability ← self.orFailure
    ("response \x60distribution\x60 entry " ++ DebugTexts.str answer ++ " is not a number")
    value.asFloat
  if probability < 0 then
    .error (self.failure ("response \x60distribution\x60 entry " ++ DebugTexts.str answer ++
      " is not a probability: " ++ RustStd.display probability))
  else .ok (answer, probability)

/-- The masses of a response in declared order; it may have no other labels. -/
def readMasses (question : DecisionQuestion) (response : Value) :
    EngineResult (List (String × ℚ)) := do
  let choice ← self.orFailure "malformed response: missing results[0].fields.choice"
    (pointer ["results", "0", "fields", "choice"] response.1)
  let raw ← self.orFailure ("response carries no \x60distribution\x60: a winner-only fork build " ++
      "cannot be served as a decision rung (no probability may be synthesized); run a fork " ++
      "build with the full per-choice readout (post-2026-09-29)")
    (getKey "distribution" choice)
  let map ← self.orFailure "malformed response: \x60distribution\x60 is not an object"
    (fieldsOf raw)
  let pairs ← (answerKeys question).mapM (self.answerMass map)
  if map.length ≠ (answerKeys question).length then
    .error (self.failure
      "response \x60distribution\x60 carries labels outside the declared answer set")
  else .ok pairs

def decideDistribution (state : State) (question : DecisionQuestion) :
    EngineResult (List (String × ℚ)) := do
  let response ← self.exchange state question
  self.readMasses question response

/-- The masses of the server, renormalized here. -/
def normalized (pairs : List (String × ℚ)) : EngineResult Distribution :=
  let total := (pairs.map Prod.snd).sum
  if total ≤ 0 then
    .error (self.failure ("response \x60distribution\x60 sums to " ++ RustStd.display total ++
      ", not a normalizable mass"))
  else
    match Distribution.fromPairs (pairs.map fun e => (e.1, e.2 / total)) with
    | .ok d => .ok d
    | .error error => .error (self.failure error.display)

def decide (state : State) (question : DecisionQuestion) : EngineResult Distribution := do
  let pairs ← self.decideDistribution state question
  self.normalized pairs

def classifier : Classifier := .ofDecide self.config.modelId self.decide

end LlamaDecisionClassifier

end OpenCodifier
