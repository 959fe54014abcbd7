import OpenCodifier.Lib.Anchors
import OpenCodifier.Lib.Json
import OpenCodifier.Lib.JsonStrings
import OpenCodifier.Core.Response
import OpenCodifier.Core.Question
import OpenCodifier.Engine.Rules
import OpenCodifier.Model.Kai
set_option autoImplicit false

namespace OpenCodifier

open Kai
open Json (Value)

class NumberTexts where
  text : JsonNumber → String

namespace Kai

section Canonical

variable [NumberTexts]

mutual

def compact : Json → List Char
  | .null => "null".toList
  | .bool value => (if value then "true" else "false").toList
  | .num value => (NumberTexts.text value).toList
  | .str value => JsonStrings.write value.toList
  | .arr items => '[' :: (compactItems "".toList items ++ [']'])
  | .obj fields => '{' :: (compactFields "".toList fields ++ ['}'])

def compactItems (separator : List Char) : List Json → List Char
  | [] => []
  | item :: rest => separator ++ compact item ++ compactItems [','] rest

def compactFields (separator : List Char) : List (String × Json) → List Char
  | [] => []
  | (key, value) :: rest =>
    separator ++ JsonStrings.write key.toList ++ [':'] ++ compact value ++ compactFields [','] rest

end

/-- Canonical JSON. The numbers of a value are finite, so none is refused. -/
def canonicalJson (value : Value) : ModelResult String := .ok (String.ofList (compact value.1))

end Canonical

def maxScoreLevels : Nat := 10

end Kai

def KaiKind.asStr : KaiKind → String
  | choice => "choice"
  | noul => "noul"
  | score => "score"

/-- The rendering of one option; without a description it is null. -/
structure KaiOption where
  key : String
  description : Option String
  deriving DecidableEq

/-- A slot of the prompt: text as it is, or data as canonical JSON. -/
inductive KaiPayload where
  | text (text : String)
  | structured (value : Value)

def KaiPayload.render [NumberTexts] : KaiPayload → ModelResult String
  | text content => .ok content
  | structured value => canonicalJson value

structure KaiSegments where
  prefixText : String
  options : List String
  suffixText : String

structure KaiQuestion where
  id : String
  state : KaiPayload
  instructions : KaiPayload
  kind : KaiKind
  options : List KaiOption

namespace KaiQuestion

section Building

variable [RustStd] [NumberTexts] [DebugTexts]

def renderNonempty (id slot : String) (payload : KaiPayload) : ModelResult Unit := do
  let text ← payload.render
  if Condition.blank text then
    violation ("\x60" ++ id ++ "\x60: " ++ slot ++ " must be nonempty text or structured data")
  else .ok ()

def optionLimits : KaiKind → Nat × Nat
  | .score => (minCandidates, maxScoreLevels)
  | .choice => (minCandidates, maxCandidates)
  | .noul => (minCandidates, maxCandidates)

def checkKey (id : String) (entry : KaiOption × Nat) : ModelResult Unit :=
  if Condition.blank entry.1.key then
    violation ("\x60" ++ id ++ "\x60: option " ++ toString entry.2 ++ " has an empty key")
  else .ok ()

def debugKeys (keys : List String) : String :=
  "[" ++ ", ".intercalate (keys.map DebugTexts.str) ++ "]"

def checkNoul (id : String) (kind : KaiKind) (options : List KaiOption) : ModelResult Unit :=
  if kind = .noul ∧ options.map KaiOption.key ≠ ["false", "true"] then
    violation ("\x60" ++ id ++ "\x60: noul requires keys false,true in order, got " ++
      debugKeys (options.map KaiOption.key))
  else .ok ()

def new (id : String) (state instructions : KaiPayload) (kind : KaiKind)
    (options : List KaiOption) : ModelResult KaiQuestion := do
  renderNonempty id "state" state
  renderNonempty id "instructions" instructions
  let (minimum, maximum) := optionLimits kind
  if options.length < minimum ∨ maximum < options.length then
    violation ("\x60" ++ id ++ "\x60: " ++ kind.asStr ++ " carries " ++ toString options.length ++
      " options, outside " ++ toString minimum ++ "..=" ++ toString maximum)
  else do
    options.zipIdx.forM (checkKey id)
    checkNoul id kind options
    .ok ⟨id, state, instructions, kind, options⟩

/-- The question of a boolean request, without a check. -/
def noul (id : String) (state instructions : KaiPayload) : KaiQuestion :=
  ⟨id, state, instructions, .noul, [⟨"false", some "No"⟩, ⟨"true", some "Yes"⟩]⟩

def ofCandidate (candidate : Candidate) : KaiOption :=
  if Condition.blank candidate.description then ⟨candidate.id.text, none⟩
  else ⟨candidate.id.text, some candidate.description⟩

def ofLevel (entry : ScoreLevel × Nat) : KaiOption := ⟨toString entry.2, some entry.1.label⟩

def fromDecision (state : State) (question : DecisionQuestion) : ModelResult KaiQuestion :=
  if state.facts.entries ≠ [] then
    violation ("the Kai rung renders text states only: project typed facts into the state text " ++
      "before rendering")
  else
    let payload := KaiPayload.text state.text
    match question with
    | .choice q => new q.id.text payload (.text q.text) .choice (q.candidates.map ofCandidate)
    | .boolean q => .ok (noul q.id.text payload (.text q.text))
    | .score q => new q.id.text payload (.text q.text) .score (q.levels.zipIdx.map ofLevel)

end Building

section Rendering

variable [NumberTexts]

def optionLine (option : KaiOption) : ModelResult String := do
  let payload ← canonicalJson (.struct [("key", some (.str option.key)),
    ("description", some (.ofOption (option.description.map .str)))])
  .ok ("\n<option>\n" ++ payload ++ "\n</option>")

def segments (self : KaiQuestion) : ModelResult KaiSegments := do
  let state ← self.state.render
  let instructions ← self.instructions.render
  let options ← self.options.mapM optionLine
  .ok {
    prefixText := "Context:\n" ++ state ++ "\n\nTask type: " ++ self.kind.asStr ++
      "\nQuestion:\n" ++ instructions ++ "\nOptions:"
    options
    suffixText := "\n\nSelect the single option best supported by the context and " ++
      "instructions.\nDecision:" }

def keys (self : KaiQuestion) : List String := self.options.map KaiOption.key

end Rendering

end KaiQuestion

abbrev KaiTokenizer := String → ModelResult (List Int)

namespace KaiEncoding

variable [NumberTexts]

/-- The tokens of one option behind those so far, and the index of its last one. -/
def appendOption (id : String) (tokenizer : KaiTokenizer) (soFar : List Int × List Nat)
    (entry : String × Nat) : ModelResult (List Int × List Nat) := do
  let part ← tokenizer entry.1
  if part = [] then
    .error (.tokenizer ("\x60" ++ id ++ "\x60: option " ++ toString entry.2 ++
      " encoded to no tokens"))
  else
    let ids := soFar.1 ++ part
    .ok (ids, soFar.2 ++ [ids.length - 1])

def encode (question : KaiQuestion) (tokenizer : KaiTokenizer) (maxInputTokens : Nat) :
    ModelResult KaiEncoding := do
  let segments ← question.segments
  let ids ← tokenizer segments.prefixText
  if ids = [] then
    .error (.tokenizer ("\x60" ++ question.id ++ "\x60: the prefix encoded to no tokens"))
  else do
    let (ids, optionPos) ←
      segments.options.zipIdx.foldlM (appendOption question.id tokenizer) (ids, [])
    let tail ← tokenizer segments.suffixText
    if tail = [] then
      .error (.tokenizer ("\x60" ++ question.id ++ "\x60: the query suffix encoded to no tokens"))
    else do
      let ids := ids ++ tail
      let encoding : KaiEncoding :=
        ⟨ids, optionPos, ids.length - 1, question.keys, question.kind⟩
      if maxInputTokens < encoding.ids.length then
        .error (.promptTooLong question.id encoding.ids.length maxInputTokens)
      else do
        encoding.validate
        .ok encoding

end KaiEncoding

end OpenCodifier
