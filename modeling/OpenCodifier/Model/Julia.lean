import OpenCodifier.Model.KaiPrompt
set_option autoImplicit false

namespace OpenCodifier

open Kai (violation)

namespace Julia

/-- Token budget of the question head plus its options. -/
def headLength : Nat := 256

/-- Most tokens an option's text contributes after its marker. -/
def optionTokenLimit : Nat := 48

def minOptions : Nat := Kai.minCandidates

def maxOptions : Nat := Kai.maxCandidates

def clsId : Int := 2

def sepId : Int := 1

def maskId : Int := 4

end Julia

open Julia

inductive JuliaKind where
  | choice
  | score
  | noul
  deriving DecidableEq

def JuliaKind.asStr : JuliaKind → String
  | choice => "choice"
  | score => "score"
  | noul => "noul"

structure JuliaOption where
  key : String
  text : String
  deriving DecidableEq

structure JuliaQuestion where
  id : String
  state : String
  question : String
  kind : JuliaKind
  options : List JuliaOption
  deriving DecidableEq

namespace JuliaQuestion

section Building

variable [RustStd] [DebugTexts]

def checkCount (id : String) (kind : JuliaKind) (count : Nat) : ModelResult Unit :=
  if count < minOptions ∨ maxOptions < count then
    violation ("\x60" ++ id ++ "\x60: " ++ kind.asStr ++ " carries " ++ toString count ++
      " options, outside " ++ toString minOptions ++ "..=" ++ toString maxOptions)
  else .ok ()

def checkText (id question : String) : ModelResult Unit :=
  if Condition.blank question then
    violation ("\x60" ++ id ++ "\x60: the question text must be nonempty")
  else .ok ()

def checkOption (id : String) (entry : JuliaOption × Nat) : ModelResult Unit :=
  if Condition.blank entry.1.key then
    violation ("\x60" ++ id ++ "\x60: option " ++ toString entry.2 ++ " has an empty key")
  else if Condition.blank entry.1.text then
    violation ("\x60" ++ id ++ "\x60: option " ++ toString entry.2 ++ " has empty text")
  else .ok ()

def checkNoul (id : String) (kind : JuliaKind) (options : List JuliaOption) : ModelResult Unit :=
  if kind = .noul ∧ options.map JuliaOption.key ≠ ["false", "true"] then
    violation ("\x60" ++ id ++ "\x60: noul requires keys false,true in order, got " ++
      KaiQuestion.debugKeys (options.map JuliaOption.key))
  else .ok ()

/-- The checked constructor. The state may be empty. -/
def new (id state question : String) (kind : JuliaKind) (options : List JuliaOption) :
    ModelResult JuliaQuestion := do
  checkCount id kind options.length
  checkText id question
  options.zipIdx.forM (checkOption id)
  checkNoul id kind options
  .ok ⟨id, state, question, kind, options⟩

def ofCandidate (candidate : Candidate) : JuliaOption :=
  if Condition.blank candidate.description then ⟨candidate.id.text, candidate.id.text⟩
  else ⟨candidate.id.text, candidate.description⟩

def ofLevel (entry : ScoreLevel × Nat) : JuliaOption := ⟨toString entry.2, entry.1.label⟩

def fromDecision (state : State) (question : DecisionQuestion) : ModelResult JuliaQuestion :=
  if state.facts.entries ≠ [] then
    violation ("the Julia-1 rung renders text states only: project typed facts into " ++
      "the state text before rendering")
  else
    match question with
    | .choice q => new q.id.text state.text q.text .choice (q.candidates.map ofCandidate)
    | .boolean q =>
      new q.id.text state.text q.text .noul [⟨"false", "false"⟩, ⟨"true", "true"⟩]
    | .score q => new q.id.text state.text q.text .score (q.levels.zipIdx.map ofLevel)

end Building

def headText (self : JuliaQuestion) : String := self.kind.asStr ++ " question: " ++ self.question

def optionSegment (option : JuliaOption) : String := " " ++ option.text

def keys (self : JuliaQuestion) : List String := self.options.map JuliaOption.key

end JuliaQuestion

abbrev JuliaTokenizer := String → ModelResult (List Int)

/-- One encoded question, with the index of the marker of each option. -/
structure JuliaEncoding where
  ids : List Int
  markerPos : List Nat
  keys : List String
  kind : JuliaKind
  deriving DecidableEq

namespace JuliaEncoding

/-- The marker invariants, checked in the order of the source. -/
def validate (self : JuliaEncoding) : ModelResult Unit :=
  let count := self.keys.length
  if self.markerPos.length ≠ count then
    violation ("marker count " ++ toString self.markerPos.length ++
      " must equal the option count " ++ toString count)
  else if !(Neighbours.windows self.markerPos).all fun pair => pair.1 < pair.2 then
    violation "markers must be strictly increasing"
  else
    match self.markerPos.find? fun position => self.ids.length ≤ position with
    | some position =>
      violation ("marker " ++ toString position ++ " is outside the " ++
        toString self.ids.length ++ "-token prompt")
    | none =>
      match self.markerPos.find? fun position => self.ids[position]? ≠ some maskId with
      | some position =>
        violation ("marker " ++ toString position ++ " does not land on a \x60<mask>\x60 token")
      | none => .ok ()

def encodeOption (id : String) (tokenizer : JuliaTokenizer) (entry : JuliaOption × Nat) :
    ModelResult (List Int) := do
  let text ← tokenizer (JuliaQuestion.optionSegment entry.1)
  if text = [] then
    .error (.tokenizer ("\x60" ++ id ++ "\x60: option " ++ toString entry.2 ++
      " encoded to no tokens"))
  else .ok (maskId :: text.take optionTokenLimit)

/-- The tokens of one option behind those so far, and the index of its first one. -/
def appendSegment (soFar : List Int × List Nat) (segment : List Int) : List Int × List Nat :=
  (soFar.1 ++ segment, soFar.2 ++ [soFar.1.length])

/-- As many tokens of the state as there is room for. Without room the tokenizer is not asked. -/
def stateTokens (tokenizer : JuliaTokenizer) (state : String) (room : Nat) :
    ModelResult (List Int) :=
  if 0 < room then do
    let tokens ← tokenizer state
    .ok (tokens.take room)
  else .ok []

def encode (question : JuliaQuestion) (tokenizer : JuliaTokenizer) (maxLength : Nat) :
    ModelResult JuliaEncoding := do
  let head ← tokenizer question.headText
  if head = [] then
    .error (.tokenizer ("\x60" ++ question.id ++ "\x60: the question head encoded to no tokens"))
  else do
    let options ← question.options.zipIdx.mapM (encodeOption question.id tokenizer)
    let optionTokens := (options.map List.length).sum
    let budget := headLength - optionTokens
    let keep := min head.length (max budget 8)
    let (ids, markerPos) :=
      options.foldl appendSegment (clsId :: (head.take keep ++ [sepId]), [])
    let ids := ids ++ [sepId]
    let room := maxLength - (ids.length + 1)
    let state ← stateTokens tokenizer question.state room
    let encoding : JuliaEncoding :=
      ⟨ids ++ state ++ [sepId], markerPos, question.keys, question.kind⟩
    if maxLength < encoding.ids.length then
      .error (.promptTooLong question.id encoding.ids.length maxLength)
    else do
      encoding.validate
      .ok encoding

end JuliaEncoding

end OpenCodifier
