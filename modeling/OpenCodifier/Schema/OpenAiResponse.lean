import OpenCodifier.Schema.OpenAi
import OpenCodifier.Schema.JevResponse
set_option autoImplicit false

namespace OpenCodifier

open Json

namespace OpenAi

/-- `f64::round`: to the nearest integer, halves away from zero. -/
def round (x : ℚ) : Int := if 0 ≤ x then ⌊x + 1 / 2⌋ else ⌈x - 1 / 2⌉

/-- `as i64`, which saturates. -/
def toI64 (n : Int) : Int := max (-2 ^ 63) (min n (2 ^ 63 - 1))

theorem toI64_range (n : Int) : -2 ^ 63 ≤ toI64 n ∧ toI64 n < 2 ^ 63 := by
  unfold toI64
  omega

/-- The chosen value: a score as the index its expected value rounds to. -/
def encodeAnswer : DecisionAnswer → String × Value
  | .choice id choice _ _ => (id.text, .str choice.text)
  | .boolean id value _ _ => (id.text, .bool value)
  | .score id expected _ _ _ => (id.text, .int (toI64 (round expected)))

theorem encodeAnswer_fst (a : DecisionAnswer) : (encodeAnswer a).1 = a.questionId.text := by
  cases a <;> rfl

def encodeResponse (r : DecisionResponse) : SchemaResult Value :=
  .ok (.object (OrdMap.ofList (r.answers.map encodeAnswer)))

/-- A block of type `output_text` replaces the text found so far. -/
def blockText (text : Option String) (block : Json) : SchemaResult (Option String) := do
  let block ← asObject "content[]" block
  if (lookup block "type").bind asStr = some "output_text" then some <$> requiredString block "text"
  else pure text

def itemText (text : Option String) (item : Json) : SchemaResult (Option String) := do
  let item ← asObject "output[]" item
  match lookup item "content" with
  | none => pure text
  | some (.arr blocks) => blocks.foldlM blockText text
  | some j => .error (.invalidTypeOf "content" "array" j)

section Decoding

variable [RustStd] [JsonText]

/-- The value in the text of an envelope; none where the payload is no envelope. -/
def unwrapEnvelope (payload : Json) : SchemaResult (Option Json) :=
  match payload with
  | .obj fields =>
    match lookup fields "output" with
    | none => .ok none
    | some (.arr items) => do
      let text ← items.foldlM itemText none
      match text with
      | none => pure none
      | some text =>
        match JsonText.parse text with
        | .ok document => pure (some document.normalize)
        | .error reason => .error (.invalidValue "output_text" reason)
    | some j => .error (.invalidTypeOf "output" "array" j)
  | _ => .ok none

def certainDistribution (key : String) : SchemaResult Distribution :=
  orInvalid key (Distribution.fromPairs [(key, 1)])

def choiceAnswer (q : ChoiceQuestion) (value : Json) : SchemaResult DecisionAnswer := do
  let reported ← asString q.id.text value
  match q.candidates.find? fun c => c.id.text = reported with
  | none => .error (.invalidValue q.id.text
      ("`" ++ reported ++ "` is not one of the offered candidates"))
  | some candidate => do
    let choice ← ofCoreSchema (Ident.new candidate.id.text)
    let d ← certainDistribution candidate.id.text
    let id ← ofCoreSchema (Ident.new q.id.text)
    pure (.choice id choice d 1)

def booleanAnswer (q : BooleanQuestion) (value : Json) : SchemaResult DecisionAnswer :=
  match value.asBool with
  | none => .error (.invalidTypeOf q.id.text "boolean" value)
  | some reported => do
    let probability ← unitInterval q.id.text 1
    let id ← ofCoreSchema (Ident.new q.id.text)
    pure (.boolean id reported probability probability)

def scoreAnswer (q : ScoreQuestion) (value : Json) : SchemaResult DecisionAnswer :=
  match value.asI64 with
  | none => .error (.invalidTypeOf q.id.text "integer" value)
  | some raw =>
    if raw < 0 then
      .error (.invalidValue q.id.text ("level index " ++ toString raw ++ " is negative"))
    else
      match q.levels[raw.toNat]? with
      | none => .error (.invalidValue q.id.text ("level index " ++ toString raw ++
          " is past the " ++ toString q.levels.length ++ " declared levels"))
      | some level => do
        let d ← certainDistribution level.label
        let id ← ofCoreSchema (Ident.new q.id.text)
        pure (.score id raw.toNat level.label d 1)

def answerFor : DecisionQuestion → Json → SchemaResult DecisionAnswer
  | .choice q => choiceAnswer q
  | .boolean q => booleanAnswer q
  | .score q => scoreAnswer q

/-- The report of reconstructed answers: the least top probability. -/
def reportFor (answers : List DecisionAnswer) : ConfidenceReport :=
  let least := answers.foldl (fun acc a =>
    if (Jev.answerNumbers a).1 < acc then (Jev.answerNumbers a).1 else acc) (1 : ℚ)
  { topProbability := least
    margin := 1
    entropy := 0
    calibratedConfidence := least
    oodScore := 0
    verifierAgreement := none }

def decodeValues (field : String) (values : Json) (request : DecisionRequest) :
    SchemaResult DecisionResponse := do
  let fields ← asObject field values
  let answers ← answersOf ": every question must be answered" answerFor fields request.questions
  reportedAnswers answers (reportFor answers)

def decodeResponse (payload : Value) (request : DecisionRequest) (_limits : Limits) :
    SchemaResult DecisionResponse := do
  let unwrapped ← unwrapEnvelope payload.1
  decodeValues "output" (unwrapped.getD payload.1) request

end Decoding

end OpenAi

namespace Anthropic

/-- A block of type `tool_use` gives its input, unless a block before it did. -/
def toolInput : List Json → SchemaResult (Option Json)
  | [] => .ok none
  | block :: rest => do
    let block ← asObject "content[]" block
    if (lookup block "type").bind asStr = some "tool_use" then do
      let input ← requiredObject block "input"
      pure (some (.obj input))
    else toolInput rest

def unwrapToolUse (payload : Json) : SchemaResult (Option Json) :=
  match payload with
  | .obj fields =>
    if (lookup fields "type").bind asStr = some "tool_use" then do
      let input ← requiredObject fields "input"
      pure (some (.obj input))
    else
      match lookup fields "content" with
      | none => .ok none
      | some (.arr blocks) => toolInput blocks
      | some j => .error (.invalidTypeOf "content" "array" j)
  | _ => .ok none

def encodeResponse (r : DecisionResponse) : SchemaResult Value := OpenAi.encodeResponse r

def decodeResponse [RustStd] (payload : Value) (request : DecisionRequest) (_limits : Limits) :
    SchemaResult DecisionResponse := do
  let unwrapped ← unwrapToolUse payload.1
  OpenAi.decodeValues "input" (unwrapped.getD payload.1) request

end Anthropic

end OpenCodifier
