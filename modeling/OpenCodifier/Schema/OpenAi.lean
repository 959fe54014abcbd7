import OpenCodifier.Schema.DataUrl
import OpenCodifier.Schema.Jev
set_option autoImplicit false

namespace OpenCodifier

open Json

/-- The serializer's texts: of a value, and the document a text stands for. -/
class JsonText where
  write : Value → String
  parse : String → Except String Json

namespace OpenAi

def levelsMarker : String := "opencodifier:levels="

def descriptionsMarker : String := "opencodifier:descriptions="

def schemaName : String := "opencodifier_decisions"

section Encoding

variable [JsonText]

def jsonString (values : List String) : String :=
  JsonText.write (.array (values.map .str))

def propertyFor : DecisionQuestion → Value
  | .choice q => .struct [("type", some (.str "string")), ("title", some (.str q.text)),
      ("description", some (.str (descriptionsMarker ++
        jsonString (q.candidates.map Candidate.description)))),
      ("enum", some (.array (q.candidates.map fun c => .str c.id.text)))]
  | .boolean q => .struct [("type", some (.str "boolean")), ("title", some (.str q.text)),
      ("description", some (.str "Answer true or false."))]
  | .score q => .struct [("type", some (.str "integer")), ("title", some (.str q.text)),
      ("description", some (.str (levelsMarker ++ jsonString (q.levels.map ScoreLevel.label)))),
      ("minimum", some (.int 0)), ("maximum", some (.nat (q.levels.length - 1)))]

def properties (questions : List DecisionQuestion) : OrdMap String Value :=
  OrdMap.ofList (questions.map fun q => (q.id.text, propertyFor q))

def schemaFor (request : DecisionRequest) : SchemaResult Value := do
  enforceUniqueQuestions request
  pure (.struct [("type", some (.str "object")), ("title", some (.str schemaName)),
    ("description",
      some (.str "One field per decision question, answered in a single response.")),
    ("properties", some (.object (properties request.questions))),
    ("required", some (.array (request.questions.map fun q => .str q.id.text))),
    ("additionalProperties", some (.bool false))])

def encodeFacts (s : State) : Value := .object (s.facts.mapValues fun _ value => value.serialize)

/-- The text of the state, as parts when images follow. -/
def encodeInput (s : State) : Value :=
  if s.hasImages then
    .array (.struct [("type", some (.str "input_text")), ("text", some (.str s.text))] ::
      s.images.map fun image => .struct [("type", some (.str "input_image")),
        ("image_url", some (.str (dataUrl image)))])
  else .str s.text

def encodeRequest (request : DecisionRequest) : SchemaResult Value := do
  let schema ← schemaFor request
  pure (.struct [("format", some (.struct [("type", some (.str "json_schema")),
      ("name", some (.str schemaName)), ("strict", some (.bool true)), ("schema", some schema)])),
    ("input", some (encodeInput request.state)), ("facts", some (encodeFacts request.state))])

end Encoding

/-- Whether two branches of a union ask for the same decision; prose may differ. -/
def sameDecision : DecisionQuestion → DecisionQuestion → Bool
  | .boolean _, .boolean _ => true
  | .choice left, .choice right =>
    left.id = right.id && left.candidates.map Candidate.id = right.candidates.map Candidate.id
  | .score left, .score right =>
    left.id = right.id && left.levels.map ScoreLevel.label = right.levels.map ScoreLevel.label
  | _, _ => false

def propertyTitle (property : List (String × Json)) : Option String :=
  ((lookup property "title").bind asStr).filter fun text => text ≠ ""

def stripMarker (marker text : String) : Option String :=
  (stripPrefix marker.toList text.toList).map String.ofList

variable [RustStd] [SerdeTexts] [JsonText]

def readStrings (text : String) : SchemaResult (List String) :=
  match JsonText.parse text with
  | .error reason => .error (.invalidValue "description" reason)
  | .ok document =>
    match asList asStr document with
    | some values => .ok values
    | none => .error (.invalidValue "description" (SerdeTexts.refusal "Vec<String>" document))

/-- Without a marker there are no descriptions. -/
def candidateDescriptions (property : List (String × Json)) : SchemaResult (List String) := do
  let description ← optionalString property "description"
  match description.bind (stripMarker descriptionsMarker) with
  | some payload => readStrings payload
  | none => pure []

def levelLabels (property : List (String × Json)) : SchemaResult (List String) := do
  let description ← optionalString property "description"
  match description.bind (stripMarker levelsMarker) with
  | none => .error (.missingField "description" (": integer properties must carry a `" ++
      levelsMarker ++ "<json array>` description naming the ordered score levels"))
  | some payload => do
    let labels ← readStrings payload
    if labels.length < 2 then
      .error (.invalidValue "description"
        ("a score needs at least two levels, got " ++ toString labels.length))
    else pure labels

def describe (name : String) : List Candidate → List String → SchemaResult (List Candidate)
  | c :: candidates, d :: descriptions => do
    let c ← orInvalid name (Candidate.new c.id.text d)
    let rest ← describe name candidates descriptions
    pure (c :: rest)
  | candidates, _ => .ok candidates

def enumCandidate (name : String) (e : Json × Nat) : SchemaResult Candidate := do
  let id ← asString (name ++ ".enum[" ++ toString e.2 ++ "]") e.1
  let id ← ofCoreSchema (Ident.new id)
  pure ⟨id, ""⟩

def choiceFromEnum (name : String) (property : List (String × Json)) (ids : List Json)
    (limits : Limits) : SchemaResult DecisionQuestion :=
  if ids = [] then .error (.invalidValue name "enum must not be empty")
  else do
    enforceCandidateLimit ids.length limits
    let candidates ← ids.zipIdx.mapM (enumCandidate name)
    let descriptions ← candidateDescriptions property
    let candidates ← describe name candidates descriptions
    DecisionQuestion.choice <$>
      ofCoreSchema (ChoiceQuestion.new name ((propertyTitle property).getD name) candidates)

def scoreFromInteger (name : String) (property : List (String × Json)) :
    SchemaResult DecisionQuestion := do
  let labels ← levelLabels property
  let levels ← labels.mapM fun label => orInvalid "levels" (ScoreLevel.new label)
  DecisionQuestion.score <$>
    ofCoreSchema (ScoreQuestion.new name ((propertyTitle property).getD name) levels)

def plainProperty (name : String) (property : List (String × Json)) (limits : Limits) :
    SchemaResult DecisionQuestion := do
  let kind ← requiredString property "type"
  if kind = "string" then
    match lookup property "enum" with
    | none => .error (.unsupportedGenerationField name)
    | some (.arr ids) => choiceFromEnum name property ids limits
    | some j => .error (.invalidTypeOf "enum" "array" j)
  else if kind = "boolean" then
    DecisionQuestion.boolean <$>
      ofCoreSchema (BooleanQuestion.new name ((propertyTitle property).getD name))
  else if kind = "integer" then scoreFromInteger name property
  else if kind = "number" then
    .error (.unsupportedConstruct "number"
      ": use an integer with minimum/maximum for score questions")
  else .error (.invalidType name "string|boolean|integer" kind)

def isNullType (branch : List (String × Json)) : Bool :=
  (lookup branch "type").bind asStr = some "null"

mutual

def propertyToQuestion (name : String) (limits : Limits) : Json → SchemaResult DecisionQuestion
  | .obj property =>
    if (lookup property "oneOf").isSome then .error (.unsupported "oneOf")
    else if (lookup property "const").isSome then .error (.unsupported "const")
    else
      match anyOfField name limits property with
      | some reduced => reduced
      | none => plainProperty name property limits
  | j => .error (.invalidTypeOf name "object" j)

def anyOfField (name : String) (limits : Limits) :
    List (String × Json) → Option (SchemaResult DecisionQuestion)
  | [] => none
  | (key, value) :: rest =>
    if key = "anyOf" then some (anyOfBranches name limits value) else anyOfField name limits rest

def anyOfBranches (name : String) (limits : Limits) : Json → SchemaResult DecisionQuestion
  | .arr branches => reduceAnyOf name limits none branches
  | j => .error (.invalidTypeOf "anyOf" "array" j)

/-- A union reduces when its branches other than null ask for one decision. -/
def reduceAnyOf (name : String) (limits : Limits) (reduced : Option DecisionQuestion) :
    List Json → SchemaResult DecisionQuestion
  | [] =>
    match reduced with
    | some question => .ok question
    | none => .error (.unsupportedConstruct "anyOf" ": no decidable branch")
  | branch :: rest => do
    let fields ← asObject name branch
    if isNullType fields then reduceAnyOf name limits reduced rest
    else do
      let question ← propertyToQuestion name limits branch
      match reduced with
      | none => reduceAnyOf name limits (some question) rest
      | some existing =>
        if sameDecision question existing then reduceAnyOf name limits reduced rest
        else .error (.unsupportedConstruct "anyOf" ": branches do not reduce to one decision kind")

end

/-- The questions of a strict-mode schema, in the order of its properties. -/
def decodeSchemaMap (root : List (String × Json)) (limits : Limits) :
    SchemaResult (List DecisionQuestion) :=
  if (lookup root "oneOf").isSome then .error (.unsupported "oneOf")
  else if (lookup root "anyOf").isSome then
    .error (.unsupportedConstruct "anyOf"
      " at the schema root: strict mode requires an object root")
  else do
    let properties ← requiredObject root "properties"
    let required ← requiredArray root "required"
    if required.length ≠ properties.length then
      .error (.invalidValue "required" ("strict mode requires every property to be required: " ++
        toString required.length ++ " of " ++ toString properties.length ++ " are"))
    else do
      let questions ← properties.mapM fun e => propertyToQuestion e.1 limits e.2
      if questions = [] then .error .emptyQuestions
      else do
        within "max_questions" questions.length limits.maxQuestions
        pure questions

def decodeSchema (schema : Json) (limits : Limits) : SchemaResult (List DecisionQuestion) := do
  let root ← asObject "schema" schema
  decodeSchemaMap root limits

def imageUrl (part : List (String × Json)) : SchemaResult String :=
  match lookup part "image_url" with
  | some (.str url) => .ok url
  | some (.obj wrapped) => requiredString wrapped "url"
  | some j => .error (.invalidTypeOf "input[].image_url" "string or object" j)
  | none => .error (.missing "input[].image_url")

/-- One part of the input: text goes to the end of the text, an image after the images. -/
def statePart (acc : String × List ImageInput) (part : Json) :
    SchemaResult (String × List ImageInput) := do
  let part ← asObject "input[]" part
  let kind := (lookup part "type").bind asStr
  if kind = some "input_text" ∨ kind = some "text" then do
    let text ← requiredString part "text"
    pure (acc.1 ++ text, acc.2)
  else if kind = some "input_image" ∨ kind = some "image_url" then do
    let url ← imageUrl part
    let image ← parseImageDataUrl "input[].image_url" url
    pure (acc.1, acc.2 ++ [image])
  else .error (.unsupportedConstruct "input[].type" (": `" ++ kind.getD "(missing)" ++
    "` content parts carry no decision semantics"))

def stateFromParts (parts : List Json) : SchemaResult (String × List ImageInput) :=
  parts.foldlM statePart ("", [])

def readInput (body : List (String × Json)) : SchemaResult (String × List ImageInput) :=
  match lookup body "input" with
  | some (.str text) => .ok (text, [])
  | some (.arr parts) => stateFromParts parts
  | some j => .error (.invalidTypeOf "input" "string or content-part array" j)
  | none => .error (.missing "input")

def readFacts (body : List (String × Json)) (s : State) : SchemaResult State :=
  match lookup body "facts" with
  | none => .ok s
  | some facts => do
    let facts ← asObject "facts" facts
    facts.foldlM Jev.addFact s

def decodeRequest (payload : Value) (limits : Limits) : SchemaResult DecisionRequest := do
  let body ← asObject "payload" payload.1
  let (text, images) ← readInput body
  let state ← readFacts body (images.foldl State.withImage (State.fromText text))
  let format ← requiredObject body "format"
  let schema ← requiredObject format "schema"
  let questions ← decodeSchemaMap schema limits
  enforceLimits state.text.utf8ByteSize questions.length limits
  ofCoreSchema (DecisionRequest.new state questions .defaults { limits })

end OpenAi

end OpenCodifier
