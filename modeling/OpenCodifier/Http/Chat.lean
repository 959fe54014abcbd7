import OpenCodifier.Http.Routes
import OpenCodifier.Lib.JsonParts
import OpenCodifier.Schema.OpenAiResponse
set_option autoImplicit false

namespace OpenCodifier.Http

open Json

section Messages

/-- Text of the caller in message order, and the image parts. -/
abbrev Contents := List String × List Value

/-- One content part: text goes to the end of the chunk, an image after the images. -/
def contentPart (acc : String × List Value) (block : Value) : SchemaResult (String × List Value) :=
  match block.1 with
  | .obj fields =>
    match (lookup fields "type").bind asStr with
    | some "text" =>
      match (lookup fields "text").bind asStr with
      | some part => .ok (acc.1 ++ part, acc.2)
      | none => .error (.invalidValue "messages[].content[].text" "text parts must carry string text")
    | some "image_url" => .ok (acc.1, acc.2 ++ [block])
    | other => .error (.invalidValue "messages[].content[].type" ("\x60" ++
        other.getD "(missing)" ++ "\x60 content parts carry no decision semantics; " ++
        "only text and image_url are supported"))
  | _ => .error (.invalidValue "messages[].content[]" "content parts must be objects")

def messageRole (message : Value) : String := ((message.1.get "role").bind asStr).getD ""

def invalidContent : SchemaError :=
  .invalidValue "messages[].content" ("only string content or text/image_url parts are supported; " ++
    "the runtime decides over text and attached images")

/-- The content of a system or user message; other turns are passed over. -/
def messageContent (acc : Contents) (message : Value) : SchemaResult Contents :=
  if messageRole message ≠ "system" ∧ messageRole message ≠ "user" then .ok acc
  else
    match message.get? "content" with
    | none => .error invalidContent
    | some content =>
      match content.1.asStr, content.items? with
      | some text, _ => .ok (acc.1 ++ [text], acc.2)
      | none, some blocks => do
        let (chunk, images) ← blocks.foldlM contentPart ("", acc.2)
        pure (acc.1 ++ [chunk], images)
      | none, none => .error invalidContent

def readMessages (messages : Option Value) : SchemaResult Contents :=
  match messages.bind Value.items? with
  | none => .error (.missing "messages")
  | some messages => messages.foldlM messageContent ([], [])

def joinedText (text : List String) : String := "\n\n".intercalate text

/-- The input that the adapter decodes: plain text, or parts when there are images. -/
def inputOf (contents : Contents) : Value :=
  if contents.2 = [] then .str (joinedText contents.1)
  else .array (.struct [("type", some (.str "input_text")),
    ("text", some (.str (joinedText contents.1)))] :: contents.2)

def stateFromMessages (messages : Option Value) : SchemaResult Value := do
  let contents ← readMessages messages
  if joinedText contents.1 = "" ∧ contents.2 = [] then
    .error (.invalidValue "messages" "no system or user message content to decide over")
  else pure (inputOf contents)

end Messages

section Format

def schemaOf (format : Value) : Option Value :=
  (format.get? "json_schema").bind fun schema => schema.get? "schema"

def formatKind (format : Value) : String := ((format.1.get "type").bind asStr).getD ""

def decisionProperties (responseFormat : Option Value) : SchemaResult Value :=
  match responseFormat with
  | none => .error (.unsupportedGenerationField "response_format")
  | some format =>
    if formatKind format ≠ "json_schema" then
      .error (.unsupportedGenerationField "response_format.type")
    else
      match ((schemaOf format).bind fun schema => schema.get? "properties").filter fun p =>
        p.1 matches .obj _ with
      | some properties => .ok properties
      | none => .error (.invalidValue "response_format.json_schema.schema"
          "expected an object schema with \x60properties\x60 naming one question per property")

def memberNames (v : Value) : Value :=
  match v.1 with
  | .obj fields => .array (fields.map fun e => .str e.1)
  | _ => .array []

/-- The list of the caller, or every property when the caller left the list off. -/
def schemaRequired (responseFormat : Option Value) (properties : Value) : Value :=
  match (responseFormat.bind schemaOf).bind fun schema => schema.get? "required" with
  | some required => required
  | none => memberNames properties

end Format

section Handler

variable [RustStd] [SerdeTexts] [JsonText]

def chatDocument (input schema : Value) : Value :=
  .struct [("input", some input),
    ("format", some (.struct [("strict", some (.bool true)), ("schema", some schema)]))]

def chatRequest (payload : Value) : SchemaResult DecisionRequest :=
  match payload.1 with
  | .obj _ => do
    let input ← stateFromMessages (payload.get? "messages")
    let properties ← decisionProperties (payload.get? "response_format")
    let required := schemaRequired (payload.get? "response_format") properties
    OpenAi.decodeRequest
      (chatDocument input (.struct [("properties", some properties), ("required", some required)]))
      {}
  | j => .error (.invalidTypeOf "body" "a JSON object" j)

def chatCompletion (model : String) (created : Nat) (response : DecisionResponse)
    (content : Value) : Value :=
  .struct [("id", some (.str ("chatcmpl-" ++ toString created))),
    ("object", some (.str "chat.completion")), ("created", some (.nat created)),
    ("model", some (.str model)),
    ("choices", some (.array [.struct [("index", some (.int 0)),
      ("message", some (.struct [("role", some (.str "assistant")),
        ("content", some (.str (JsonText.write content)))])),
      ("finish_reason", some (.str "stop"))]])),
    ("usage", some (.struct [("prompt_tokens", some (.int 0)), ("completion_tokens", some (.int 0)),
      ("total_tokens", some (.int 0))])),
    ("opencodifier", some (.struct [("outcome", some response.outcome.serialize),
      ("calibrated_confidence", some (.float response.confidence.calibratedConfidence))]))]

def chatCompletions (engine : DecisionEngine) (body : Body) (moment : Moment) (created : Nat) :
    DecisionEngine × Except HttpError Value :=
  match parseJson body with
  | .error e => (engine, .error e)
  | .ok payload =>
    match chatRequest payload with
    | .error e => (engine, .error (.schema e))
    | .ok request =>
      let decided := engine.decide request moment
      (decided.1, do
        let response ← decided.2.mapError HttpError.engine
        match OpenAi.encodeResponse response with
        | .ok content =>
          let model := ((payload.1.get "model").bind asStr).getD "opencodifier"
          pure (chatCompletion model created response content)
        | .error e => .error (.engine (.serialization e.display)))

end Handler

end OpenCodifier.Http
