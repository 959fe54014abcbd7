import OpenCodifier.Lib.JsonParts
import OpenCodifier.Schema.OpenAi
set_option autoImplicit false

namespace OpenCodifier

open Json

namespace Anthropic

def toolName : String := "opencodifier_decide"

def toolDescription : String :=
  "Answer every decision question exactly once, using the provided state."

section Encoding

variable [JsonText]

def toolFor (request : DecisionRequest) : SchemaResult Value := do
  let inputSchema ← OpenAi.schemaFor request
  pure (.struct [("name", some (.str toolName)), ("description", some (.str toolDescription)),
    ("input_schema", some inputSchema)])

def imageSource (image : ImageInput) : Value :=
  .struct [("media_type", some (.str image.mediaType.asStr)),
    ("data", some (.str (String.ofList (Base64.encode image.data)))), ("type", some (.str "base64"))]

def encodeContent (s : State) : Value :=
  if s.hasImages then
    .array (.struct [("type", some (.str "text")), ("text", some (.str s.text))] ::
      s.images.map fun image => .struct [("type", some (.str "image")),
        ("source", some (imageSource image))])
  else .str s.text

def encodeRequest (request : DecisionRequest) : SchemaResult Value := do
  let tool ← toolFor request
  pure (.struct [("tools", some (.array [tool])),
    ("tool_choice", some (.struct [("type", some (.str "tool")), ("name", some (.str toolName))])),
    ("messages", some (.array [.struct [("role", some (.str "user")),
      ("content", some (encodeContent request.state))]])),
    ("facts", some (OpenAi.encodeFacts request.state))])

end Encoding

section Rewriting

mutual

/-- Every `const` becomes an `enum` of one value, at any depth and under any object. -/
def rewriteConst : Json → Json
  | .obj fields =>
    .obj (rewriteFields (lookup fields "const").isSome fields OrdMap.empty).entries
  | .arr items => .arr (rewriteItems items)
  | j => j

def rewriteItems : List Json → List Json
  | [] => []
  | j :: rest => rewriteConst j :: rewriteItems rest

/-- The fields of an object; a `const` among them replaces a sibling `enum`. -/
def rewriteFields (hasConst : Bool) : List (String × Json) → OrdMap String Json →
    OrdMap String Json
  | [], m => m
  | (key, inner) :: rest, m =>
    if key = "const" then rewriteFields hasConst rest (m.insert "enum" (.arr [inner]))
    else if key = "enum" ∧ hasConst then rewriteFields hasConst rest m
    else rewriteFields hasConst rest (m.insert key (rewriteConst inner))

end

def noConst : Json → Prop
  | .obj fields => lookup fields "const" = none
  | _ => True

/-- No object of the document has a field `const`. -/
def ConstFree : Json → Prop := Everywhere noConst

theorem constFree_obj (fields : List (String × Json)) :
    ConstFree (.obj fields) ↔ lookup fields "const" = none ∧ ∀ e ∈ fields, ConstFree e.2 := by
  rw [ConstFree, Everywhere, everywhereFields_iff, noConst]

theorem constFree_arr (items : List Json) :
    ConstFree (.arr items) ↔ ∀ j ∈ items, ConstFree j := by
  simp [ConstFree, Everywhere, everywhereItems_iff, noConst]

theorem lookup_eq_none_iff {fields : List (String × Json)} {key : String} :
    lookup fields key = none ↔ ∀ e ∈ fields, e.1 ≠ key := by
  simp [lookup]

def rewrittenField (hasConst : Bool) (e : String × Json) : Option (String × Json) :=
  if e.1 = "const" then some ("enum", .arr [e.2])
  else if e.1 = "enum" ∧ hasConst then none
  else some (e.1, rewriteConst e.2)

theorem rewriteFields_eq (hasConst : Bool) (fields : List (String × Json))
    (m : OrdMap String Json) : rewriteFields hasConst fields m =
      (fields.filterMap (rewrittenField hasConst)).foldl (fun m e => m.insert e.1 e.2) m := by
  induction fields generalizing m with
  | nil => rfl
  | cons e rest ih =>
    obtain ⟨key, inner⟩ := e
    rw [rewriteFields]
    by_cases hconst : key = "const"
    · rw [if_pos hconst, ih, List.filterMap_cons_some (b := ("enum", .arr [inner]))]
      · rfl
      · simp [rewrittenField, hconst]
    · rw [if_neg hconst]
      by_cases henum : key = "enum" ∧ hasConst
      · rw [if_pos henum, ih, List.filterMap_cons_none]
        simp [rewrittenField, henum]
      · rw [if_neg henum, ih, List.filterMap_cons_some (b := (key, rewriteConst inner))]
        · rfl
        · simp only [rewrittenField, if_neg hconst, if_neg henum]

theorem rewriteConst_obj (fields : List (String × Json)) :
    rewriteConst (.obj fields) = .obj (OrdMap.ofList (fields.filterMap
      (rewrittenField (lookup fields "const").isSome))).entries := by
  rw [rewriteConst, rewriteFields_eq, OrdMap.ofList]

theorem rewriteConst_plain {fields : List (String × Json)}
    (hsorted : fields.Pairwise fun a b => a.1 < b.1) (h : lookup fields "const" = none) :
    rewriteConst (.obj fields) = .obj (fields.map fun e => (e.1, rewriteConst e.2)) := by
  have hkeys := lookup_eq_none_iff.mp h
  have hmap : fields.filterMap (rewrittenField (lookup fields "const").isSome) =
      fields.map fun e => (e.1, rewriteConst e.2) := by
    rw [← List.filterMap_eq_map]
    refine List.filterMap_congr fun e he => ?_
    simp [rewrittenField, hkeys e he, h]
  have hpairwise : (fields.map fun e => (e.1, rewriteConst e.2)).Pairwise fun a b => a.1 < b.1 :=
    List.pairwise_map.mpr hsorted
  rw [rewriteConst_obj, hmap, OrdMap.ofList_entries ⟨_, hpairwise⟩]

/-- The key a field goes under when its object has `const`. -/
def rewrittenKey (key : String) : Option String :=
  if key = "const" then some "enum" else if key = "enum" then none else some key

theorem rewrittenField_key (e : String × Json) :
    (rewrittenField true e).map Prod.fst = rewrittenKey e.1 := by
  simp only [rewrittenField, rewrittenKey]
  by_cases hconst : e.1 = "const"
  · simp [hconst]
  · by_cases henum : e.1 = "enum" <;> simp [hconst, henum]

theorem rewrittenField_nodup {fields : List (String × Json)} (h : (fields.map Prod.fst).Nodup) :
    ((fields.filterMap (rewrittenField true)).map Prod.fst).Nodup := by
  have hkeys : (fields.filterMap (rewrittenField true)).map Prod.fst =
      (fields.map Prod.fst).filterMap rewrittenKey := by
    rw [List.map_filterMap, List.filterMap_map]
    exact List.filterMap_congr fun e _ => rewrittenField_key e
  rw [hkeys]
  refine h.filterMap fun a a' b ha ha' => ?_
  simp only [rewrittenKey, Option.mem_def] at ha ha'
  grind

theorem rewriteConst_const {fields : List (String × Json)}
    (hkeys : (fields.map Prod.fst).Nodup) {inner : Json}
    (h : lookup fields "const" = some inner) :
    ∃ rewritten, rewriteConst (.obj fields) = .obj rewritten ∧
      ("enum", .arr [inner]) ∈ rewritten ∧ ∀ e ∈ rewritten, e.1 ≠ "const" := by
  have hnodup := rewrittenField_nodup hkeys
  have hmem : ("const", inner) ∈ fields := by
    obtain ⟨e, he, rfl⟩ := Option.map_eq_some_iff.mp h
    have hkey : e.1 = "const" := by simpa using List.find?_some he
    rw [← hkey]
    exact List.mem_of_find?_eq_some he
  refine ⟨_, rewriteConst_obj fields, ?_, ?_⟩
  · rw [h]
    have hfield : ("enum", Json.arr [inner]) ∈ fields.filterMap (rewrittenField true) :=
      List.mem_filterMap.mpr ⟨_, hmem, by simp [rewrittenField]⟩
    exact (OrdMap.mem_entries_iff _ _ _).mpr (OrdMap.get?_ofList_of_mem hnodup hfield)
  · rintro ⟨key, j⟩ he rfl
    rw [h] at he
    have hget := (OrdMap.mem_entries_iff _ _ _).mp he
    rw [Option.isSome_some, OrdMap.get?_ofList hnodup] at hget
    obtain ⟨e, he, -⟩ := Option.map_eq_some_iff.mp hget
    obtain ⟨e', -, hrewritten⟩ := List.mem_filterMap.mp (List.mem_of_find?_eq_some he)
    have hkey : e.1 = "const" := by simpa using List.find?_some he
    simp only [rewrittenField] at hrewritten
    grind

mutual

/-- The rewriting leaves a document alone exactly when it has no `const` to rewrite. -/
theorem rewriteConst_eq_self_iff : ∀ j : Json, j.Canonical → (rewriteConst j = j ↔ ConstFree j)
  | .null, _ => by simp [rewriteConst, ConstFree, Everywhere, noConst]
  | .bool _, _ => by simp [rewriteConst, ConstFree, Everywhere, noConst]
  | .num _, _ => by simp [rewriteConst, ConstFree, Everywhere, noConst]
  | .str _, _ => by simp [rewriteConst, ConstFree, Everywhere, noConst]
  | .arr items, h => by
    rw [rewriteConst, constFree_arr, Json.arr.injEq]
    exact rewriteItems_eq_self_iff items h
  | .obj fields, h => by
    rw [Canonical] at h
    rw [constFree_obj]
    cases hlookup : lookup fields "const" with
    | none =>
      rw [rewriteConst_plain h.1 hlookup, Json.obj.injEq, rewriteFields_eq_self_iff fields h.2]
      simp
    | some inner =>
      have hkeys : (fields.map Prod.fst).Nodup :=
        (List.pairwise_map.mpr h.1 : (fields.map Prod.fst).Pairwise (· < ·)).imp ne_of_lt
      obtain ⟨rewritten, hrewritten, -, hlost⟩ := rewriteConst_const hkeys hlookup
      have hgone : rewritten ≠ fields := by
        rintro rfl
        rw [lookup_eq_none_iff.mpr hlost] at hlookup
        cases hlookup
      rw [hrewritten, Json.obj.injEq]
      simp [hgone]

theorem rewriteItems_eq_self_iff : ∀ items : List Json, CanonicalItems items →
    (rewriteItems items = items ↔ ∀ j ∈ items, ConstFree j)
  | [], _ => by simp [rewriteItems]
  | j :: rest, h => by
    rw [CanonicalItems] at h
    rw [rewriteItems, List.forall_mem_cons, List.cons.injEq, rewriteConst_eq_self_iff j h.1,
      rewriteItems_eq_self_iff rest h.2]

theorem rewriteFields_eq_self_iff : ∀ fields : List (String × Json), CanonicalFields fields →
    (fields.map (fun e => (e.1, rewriteConst e.2)) = fields ↔ ∀ e ∈ fields, ConstFree e.2)
  | [], _ => by simp
  | (key, j) :: rest, h => by
    rw [CanonicalFields] at h
    rw [List.map_cons, List.forall_mem_cons, List.cons.injEq, Prod.mk.injEq,
      rewriteConst_eq_self_iff j h.1, rewriteFields_eq_self_iff rest h.2]
    simp

end

end Rewriting

section Decoding

def imageBlock (block : List (String × Json)) : SchemaResult ImageInput := do
  let source ← requiredObject block "source"
  let kind ← requiredString source "type"
  if kind = "base64" then do
    let media ← requiredString source "media_type"
    let mediaType ← mediaTypeOf media
    let data ← requiredString source "data"
    let bytes ← decodeBase64Image "messages[].content[].source.data" data
    pure ⟨mediaType, bytes⟩
  else .error (.unsupportedConstruct "messages[].content[].source.type" (": `" ++ kind ++
    "` image sources carry no decision semantics; only base64 sources are accepted"))

def contentBlock (acc : String × List ImageInput) (block : Json) :
    SchemaResult (String × List ImageInput) := do
  let block ← asObject "messages[].content[]" block
  let kind := (lookup block "type").bind asStr
  if kind = some "text" then do
    let text ← requiredString block "text"
    pure (acc.1 ++ text, acc.2)
  else if kind = some "image" then do
    let image ← imageBlock block
    pure (acc.1, acc.2 ++ [image])
  else .error (.unsupportedConstruct "messages[].content[].type" (": `" ++ kind.getD "(missing)" ++
    "` content blocks carry no decision semantics"))

/-- Only what the user says is evidence. -/
def readMessage (acc : String × List ImageInput) (message : Json) :
    SchemaResult (String × List ImageInput) := do
  let message ← asObject "messages[]" message
  if (lookup message "role").bind asStr ≠ some "user" then pure acc
  else
    match lookup message "content" with
    | some (.str content) => .ok (acc.1 ++ content, acc.2)
    | some (.arr blocks) => blocks.foldlM contentBlock acc
    | some j => .error (.invalidTypeOf "messages[].content" "string or content-block array" j)
    | none => .error (.missing "messages[].content")

def stateFromMessages : Json → SchemaResult (String × List ImageInput)
  | .arr messages => messages.foldlM readMessage ("", [])
  | j => .error (.invalidTypeOf "messages" "array" j)

/-- The facts of a body; null counts as none. -/
def bodyFacts (body : List (String × Json)) : SchemaResult (Option (List (String × Json))) :=
  match lookup body "facts" with
  | some .null => .ok none
  | none => .ok none
  | some facts => some <$> asObject "facts" facts

def firstTool : Json → SchemaResult Json
  | .arr (tool :: _) => .ok tool
  | .arr [] => .error (.invalidValue "tools" "at least one tool definition is required")
  | j => .error (.invalidTypeOf "tools" "array" j)

def splitTools (body : List (String × Json)) :
    SchemaResult (List (String × Json) × String × List ImageInput) :=
  match lookup body "tools" with
  | some tools => do
    let tool ← firstTool tools
    let tool ← asObject "tools[]" tool
    let schema ← requiredObject tool "input_schema"
    match lookup body "messages" with
    | some messages => do
      let (text, images) ← stateFromMessages messages
      pure (schema, text, images)
    | none => pure (schema, "", [])
  | none => do
    let schema ← requiredObject body "input_schema"
    pure (schema, "", [])

variable [RustStd] [SerdeTexts] [JsonText]

def decodeInputSchema (schema : Json) (limits : Limits) : SchemaResult (List DecisionQuestion) :=
  OpenAi.decodeSchema (rewriteConst schema) limits

def decodeRequest (payload : Value) (limits : Limits) : SchemaResult DecisionRequest := do
  let body ← asObject "payload" payload.1
  let facts ← bodyFacts body
  let (schema, text, images) ← splitTools body
  let questions ← decodeInputSchema (.obj schema) limits
  enforceLimits text.utf8ByteSize questions.length limits
  let state ← (facts.getD []).foldlM Jev.addFact (images.foldl State.withImage (State.fromText text))
  ofCoreSchema (DecisionRequest.new state questions .defaults { limits })

end Decoding

end Anthropic

end OpenCodifier
