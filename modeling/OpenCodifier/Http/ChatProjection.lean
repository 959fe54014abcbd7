import OpenCodifier.Http.Chat
import OpenCodifier.Lib.Batch
import OpenCodifier.Schema.OpenAiRoundTrip
set_option autoImplicit false

namespace OpenCodifier.Http

open Json

section Own

def callerSchema (payload : Value) : Option Value :=
  (payload.get? "response_format").bind fun format =>
    if formatKind format = "json_schema" then schemaOf format else none

/-- A schema with every property required when it does not say which are. -/
def withRequired (schema : Value) : Value :=
  match schema.get? "required" with
  | some _ => schema
  | none =>
    match schema.get? "properties" with
    | some properties => schema.insert "required" (memberNames properties)
    | none => schema

def SaysNothing (contents : Contents) : Prop := (∀ text ∈ contents.1, text = "") ∧ contents.2 = []

instance (contents : Contents) : Decidable (SaysNothing contents) :=
  inferInstanceAs (Decidable (_ ∧ _))

/-- The messages are refused iff their contents say nothing. -/
def RefusesNothing (messages : Option Value) : Prop :=
  (stateFromMessages messages).toOption = none ↔
    ∀ contents, readMessages messages = .ok contents → SaysNothing contents

/-- Several contents, and all of them say nothing. -/
def RepeatsNothing (messages : Option Value) : Prop :=
  ∃ contents, readMessages messages = .ok contents ∧ SaysNothing contents ∧ 2 ≤ contents.1.length

def UnionRoot (schema : Value) : Prop :=
  (schema.1.get "oneOf").isSome = true ∨ (schema.1.get "anyOf").isSome = true

instance (schema : Value) : Decidable (UnionRoot schema) := inferInstanceAs (Decidable (_ ∨ _))

def withoutUnions (schema : Value) : Value := (schema.remove "oneOf").remove "anyOf"

def requiredOf (schema : Value) : Option Value :=
  (schema.get? "required").or ((schema.get? "properties").map memberNames)

theorem get_withRequired (schema : Value) (key : String) :
    (withRequired schema).1.get key =
      if key = "required" then (requiredOf schema).map Subtype.val else schema.1.get key := by
  rw [withRequired, requiredOf]
  by_cases hkey : key = "required"
  · rw [if_pos hkey, hkey]
    cases hrequired : schema.get? "required" with
    | some required => exact Value.get_of_get? hrequired
    | none =>
      cases hproperties : schema.get? "properties" with
      | none => exact Value.get?_eq_none.mp hrequired
      | some properties =>
        exact (Value.get_insert (Value.object_of_get (Value.get_of_get? hproperties)) _ _ _).trans
          (if_pos rfl)
  · rw [if_neg hkey]
    cases schema.get? "required" with
    | some required => rfl
    | none =>
      cases hproperties : schema.get? "properties" with
      | none => rfl
      | some properties =>
        exact (Value.get_insert (Value.object_of_get (Value.get_of_get? hproperties)) _ _ _).trans
          (if_neg hkey)

theorem get?_withoutUnions (schema : Value) {key : String} (hone : key ≠ "oneOf")
    (hany : key ≠ "anyOf") : (withoutUnions schema).get? key = schema.get? key := by
  have hget : (withoutUnions schema).1.get key = schema.1.get key := by
    rw [withoutUnions, Value.get_remove, if_neg hany, Value.get_remove, if_neg hone]
  refine Option.map_injective Subtype.val_injective ?_
  rw [Value.val_get?, Value.val_get?, hget]

theorem requiredOf_withoutUnions (schema : Value) :
    requiredOf (withoutUnions schema) = requiredOf schema := by
  rw [requiredOf, requiredOf, get?_withoutUnions schema (by decide) (by decide),
    get?_withoutUnions schema (by decide) (by decide)]

variable [RustStd] [SerdeTexts] [JsonText]

def adapterRequest (contents : Contents) (schema : Value) : Option DecisionRequest :=
  (OpenAi.decodeRequest (chatDocument (inputOf contents) (withRequired schema)) {}).toOption

def ownRequest (payload : Value) : Option DecisionRequest :=
  (readMessages (payload.get? "messages")).toOption.bind fun contents =>
    (callerSchema payload).bind fun schema =>
      if SaysNothing contents then none else adapterRequest contents schema

/-- The route loses part of the body: a union at the root of the schema, or that several messages
all say nothing; and what is left can be decided. -/
def Loses (payload : Value) : Prop :=
  ∃ contents schema, readMessages (payload.get? "messages") = .ok contents ∧
    callerSchema payload = some schema ∧
    ((UnionRoot schema ∧ ¬ SaysNothing contents) ∨
      (SaysNothing contents ∧ 2 ≤ contents.1.length)) ∧
    (adapterRequest contents (withoutUnions schema)).isSome = true

end Own

section Decoding

variable [RustStd] [SerdeTexts] [JsonText]

/-- The members of a schema that the adapter reads. -/
def schemaKeys : List String := ["oneOf", "anyOf", "properties", "required"]

theorem decodeSchema_congr {j j' : Json} (hobj : ∃ fields, j = .obj fields)
    (hobj' : ∃ fields, j' = .obj fields) (h : ∀ key ∈ schemaKeys, j.get key = j'.get key)
    (limits : Limits) : OpenAi.decodeSchema j limits = OpenAi.decodeSchema j' limits := by
  obtain ⟨fields, rfl⟩ := hobj
  obtain ⟨fields', rfl⟩ := hobj'
  simp only [schemaKeys, List.forall_mem_cons, Json.get] at h
  obtain ⟨hone, hany, hproperties, hrequired, -⟩ := h
  change OpenAi.decodeSchemaMap fields limits = OpenAi.decodeSchemaMap fields' limits
  simp only [OpenAi.decodeSchemaMap, requiredObject, requiredArray, hone, hany, hproperties,
    hrequired]

/-- The adapter refuses what is no object, has a union at its root, or has no properties. -/
theorem decodeSchema_refused {j : Json} (h : (j.get "oneOf").isSome = true ∨
    (j.get "anyOf").isSome = true ∨ ∀ fields, j.get "properties" ≠ some (.obj fields))
    (limits : Limits) : (OpenAi.decodeSchema j limits).toOption = none := by
  cases j with
  | obj fields =>
    change (OpenAi.decodeSchemaMap fields limits).toOption = none
    simp only [Json.get] at h
    rw [OpenAi.decodeSchemaMap]
    split
    · rfl
    · rename_i hone
      split
      · rfl
      · rename_i hany
        have hproperties := (h.resolve_left hone).resolve_left hany
        rw [requiredObject, Batch.toOption_bind]
        cases hp : lookup fields "properties" with
        | none => rfl
        | some j =>
          cases j with
          | obj inner => exact absurd hp (hproperties inner)
          | _ => rfl
  | _ => rfl

theorem withRequired_refused {schema : Value} (h : UnionRoot schema ∨
    ∀ fields, schema.1.get "properties" ≠ some (.obj fields)) (limits : Limits) :
    (OpenAi.decodeSchema (withRequired schema).1 limits).toOption = none := by
  refine decodeSchema_refused ?_ limits
  rw [get_withRequired, get_withRequired, get_withRequired]
  exact or_assoc.mp h

/-- What the route keeps of a schema reads as the schema without the unions at its root. -/
theorem decodeSchema_projected {schema properties required : Value}
    (hproperties : schema.get? "properties" = some properties)
    (hrequired : requiredOf schema = some required) (limits : Limits) :
    OpenAi.decodeSchema (Value.struct [("properties", some properties),
        ("required", some required)]).1 limits =
      OpenAi.decodeSchema (withRequired (withoutUnions schema)).1 limits := by
  have hplain : (withoutUnions schema).get? "properties" = some properties := by
    rw [get?_withoutUnions schema (by decide) (by decide), hproperties]
  have hobject : ∃ fields, (withRequired (withoutUnions schema)).1 = .obj fields := by
    refine @Value.object_of_get _ properties.1 "properties" ?_
    rw [get_withRequired, if_neg (by decide), Value.get_of_get? hplain]
  have hkept : ∀ key, (Value.struct [("properties", some properties),
      ("required", some required)]).1.get key = (([("properties", some properties),
        ("required", some required)].find? fun f => f.1 = key).bind Prod.snd).map Subtype.val :=
    Value.get_struct (by simp)
  have hstruct : ∃ fields, (Value.struct [("properties", some properties),
      ("required", some required)]).1 = .obj fields := ⟨_, rfl⟩
  refine decodeSchema_congr hstruct hobject (fun key hkey => ?_) limits
  rw [hkept, get_withRequired, requiredOf_withoutUnions, hrequired]
  simp only [schemaKeys, List.mem_cons, List.not_mem_nil, or_false] at hkey
  rcases hkey with rfl | rfl | rfl | rfl
  · simp [withoutUnions, Value.get_remove]
  · simp [withoutUnions, Value.get_remove]
  · rw [if_neg (by decide), Value.get_of_get? hplain]
    rfl
  · rfl

theorem decodeSchema_own {schema : Value} (h : ¬ UnionRoot schema) (limits : Limits) :
    (OpenAi.decodeSchema (withRequired schema).1 limits).toOption =
      (OpenAi.decodeSchema (withRequired (withoutUnions schema)).1 limits).toOption := by
  have hsame : ∀ key, (withoutUnions schema).1.get key = schema.1.get key := by
    intro key
    rw [UnionRoot, not_or, Option.not_isSome_iff_eq_none, Option.not_isSome_iff_eq_none] at h
    rw [withoutUnions, Value.get_remove, Value.get_remove]
    split
    · rename_i hkey
      rw [hkey, h.2]
    · split
      · rename_i hkey
        rw [hkey, h.1]
      · rfl
  have hkeys : ∀ key, (withRequired schema).1.get key =
      (withRequired (withoutUnions schema)).1.get key := by
    intro key
    rw [get_withRequired, get_withRequired, requiredOf_withoutUnions, hsame]
  by_cases hproperties : ∃ fields, schema.1.get "properties" = some (.obj fields)
  · obtain ⟨fields, hfields⟩ := hproperties
    have hown : (withRequired schema).1.get "properties" = some (.obj fields) := by
      rw [get_withRequired, if_neg (by decide), hfields]
    exact congrArg Except.toOption (decodeSchema_congr (Value.object_of_get hown)
      (Value.object_of_get ((hkeys _).symm.trans hown)) (fun key _ => hkeys key) limits)
  · rw [not_exists] at hproperties
    rw [withRequired_refused (.inr hproperties), withRequired_refused (.inr fun fields hf => ?_)]
    exact hproperties fields ((hsame _).symm.trans hf)

theorem decodeRequest_chatDocument (input schema : Value) (limits : Limits) :
    OpenAi.decodeRequest (chatDocument input schema) limits = (do
      let (text, images) ← OpenAi.readInput [("input", input.1)]
      let state := images.foldl State.withImage (State.fromText text)
      let questions ← OpenAi.decodeSchema schema.1 limits
      enforceLimits state.text.utf8ByteSize questions.length limits
      ofCoreSchema (DecisionRequest.new state questions .defaults { limits })) := by
  let format : List (String × Option Value) :=
    [("strict", some (.bool true)), ("schema", some schema)]
  let body : List (String × Option Value) := [("input", some input), ("format", some (.struct format))]
  have hbody : (body.map Prod.fst).Nodup := by simp [body]
  have hinput : lookup (Value.structFields body) "input" = some input.1 := by
    rw [Value.lookup_structFields _ hbody]
    rfl
  have hfacts : lookup (Value.structFields body) "facts" = none := by
    rw [Value.lookup_structFields _ hbody]
    rfl
  have hformat : requiredObject (Value.structFields body) "format" =
      .ok (Value.structFields format) := by
    rw [requiredObject, Value.lookup_structFields _ hbody]
    rfl
  have hschema : requiredObject (Value.structFields format) "schema" = asObject "schema" schema.1 := by
    rw [requiredObject, Value.lookup_structFields _ (by simp [format])]
    rfl
  have hread : OpenAi.readInput (Value.structFields body) =
      OpenAi.readInput [("input", input.1)] := by
    rw [OpenAi.readInput, hinput]
    rfl
  have hpayload : asObject "payload" (chatDocument input schema).1 =
      .ok (Value.structFields body) := rfl
  rw [OpenAi.decodeRequest, hpayload]
  simp only [bind, Except.bind, hread, OpenAi.readFacts, hfacts, hformat, hschema,
    OpenAi.decodeSchema]
  cases OpenAi.readInput [("input", input.1)] with
  | error e => rfl
  | ok read => cases asObject "schema" schema.1 <;> rfl

theorem decodeRequest_congr {schema schema' : Value} {limits : Limits}
    (h : (OpenAi.decodeSchema schema.1 limits).toOption =
      (OpenAi.decodeSchema schema'.1 limits).toOption) (input : Value) :
    (OpenAi.decodeRequest (chatDocument input schema) limits).toOption =
      (OpenAi.decodeRequest (chatDocument input schema') limits).toOption := by
  rw [decodeRequest_chatDocument, decodeRequest_chatDocument]
  simp only [Batch.toOption_bind, h]

theorem decodeRequest_none {schema : Value} {limits : Limits}
    (h : (OpenAi.decodeSchema schema.1 limits).toOption = none) (input : Value) :
    (OpenAi.decodeRequest (chatDocument input schema) limits).toOption = none := by
  rw [decodeRequest_chatDocument]
  simp only [Batch.toOption_bind, h, Option.bind_none]
  cases (OpenAi.readInput [("input", input.1)]).toOption <;> rfl

end Decoding

section Route

theorem joinedText_eq_empty (text : List String) :
    joinedText text = "" ↔ (∀ t ∈ text, t = "") ∧ text.length < 2 := by
  match text with
  | [] => simp [joinedText]
  | [t] => simp [joinedText, String.intercalate_singleton]
  | t :: t' :: rest =>
    have hlong : 2 ≤ (joinedText (t :: t' :: rest)).length := by
      have htwo : "\n\n".length = 2 := rfl
      rw [joinedText, String.intercalate_cons_of_ne_nil (List.cons_ne_nil _ _),
        String.length_append, String.length_append]
      omega
    refine ⟨fun h => ?_, fun h => ?_⟩
    · rw [h] at hlong
      exact absurd hlong (by decide)
    · have htwo := h.2
      simp only [List.length_cons] at htwo
      omega

theorem joined_empty_iff (contents : Contents) :
    (joinedText contents.1 = "" ∧ contents.2 = []) ↔
      SaysNothing contents ∧ contents.1.length < 2 := by
  rw [joinedText_eq_empty, SaysNothing]
  tauto

theorem stateFromMessages_toOption (messages : Option Value) :
    (stateFromMessages messages).toOption = (readMessages messages).toOption.bind fun contents =>
      if joinedText contents.1 = "" ∧ contents.2 = [] then none else some (inputOf contents) := by
  rw [stateFromMessages, Batch.toOption_bind]
  refine Option.bind_congr fun contents _ => ?_
  split <;> rfl

theorem decisionProperties_schema {format schema : Value} (hkind : formatKind format = "json_schema")
    (hschema : schemaOf format = some schema) :
    (decisionProperties (some format)).toOption =
      (schema.get? "properties").filter fun p => p.1 matches .obj _ := by
  rw [decisionProperties]
  simp only [hkind, ne_eq, not_true_eq_false, if_false, hschema, Option.bind_some]
  cases (schema.get? "properties").filter fun p => p.1 matches .obj _ <;> rfl

theorem refusesNothing_iff (messages : Option Value) :
    RefusesNothing messages ↔ ¬ RepeatsNothing messages := by
  rw [RefusesNothing, RepeatsNothing, stateFromMessages_toOption]
  cases hread : readMessages messages with
  | error e => simp [Except.toOption]
  | ok contents =>
    have hrefused : ((Except.ok contents : SchemaResult Contents).toOption.bind fun contents =>
        if joinedText contents.1 = "" ∧ contents.2 = [] then none
        else some (inputOf contents)) = none ↔
        SaysNothing contents ∧ contents.1.length < 2 := by
      rw [← joined_empty_iff]
      show (if _ then _ else _) = none ↔ _
      split <;> simp_all
    rw [hrefused]
    simp only [Except.ok.injEq, forall_eq', exists_eq_left']
    by_cases hempty : SaysNothing contents <;> simp [hempty]

variable [RustStd] [SerdeTexts] [JsonText]

theorem projected_eq {format schema : Value} (hschema : schemaOf format = some schema)
    (contents : Contents) :
    (((schema.get? "properties").filter fun p => p.1 matches .obj _).bind fun properties =>
      (OpenAi.decodeRequest (chatDocument (inputOf contents) (.struct
        [("properties", some properties),
          ("required", some (schemaRequired (some format) properties))])) {}).toOption) =
      adapterRequest contents (withoutUnions schema) := by
  cases hproperties : (schema.get? "properties").filter fun p => p.1 matches .obj _ with
  | none =>
    have hnone : ∀ fields, (withoutUnions schema).1.get "properties" ≠ some (.obj fields) := by
      intro fields hf
      rw [← Value.val_get?, get?_withoutUnions schema (by decide) (by decide)] at hf
      obtain ⟨p, hp, hobject⟩ := Option.map_eq_some_iff.mp hf
      rw [hp, Option.filter_some, hobject] at hproperties
      exact absurd hproperties (by simp)
    exact (decodeRequest_none (withRequired_refused (.inr hnone) _) _).symm
  | some properties =>
    have hmem : schema.get? "properties" = some properties := Option.eq_some_of_filter_eq_some hproperties
    have hrequired : requiredOf schema = some (schemaRequired (some format) properties) := by
      rw [requiredOf, schemaRequired, Option.bind_some, hschema, Option.bind_some, hmem]
      cases schema.get? "required" <;> rfl
    exact decodeRequest_congr (congrArg Except.toOption (decodeSchema_projected hmem hrequired _)) _

/-- What the route decides is what the adapter makes of the schema without the unions at its
root, unless the joined messages are empty. -/
theorem chatRequest_eq (payload : Value) : (chatRequest payload).toOption =
    (readMessages (payload.get? "messages")).toOption.bind fun contents =>
      (callerSchema payload).bind fun schema =>
        if joinedText contents.1 = "" ∧ contents.2 = [] then none
        else adapterRequest contents (withoutUnions schema) := by
  rw [chatRequest]
  split
  · simp only [Batch.toOption_bind, stateFromMessages_toOption, Option.bind_assoc]
    refine Option.bind_congr fun contents _ => ?_
    rw [callerSchema]
    cases hformat : payload.get? "response_format" with
    | none => split <;> rfl
    | some format =>
      rw [Option.bind_some]
      by_cases hkind : formatKind format = "json_schema"
      · rw [if_pos hkind]
        cases hschema : schemaOf format with
        | none =>
          have hrefused : (decisionProperties (some format)).toOption = none := by
            rw [decisionProperties]
            simp only [hkind, hschema]
            rfl
          rw [hrefused]
          split <;> rfl
        | some schema =>
          rw [decisionProperties_schema hkind hschema, Option.bind_some]
          split
          · rfl
          · rw [Option.bind_some]
            exact projected_eq hschema contents
      · have hrefused : (decisionProperties (some format)).toOption = none := by
          rw [decisionProperties]
          simp only [ne_eq, hkind, not_false_eq_true, if_true]
          rfl
        rw [if_neg hkind, hrefused]
        split <;> rfl
  · rename_i hobject
    have hmessages : payload.get? "messages" = none := by
      refine Value.get?_eq_none.mpr ?_
      obtain ⟨j, hj⟩ := payload
      cases j with
      | obj fields => exact absurd rfl (hobject fields)
      | _ => rfl
    rw [hmessages]
    rfl

theorem adapterRequest_own (contents : Contents) (schema : Value) :
    adapterRequest contents schema =
      if UnionRoot schema then none else adapterRequest contents (withoutUnions schema) := by
  split
  · rename_i hunion
    exact decodeRequest_none (withRequired_refused (.inl hunion) _) _
  · rename_i hunion
    exact decodeRequest_congr (decodeSchema_own hunion _) _

theorem loses_iff {payload schema : Value} {contents : Contents}
    (hread : readMessages (payload.get? "messages") = .ok contents)
    (hschema : callerSchema payload = some schema) :
    Loses payload ↔ ((UnionRoot schema ∧ ¬ SaysNothing contents) ∨
        (SaysNothing contents ∧ 2 ≤ contents.1.length)) ∧
      (adapterRequest contents (withoutUnions schema)).isSome = true := by
  refine ⟨fun ⟨contents', schema', hread', hschema', h⟩ => ?_,
    fun h => ⟨contents, schema, hread, hschema, h⟩⟩
  cases hread.symm.trans hread'
  cases hschema.symm.trans hschema'
  exact h

/-- The route decides the caller's own schema and messages unless it loses what they say, and it
refuses the messages that say nothing unless there are several. -/
theorem chatRequest_iff (payload : Value) :
    ((chatRequest payload).toOption = ownRequest payload ↔ ¬ Loses payload) ∧
      (RefusesNothing (payload.get? "messages") ↔ ¬ RepeatsNothing (payload.get? "messages")) := by
  refine ⟨?_, refusesNothing_iff _⟩
  rw [chatRequest_eq, ownRequest]
  cases hread : readMessages (payload.get? "messages") with
  | error e =>
    have hkept : ¬ Loses payload := fun ⟨_, _, hok, _⟩ => by
      rw [hread] at hok
      cases hok
    exact iff_of_true rfl hkept
  | ok contents =>
    cases hschema : callerSchema payload with
    | none =>
      have hkept : ¬ Loses payload := fun ⟨_, _, _, hsome, _⟩ => by
        rw [hschema] at hsome
        cases hsome
      exact iff_of_true rfl hkept
    | some schema =>
      rw [loses_iff hread hschema]
      show (if _ then none else _) = (if _ then none else _) ↔ _
      rw [adapterRequest_own contents schema]
      cases hplain : adapterRequest contents (withoutUnions schema) with
      | none => simp
      | some request =>
        have hjoined := joined_empty_iff contents
        by_cases hempty : SaysNothing contents
        · by_cases hlong : 2 ≤ contents.1.length
          · rw [if_neg (mt hjoined.mp fun h => by omega), if_pos hempty]
            simp [hempty, hlong]
          · rw [if_pos (hjoined.mpr ⟨hempty, by omega⟩), if_pos hempty]
            simp [hempty, hlong]
        · rw [if_neg (mt hjoined.mp fun h => hempty h.1), if_neg hempty]
          by_cases hunion : UnionRoot schema <;> simp [hempty, hunion]

end Route

section Samples

attribute [local instance] plainStd plainTexts listsText

def urgentBody (messages : List String) (union : Option Value) : Value :=
  .struct [("messages", some (.array (messages.map fun text =>
      .struct [("role", some (.str "user")), ("content", some (.str text))]))),
    ("response_format", some (.struct [("type", some (.str "json_schema")),
      ("json_schema", some (.struct [("schema", some (.struct [("oneOf", union),
        ("properties", some (.struct [("urgent",
          some (.struct [("type", some (.str "boolean"))]))]))]))]))]))]

/-- A union at the root of the schema is refused by the adapter and lost by the route, and two empty
messages are not refused. -/
theorem chatRequest_loses :
    ownRequest (urgentBody ["disk full"] (some (.array []))) = none ∧
      (chatRequest (urgentBody ["disk full"] (some (.array [])))).toOption ≠ none ∧
      ¬ RefusesNothing ((urgentBody ["", ""] none).get? "messages") := by
  have hown : (ownRequest (urgentBody ["disk full"] (some (.array [])))).isNone = true := by
    decide +kernel
  have hdecided : (chatRequest (urgentBody ["disk full"] (some (.array [])))).toOption.isSome =
      true := by
    decide +kernel
  refine ⟨Option.isNone_iff_eq_none.mp hown, Option.isSome_iff_ne_none.mp hdecided, ?_⟩
  rw [refusesNothing_iff, not_not]
  exact ⟨(["", ""], []), rfl, by decide, by decide⟩

end Samples

end OpenCodifier.Http
