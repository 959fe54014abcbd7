import OpenCodifier.Schema.Anthropic
import OpenCodifier.Schema.OpenAiRoundTrip
set_option autoImplicit false

namespace OpenCodifier

open Json

namespace Anthropic

section ConstFree

theorem constFree_of_lookup {fields : List (String × Json)} {key : String} {j : Json}
    (h : ConstFree (.obj fields)) (hkey : lookup fields key = some j) : ConstFree j := by
  obtain ⟨e, he, rfl⟩ := Option.map_eq_some_iff.mp hkey
  exact ((constFree_obj fields).mp h).2 e (List.mem_of_find?_eq_some he)

theorem constFree_struct {fields : List (String × Option Value)}
    (hn : (fields.map Prod.fst).Nodup) (hkeys : ∀ f ∈ fields, f.1 ≠ "const")
    (hvalues : ∀ f ∈ fields, f.2.elim True fun v => ConstFree v.1) :
    ConstFree (Value.struct fields).1 := by
  rw [Value.struct_val, constFree_obj]
  constructor
  · have hnone : fields.find? (fun f => f.1 = "const") = none :=
      List.find?_eq_none.mpr fun f hf => by simpa using hkeys f hf
    simp [Value.lookup_structFields "const" hn, hnone]
  · intro e he
    have hsorted : (Value.struct fields).1.Canonical := (Value.struct fields).2
    rw [Value.struct_val, Canonical] at hsorted
    have hlookup := lookup_of_mem hsorted.1 he
    rw [Value.lookup_structFields e.1 hn] at hlookup
    obtain ⟨v, hv, hval⟩ := Option.map_eq_some_iff.mp hlookup
    obtain ⟨f, hf, hsome⟩ := Option.bind_eq_some_iff.mp hv
    rw [← hval]
    simpa [hsome] using hvalues f (List.mem_of_find?_eq_some hf)

theorem constFree_array {items : List Value} (h : ∀ v ∈ items, ConstFree v.1) :
    ConstFree (Value.array items).1 := by
  rw [Value.array, constFree_arr]
  intro j hj
  obtain ⟨v, hv, rfl⟩ := List.mem_map.mp hj
  exact h v hv

variable [JsonText]

theorem constFree_propertyFor (q : DecisionQuestion) : ConstFree (OpenAi.propertyFor q).1 := by
  cases q with
  | choice q =>
    refine constFree_struct (by simp) (by simp) ?_
    have hids : ConstFree (Value.array (q.candidates.map fun c => .str c.id.text)).1 := by
      refine constFree_array fun v hv => ?_
      obtain ⟨c, -, rfl⟩ := List.mem_map.mp hv
      trivial
    simpa [Value.str, ConstFree, Everywhere, noConst] using hids
  | boolean q => exact constFree_struct (by simp) (by simp) (by simp [Value.str, ConstFree, Everywhere, noConst])
  | score q =>
    exact constFree_struct (by simp) (by simp)
      (by simp [Value.str, Value.nat, Value.int, ConstFree, Everywhere,
        noConst])

theorem constFree_propertyFields_iff {questions : List DecisionQuestion}
    (hids : (questions.map DecisionQuestion.id).Nodup) :
    ConstFree (.obj (OpenAi.propertyFields questions)) ↔ ∀ q ∈ questions, q.id.text ≠ "const" := by
  have hmem := OpenAi.mem_propertyFields_iff hids
  rw [constFree_obj, lookup_eq_none_iff]
  constructor
  · intro h q hq
    exact h.1 _ ((hmem _).mpr ⟨q, hq, rfl⟩)
  · intro h
    constructor
    · intro e he
      obtain ⟨q, hq, rfl⟩ := (hmem e).mp he
      exact h q hq
    · intro e he
      obtain ⟨q, -, rfl⟩ := (hmem e).mp he
      exact constFree_propertyFor q

/-- The schema is left alone exactly when no question is called `const`. -/
theorem rewriteConst_schemaFor_iff {r : DecisionRequest} (hids : r.questionIds.Nodup) :
    ∃ schema, OpenAi.schemaFor r = .ok schema ∧
      (rewriteConst schema.1 = schema.1 ↔ ∀ q ∈ r.questions, q.id.text ≠ "const") := by
  obtain ⟨schema, root, hschema, hroot, -, -, -, hproperties, -⟩ := OpenAi.schemaFor_ok hids
  refine ⟨schema, hschema, ?_⟩
  rw [rewriteConst_eq_self_iff _ schema.2, ← constFree_propertyFields_iff hids]
  constructor
  · intro h
    rw [hroot] at h
    exact constFree_of_lookup h hproperties
  · intro h
    have hunique := (enforceUniqueQuestions_ok_iff r).mpr hids
    rw [OpenAi.schemaFor, hunique] at hschema
    cases hschema
    refine constFree_struct (by simp) (by simp) ?_
    have hrequired : ConstFree (Value.array (r.questions.map fun q => .str q.id.text)).1 := by
      refine constFree_array fun v hv => ?_
      obtain ⟨q, -, rfl⟩ := List.mem_map.mp hv
      trivial
    have hobject : ConstFree (Value.object (OpenAi.properties r.questions)).1 := h
    simp only [List.forall_mem_cons, Option.elim_some]
    exact ⟨trivial, trivial, trivial, hobject, hrequired, trivial, by simp⟩

end ConstFree

section Requests

theorem readMessage_encodeContent {message : List (String × Json)} {s : State}
    (hrole : lookup message "role" = some (.str "user"))
    (h : lookup message "content" = some (encodeContent s).1) :
    readMessage ("", []) (.obj message) = .ok (s.text, s.images) := by
  have hblocks : ∀ (images : List ImageInput) (acc : String × List ImageInput),
      (images.map fun image => (Value.struct [("type", some (.str "image")),
        ("source", some (imageSource image))]).1).foldlM contentBlock acc =
        .ok (acc.1, acc.2 ++ images) := by
    intro images
    induction images with
    | nil => simp [pure, Except.pure]
    | cons image images ih =>
      intro acc
      have hblock : contentBlock acc (Value.struct [("type", some (.str "image")),
          ("source", some (imageSource image))]).1 = .ok (acc.1, acc.2 ++ [image]) := by
        simp [contentBlock, imageBlock, imageSource, asObject, requiredObject, requiredString,
          asString, Value.str, asStr, mediaTypeOf, ImageMediaType.tryFrom_asStr,
          decodeBase64Image_encode, bind, Except.bind, pure, Except.pure]
      rw [List.map_cons, List.foldlM_cons, hblock]
      exact (ih _).trans (by simp)
  unfold encodeContent at h
  split at h
  · have htext : contentBlock ("", []) (Value.struct [("type", some (.str "text")),
        ("text", some (.str s.text))]).1 = .ok (s.text, []) := by
      simp [contentBlock, asObject, requiredString, asString, Value.str, asStr, bind, Except.bind,
        pure, Except.pure]
    simp only [readMessage, asObject, hrole, h, Value.array, List.map_cons, List.foldlM_cons, htext,
      List.map_map, bind, Except.bind]
    exact hblocks s.images _
  · rename_i hnone
    have himages : s.images = [] := by simpa [State.hasImages] using hnone
    simp [readMessage, asObject, hrole, h, Value.str, asStr, himages, bind, Except.bind]

variable [RustStd] [SerdeTexts] [JsonText]

theorem decodeRequest_encoded {r : DecisionRequest} {schema : Value} {root : List (String × Json)}
    (hschema : OpenAi.schemaFor r = .ok schema) (hroot : schema.1 = .obj root)
    (hwords : r.state.FitsWords) (limits : Limits) :
    ∃ payload, encodeRequest r = .ok payload ∧
      decodeRequest payload limits = (do
        let questions ← decodeInputSchema schema.1 limits
        enforceLimits r.state.text.utf8ByteSize questions.length limits
        ofCoreSchema (DecisionRequest.new r.state questions .defaults { limits })) := by
  obtain ⟨payload, body, hpayload, hbody, hfacts, tool, htools, htool, message, hmessages, hrole,
      hcontent⟩ :
      ∃ payload body, encodeRequest r = .ok payload ∧ payload.1 = .obj body ∧
        lookup body "facts" = some (OpenAi.encodeFacts r.state).1 ∧
        ∃ tool, lookup body "tools" = some (.arr [.obj tool]) ∧
          lookup tool "input_schema" = some (.obj root) ∧
        ∃ message, lookup body "messages" = some (.arr [.obj message]) ∧
          lookup message "role" = some (.str "user") ∧
          lookup message "content" = some (encodeContent r.state).1 :=
    ⟨_, _, by rw [encodeRequest, toolFor, hschema]; rfl, Value.struct_val _, by simp,
      Value.structFields [("name", some (.str toolName)),
        ("description", some (.str toolDescription)), ("input_schema", some schema)],
      by simp [Value.array], by simp [hroot],
      Value.structFields [("role", some (.str "user")), ("content", some (encodeContent r.state))],
      by simp [Value.array], by simp [Value.str], by simp⟩
  refine ⟨payload, hpayload, ?_⟩
  have hread := readMessage_encodeContent hrole hcontent
  have hsplit : splitTools body = .ok (root, r.state.text, r.state.images) := by
    simp only [splitTools, htools, firstTool, asObject, requiredObject, htool, hmessages,
      stateFromMessages, List.foldlM_cons, List.foldlM_nil, hread, bind, Except.bind, pure,
      Except.pure]
  have hbodyFacts : bodyFacts body = .ok (some ((r.state.facts.mapValues fun _ value =>
      value.serialize).entries.map fun e => (e.1, e.2.1))) := by
    simp only [bodyFacts, hfacts]
    rfl
  simp only [decodeRequest, hbody, asObject, hbodyFacts, hsplit, bind, Except.bind, hroot,
    Option.getD_some, foldlM_addFact_state hwords]

omit [RustStd] [SerdeTexts] [JsonText] in
theorem lookup_rewritten (fields : List (String × Json)) (key : String) :
    lookup (fields.map fun e => (e.1, rewriteConst e.2)) key =
      (lookup fields key).map rewriteConst := by
  simp [lookup, List.find?_map, Function.comp_def]

/-- A schema with a property `const` is refused: its `enum` is no property. -/
theorem decodeInputSchema_const {schema : Value} {root fields : List (String × Json)} {inner : Json}
    (hroot : schema.1 = .obj root) (hplain : lookup root "const" = none)
    (hproperties : lookup root "properties" = some (.obj fields))
    (hconst : lookup fields "const" = some inner) (limits : Limits)
    (questions : List DecisionQuestion) : decodeInputSchema schema.1 limits ≠ .ok questions := by
  intro h
  have hcanonical : Canonical (.obj root) := hroot ▸ schema.2
  rw [Canonical, canonicalFields_iff] at hcanonical
  obtain ⟨e, he, hfields⟩ := Option.map_eq_some_iff.mp hproperties
  have hinner : Canonical (.obj fields) := hfields ▸ hcanonical.2 e (List.mem_of_find?_eq_some he)
  rw [Canonical] at hinner
  have hkeys : (fields.map Prod.fst).Nodup :=
    (List.pairwise_map.mpr hinner.1 : (fields.map Prod.fst).Pairwise (· < ·)).imp ne_of_lt
  obtain ⟨rewritten, hrewritten, henum, -⟩ := rewriteConst_const hkeys hconst
  have hlookup : lookup (root.map fun e => (e.1, rewriteConst e.2)) "properties" =
      some (.obj rewritten) := by
    rw [lookup_rewritten, hproperties, Option.map_some, hrewritten]
  rw [decodeInputSchema, hroot, rewriteConst_plain hcanonical.1 hplain] at h
  simp only [OpenAi.decodeSchema, asObject, OpenAi.decodeSchemaMap,
    requiredObject_ok_iff.mpr hlookup, bind, Except.bind] at h
  split at h
  · cases h
  · split at h
    · cases h
    · obtain ⟨required, -, h⟩ := Result.bind_ok.mp h
      split at h
      · cases h
      · obtain ⟨decoded, hdecoded, -⟩ := Result.bind_ok.mp h
        obtain ⟨q, -, hq⟩ := Result.mapM_ok_mem hdecoded henum
        simp [OpenAi.propertyToQuestion] at hq

theorem decodeRequest_const {r : DecisionRequest} (hwords : r.state.FitsWords)
    (hids : r.questionIds.Nodup) {q : DecisionQuestion} (hq : q ∈ r.questions)
    (hname : q.id.text = "const") {payload : Value} (hpayload : encodeRequest r = .ok payload)
    (limits : Limits) (decoded : DecisionRequest) : decodeRequest payload limits ≠ .ok decoded := by
  intro h
  obtain ⟨schema, root, hschema, hroot, -, -, hplain, hproperties, -⟩ := OpenAi.schemaFor_ok hids
  obtain ⟨_, hsame, hdecode⟩ := decodeRequest_encoded hschema hroot hwords limits
  cases hpayload.symm.trans hsame
  rw [hdecode] at h
  obtain ⟨questions, hquestions, -⟩ := Result.bind_ok.mp h
  have hmem := (OpenAi.mem_propertyFields_iff hids _).mpr ⟨q, hq, rfl⟩
  have hconst := lookup_of_mem (OpenAi.propertyFields_pairwise r.questions) hmem
  rw [hname] at hconst
  exact decodeInputSchema_const hroot hplain hproperties hconst _ _ hquestions

/-- A request whose questions have ids of their own is read back, sorted by id, exactly when none
of them is called `const`; the rewriting leaves its schema alone exactly then. -/
theorem decodeRequest_encodeRequest_iff (hjson : JsonText.ReadsBack) {r : DecisionRequest}
    (hnew : DecisionRequest.new r.state r.questions r.policy r.metadata = .ok r)
    (hwords : r.state.FitsWords) (hids : r.questionIds.Nodup) :
    ∃ payload schema, encodeRequest r = .ok payload ∧ OpenAi.schemaFor r = .ok schema ∧
      ((∃ decoded, decodeRequest payload r.metadata.limits = .ok decoded ∧
        decoded.state = r.state ∧ SortedById r.questions decoded.questions) ↔
          ∀ q ∈ r.questions, q.id.text ≠ "const") ∧
      (rewriteConst schema.1 = schema.1 ↔ ∀ q ∈ r.questions, q.id.text ≠ "const") := by
  have hadmitted := DecisionRequest.admitted_of_new hnew
  obtain ⟨schema, root, hschema, hroot, hone, hany, -, hproperties, hrequired⟩ :=
    OpenAi.schemaFor_ok hids
  obtain ⟨payload, hpayload, hdecode⟩ :=
    decodeRequest_encoded hschema hroot hwords r.metadata.limits
  obtain ⟨_, hsame, hrewrite⟩ := rewriteConst_schemaFor_iff hids
  cases hschema.symm.trans hsame
  refine ⟨payload, schema, hpayload, hschema, ?_, hrewrite⟩
  constructor
  · rintro ⟨decoded, hdecoded, -, -⟩ q hq hname
    exact decodeRequest_const hwords hids hq hname hpayload _ _ hdecoded
  · intro h
    obtain ⟨questions, hquestions, hsorted⟩ :=
      OpenAi.decodeSchemaMap_schemaFor hjson hids hadmitted hone hany hproperties hrequired
    obtain ⟨henforce, back, hback, hstate, hsorted⟩ := new_of_sorted hadmitted hsorted
    have hinput : decodeInputSchema schema.1 r.metadata.limits = .ok questions := by
      rw [decodeInputSchema, hrewrite.mpr h, hroot]
      exact hquestions
    refine ⟨back, ?_, hstate, hsorted⟩
    rw [hdecode]
    simp only [hinput, henforce, hback, ofCoreSchema, bind, Except.bind]

end Requests

section Samples

attribute [local instance] plainStd plainTexts listsText

theorem decodeRequest_encodeRequest_pictured_iff :
    ∃ payload schema, encodeRequest pictured = .ok payload ∧
      OpenAi.schemaFor pictured = .ok schema ∧
      ((∃ decoded, decodeRequest payload pictured.metadata.limits = .ok decoded ∧
        decoded.state = pictured.state ∧ SortedById pictured.questions decoded.questions) ↔
          ∀ q ∈ pictured.questions, q.id.text ≠ "const") ∧
      (rewriteConst schema.1 = schema.1 ↔ ∀ q ∈ pictured.questions, q.id.text ≠ "const") :=
  decodeRequest_encodeRequest_iff readsBack_listsText (by decide +kernel) fitsWords_pictured
    (by decide)

/-- A request with one Boolean question called `const`. -/
def constantly : DecisionRequest := Sample.request [Sample.boolean "const"] .defaults

/-- It is encoded, and its encoding is refused. -/
theorem decodeRequest_encodeRequest_constantly :
    DecisionRequest.new constantly.state constantly.questions constantly.policy
      constantly.metadata = .ok constantly ∧ constantly.state.FitsWords ∧
    constantly.questionIds.Nodup ∧ JsonText.ReadsBack ∧
    ∃ payload, encodeRequest constantly = .ok payload ∧
      ¬ ∃ decoded, decodeRequest payload constantly.metadata.limits = .ok decoded := by
  have hids : constantly.questionIds.Nodup := by decide
  have hwords : constantly.state.FitsWords := by
    simp [State.FitsWords, constantly, Sample.request, State.fromText, OrdMap.empty]
  obtain ⟨schema, root, hschema, hroot, -⟩ := OpenAi.schemaFor_ok hids
  obtain ⟨payload, hpayload, -⟩ := decodeRequest_encoded hschema hroot hwords {}
  refine ⟨by decide +kernel, hwords, hids, readsBack_listsText, payload, hpayload, ?_⟩
  rintro ⟨decoded, hdecoded⟩
  exact decodeRequest_const hwords hids (List.mem_singleton_self _) (by decide) hpayload _ _
    hdecoded

end Samples

end Anthropic

end OpenCodifier
