import OpenCodifier.Lib.JsonStrings
import OpenCodifier.Schema.ChosenValues
import OpenCodifier.Schema.Native
set_option autoImplicit false

namespace OpenCodifier

open Json

section Accepting

theorem Admitted.perm {limits : Limits} {state : State} {questions questions' : List DecisionQuestion}
    (h : Admitted limits state questions) (hp : questions'.Perm questions) :
    Admitted limits state questions' where
  nonempty := fun hnil => h.nonempty (List.nil_perm.mp (hnil ▸ hp))
  count := hp.length_eq ▸ h.count
  bytes := h.bytes
  images := h.images
  imageBytes := h.imageBytes
  candidates := fun q hq => h.candidates q (hp.subset hq)

theorem Admitted.enforced {limits : Limits} {state : State} {questions : List DecisionQuestion}
    (h : Admitted limits state questions) :
    enforceLimits state.text.utf8ByteSize questions.length limits = .ok () := by
  have hbytes := (within_ok_iff "max_input_bytes" _ _).mpr h.bytes
  have hcount := (within_ok_iff "max_questions" _ _).mpr h.count
  have hsome : questions.length ≠ 0 := by simpa using h.nonempty
  simp only [enforceLimits, hbytes, bind, Except.bind, if_neg hsome, hcount]

structure SortedById (questions decoded : List DecisionQuestion) : Prop where
  perm : decoded.Perm questions
  ascending : (decoded.map DecisionQuestion.id).Pairwise (· < ·)

theorem new_of_sorted {r : DecisionRequest} {decoded : List DecisionQuestion}
    (hadmitted : Admitted r.metadata.limits r.state r.questions)
    (hsorted : SortedById r.questions decoded) :
    enforceLimits r.state.text.utf8ByteSize decoded.length r.metadata.limits = .ok () ∧
      ∃ back, DecisionRequest.new r.state decoded .defaults { limits := r.metadata.limits } =
        .ok back ∧ back.state = r.state ∧ SortedById r.questions back.questions := by
  have hback : Admitted ({ limits := r.metadata.limits } : RequestMetadata).limits r.state decoded :=
    hadmitted.perm hsorted.perm
  exact ⟨hback.enforced, _, DecisionRequest.new_of_admitted _ _ hback, rfl, hsorted⟩

end Accepting

section State

theorem foldlM_addFact [SerdeTexts] {s : State} (facts : OrdMap String FactValue)
    (hw : ∀ e ∈ facts.entries, e.2.FitsWords) (hs : s.facts = OrdMap.empty) :
    ((facts.mapValues fun _ value => value.serialize).entries.map fun e => (e.1, e.2.1)).foldlM
      Jev.addFact s = .ok { s with facts } := by
  have hfold : ∀ (l : List (String × FactValue)) (s : State), (∀ e ∈ l, e.2.FitsWords) →
      (l.map fun e => (e.1, e.2.serialize.1)).foldlM Jev.addFact s =
        .ok { s with facts := l.foldl (fun m e => m.insert e.1 e.2) s.facts } := by
    intro l
    induction l with
    | nil => exact fun s _ => rfl
    | cons e l ih =>
      intro s hl
      have hread := FactValue.deserialize_serialize (hl e List.mem_cons_self)
      rw [List.map_cons, List.foldlM_cons]
      simp only [Jev.addFact, hread]
      exact ih (s.withFact e.1 e.2) fun e he => hl e (List.mem_cons_of_mem _ he)
  have hentries : (facts.mapValues fun _ value => value.serialize).entries.map
      (fun e => (e.1, e.2.1)) = facts.entries.map fun e => (e.1, e.2.serialize.1) := by
    simp [OrdMap.mapValues, List.map_map, Function.comp_def]
  have hfacts : facts.entries.foldl (fun m e => m.insert e.1 e.2) s.facts = facts := by
    refine OrdMap.ext_get? fun k => ?_
    have hget := OrdMap.get?_ofList (l := facts.entries) facts.nodup_keys k
    rw [OrdMap.ofList] at hget
    rw [hs, hget]
    rfl
  rw [hentries, hfold facts.entries s hw, hfacts]

theorem foldl_withImage (images : List ImageInput) (s : State) :
    images.foldl State.withImage s = { s with images := s.images ++ images } := by
  induction images generalizing s with
  | nil => simp
  | cons image images ih =>
    rw [List.foldl_cons, ih]
    simp [State.withImage]

theorem foldlM_addFact_state [SerdeTexts] {s : State} (hw : s.FitsWords) :
    ((s.facts.mapValues fun _ value => value.serialize).entries.map fun e => (e.1, e.2.1)).foldlM
      Jev.addFact (s.images.foldl State.withImage (State.fromText s.text)) = .ok s := by
  rw [foldl_withImage]
  exact foldlM_addFact s.facts hw rfl

end State

theorem ScoreLevel.new_self (l : ScoreLevel) : ScoreLevel.new l.label = .ok l := by
  rw [ScoreLevel.new, dif_neg l.label_ne]

/-- The serializer's text of a list of strings is read back. -/
def JsonText.ReadsBack [JsonText] : Prop :=
  ∀ values : List String, JsonText.parse (JsonText.write (.array (values.map .str))) =
    .ok (Value.array (values.map .str)).1

namespace OpenAi

section Properties

theorem stripMarker_append (marker payload : String) :
    stripMarker marker (marker ++ payload) = some payload := by
  simp [stripMarker]

theorem anyOfField_eq_none [RustStd] [SerdeTexts] [JsonText] (name : String) (limits : Limits)
    {fields : List (String × Json)} (h : lookup fields "anyOf" = none) :
    anyOfField name limits fields = none := by
  induction fields with
  | nil => rfl
  | cons e fields ih =>
    obtain ⟨key, value⟩ := e
    by_cases hkey : key = "anyOf"
    · simp [lookup, hkey] at h
    · rw [anyOfField, if_neg hkey]
      refine ih ?_
      simpa [lookup, hkey] using h

theorem propertyTitle_eq {property : List (String × Json)} {text : String}
    (h : lookup property "title" = some (.str text)) (ht : text ≠ "") :
    propertyTitle property = some text := by
  simp [propertyTitle, h, asStr, ht]

theorem optionalString_eq {property : List (String × Json)} {field value : String}
    (h : lookup property field = some (.str value)) :
    optionalString property field = .ok (some value) := by
  simp [optionalString, h, asString, Functor.map, Except.map]

theorem readStrings_jsonString [SerdeTexts] [JsonText] (hjson : JsonText.ReadsBack)
    (values : List String) : readStrings (jsonString values) = .ok values := by
  have hread : asList asStr (Value.array (values.map .str)).1 = some values :=
    Value.asList_array fun a _ => Value.asStr_str a
  simp only [readStrings, jsonString, hjson values, hread]

theorem candidateDescriptions_eq [SerdeTexts] [JsonText] (hjson : JsonText.ReadsBack)
    {property : List (String × Json)} {values : List String}
    (h : lookup property "description" = some (.str (descriptionsMarker ++ jsonString values))) :
    candidateDescriptions property = .ok values := by
  simp only [candidateDescriptions, optionalString_eq h, bind, Except.bind, Option.bind_some,
    stripMarker_append, readStrings_jsonString hjson]

theorem levelLabels_eq [SerdeTexts] [JsonText] (hjson : JsonText.ReadsBack)
    {property : List (String × Json)} {values : List String} (hv : 2 ≤ values.length)
    (h : lookup property "description" = some (.str (levelsMarker ++ jsonString values))) :
    levelLabels property = .ok values := by
  simp only [levelLabels, optionalString_eq h, bind, Except.bind, Option.bind_some,
    stripMarker_append, readStrings_jsonString hjson]
  rw [if_neg (not_lt.mpr hv)]
  rfl

theorem describe_descriptions [RustStd] (name : String) (candidates : List Candidate) :
    describe name (candidates.map fun c => ⟨c.id, ""⟩) (candidates.map Candidate.description) =
      .ok candidates := by
  induction candidates with
  | nil => rfl
  | cons c candidates ih =>
    simp only [List.map_cons, describe, Candidate.new_self ⟨c.id, c.description⟩, orInvalid, ih,
      bind, Except.bind, pure, Except.pure]

theorem enumCandidates_ok (name : String) (candidates : List Candidate) (k : Nat) :
    ((candidates.map fun c => Json.str c.id.text).zipIdx k).mapM (enumCandidate name) =
      .ok (candidates.map fun c => ⟨c.id, ""⟩) := by
  induction candidates generalizing k with
  | nil => rfl
  | cons c candidates ih =>
    simp only [List.map_cons, List.zipIdx_cons, List.mapM_cons, ih, enumCandidate, asString,
      Ident.new_text, ofCoreSchema, bind, Except.bind, pure, Except.pure]

variable [RustStd] [SerdeTexts] [JsonText]

theorem propertyToQuestion_plain (name : String) (limits : Limits)
    {property : List (String × Json)} (hone : lookup property "oneOf" = none)
    (hconst : lookup property "const" = none) (hany : lookup property "anyOf" = none) :
    propertyToQuestion name limits (.obj property) = plainProperty name property limits := by
  simp [propertyToQuestion, hone, hconst, anyOfField_eq_none name limits hany]

theorem choiceFromEnum_eq (hjson : JsonText.ReadsBack) (q : ChoiceQuestion) {limits : Limits}
    (hlimit : q.candidates.length ≤ limits.maxCandidates) {property : List (String × Json)}
    (htitle : lookup property "title" = some (.str q.text))
    (hdescription : lookup property "description" = some (.str (descriptionsMarker ++
      jsonString (q.candidates.map Candidate.description)))) :
    choiceFromEnum q.id.text property (q.candidates.map fun c => Json.str c.id.text) limits =
      .ok (.choice q) := by
  have hids : (q.candidates.map fun c => Json.str c.id.text) ≠ [] := by
    simpa using q.candidates_ne
  have hwithin : enforceCandidateLimit (q.candidates.map fun c => Json.str c.id.text).length
      limits = .ok () := by
    simpa [enforceCandidateLimit] using hlimit
  rw [choiceFromEnum, if_neg hids]
  simp only [hwithin, enumCandidates_ok, candidateDescriptions_eq hjson hdescription,
    describe_descriptions, propertyTitle_eq htitle q.text_ne, Option.getD_some,
    ChoiceQuestion.new_self, ofCoreSchema, bind, Except.bind, Functor.map, Except.map]

theorem scoreFromInteger_eq (hjson : JsonText.ReadsBack) (q : ScoreQuestion)
    {property : List (String × Json)} (htitle : lookup property "title" = some (.str q.text))
    (hdescription : lookup property "description" = some (.str (levelsMarker ++
      jsonString (q.levels.map ScoreLevel.label)))) :
    scoreFromInteger q.id.text property = .ok (.score q) := by
  have hlevels : (q.levels.map ScoreLevel.label).mapM (fun label =>
      orInvalid "levels" (ScoreLevel.new label)) = .ok q.levels := by
    rw [Result.mapM_ok, List.forall₂_map_left_iff, List.forall₂_same]
    intro l _
    rw [ScoreLevel.new_self]
    rfl
  have hlabels := levelLabels_eq hjson (by simpa using q.two_levels) hdescription
  rw [scoreFromInteger, hlabels]
  simp only [bind, Except.bind, hlevels, propertyTitle_eq htitle q.text_ne, Option.getD_some,
    ScoreQuestion.new_self, ofCoreSchema, Functor.map, Except.map]

/-- A question is read back from its property. -/
theorem propertyToQuestion_propertyFor (hjson : JsonText.ReadsBack) (q : DecisionQuestion)
    {limits : Limits} (hlimit : DecisionRequest.candidateCount q ≤ limits.maxCandidates) :
    propertyToQuestion q.id.text limits (propertyFor q).1 = .ok q := by
  cases q with
  | choice q =>
    have harray : (Value.array (q.candidates.map fun c => .str c.id.text)).1 =
        .arr (q.candidates.map fun c => Json.str c.id.text) := by
      simp [Value.array, Value.str, Function.comp_def]
    obtain ⟨property, hproperty, hone, hconst, hany, htype, htitle, hdescription, henum⟩ :
        ∃ property, (propertyFor (.choice q)).1 = .obj property ∧
          lookup property "oneOf" = none ∧ lookup property "const" = none ∧
          lookup property "anyOf" = none ∧ lookup property "type" = some (.str "string") ∧
          lookup property "title" = some (.str q.text) ∧
          lookup property "description" = some (.str (descriptionsMarker ++
            jsonString (q.candidates.map Candidate.description))) ∧
          lookup property "enum" = some (.arr (q.candidates.map fun c => Json.str c.id.text)) := by
      rw [← harray]
      exact ⟨_, Value.struct_val _, by simp, by simp, by simp, by simp [Value.str],
        by simp [Value.str], by simp [Value.str], by simp⟩
    have hchoice := choiceFromEnum_eq hjson q hlimit htitle hdescription
    rw [hproperty, propertyToQuestion_plain _ _ hone hconst hany, plainProperty,
      requiredString_ok_iff.mpr htype]
    simpa only [bind, Except.bind, henum, if_true, DecisionQuestion.id] using hchoice
  | boolean q =>
    obtain ⟨property, hproperty, hone, hconst, hany, htype, htitle⟩ :
        ∃ property, (propertyFor (.boolean q)).1 = .obj property ∧
          lookup property "oneOf" = none ∧ lookup property "const" = none ∧
          lookup property "anyOf" = none ∧ lookup property "type" = some (.str "boolean") ∧
          lookup property "title" = some (.str q.text) :=
      ⟨_, Value.struct_val _, by simp, by simp, by simp, by simp [Value.str], by simp [Value.str]⟩
    rw [hproperty, propertyToQuestion_plain _ _ hone hconst hany, plainProperty,
      requiredString_ok_iff.mpr htype]
    simp [bind, Except.bind, propertyTitle_eq htitle q.text_ne, DecisionQuestion.id,
      BooleanQuestion.new_self, ofCoreSchema, Functor.map, Except.map]
  | score q =>
    obtain ⟨property, hproperty, hone, hconst, hany, htype, htitle, hdescription⟩ :
        ∃ property, (propertyFor (.score q)).1 = .obj property ∧
          lookup property "oneOf" = none ∧ lookup property "const" = none ∧
          lookup property "anyOf" = none ∧ lookup property "type" = some (.str "integer") ∧
          lookup property "title" = some (.str q.text) ∧
          lookup property "description" = some (.str (levelsMarker ++
            jsonString (q.levels.map ScoreLevel.label))) :=
      ⟨_, Value.struct_val _, by simp, by simp, by simp, by simp [Value.str], by simp [Value.str],
        by simp [Value.str]⟩
    have hscore := scoreFromInteger_eq hjson q htitle hdescription
    rw [hproperty, propertyToQuestion_plain _ _ hone hconst hany, plainProperty,
      requiredString_ok_iff.mpr htype]
    simpa [bind, Except.bind, DecisionQuestion.id] using hscore

end Properties

section Schemas

variable [JsonText]

def propertyFields (questions : List DecisionQuestion) : List (String × Json) :=
  (properties questions).entries.map fun e => (e.1, e.2.1)

theorem mem_propertyFields_iff {questions : List DecisionQuestion}
    (hids : (questions.map DecisionQuestion.id).Nodup) (e : String × Json) :
    e ∈ propertyFields questions ↔ ∃ q ∈ questions, e = (q.id.text, (propertyFor q).1) := by
  have hkeys : ((questions.map fun q => (q.id.text, propertyFor q)).map Prod.fst).Nodup := by
    have htexts : (questions.map fun q => (q.id.text, propertyFor q)).map Prod.fst =
        (questions.map DecisionQuestion.id).map Ident.text := by
      simp
    rw [htexts]
    exact hids.map Ident.text_injective
  constructor
  · intro he
    obtain ⟨⟨key, v⟩, hv, rfl⟩ := List.mem_map.mp he
    have hget := (OrdMap.mem_entries_iff _ key v).mp hv
    rw [properties, OrdMap.get?_ofList hkeys] at hget
    obtain ⟨found, hfound, rfl⟩ := Option.map_eq_some_iff.mp hget
    obtain ⟨q, hq, rfl⟩ := List.mem_map.mp (List.mem_of_find?_eq_some hfound)
    have hkey : q.id.text = key := by simpa using List.find?_some hfound
    exact ⟨q, hq, by rw [← hkey]⟩
  · rintro ⟨q, hq, rfl⟩
    have hget := OrdMap.get?_ofList_of_mem hkeys (List.mem_map_of_mem hq)
    exact List.mem_map.mpr ⟨_, (OrdMap.mem_entries_iff _ _ _).mpr hget, rfl⟩

theorem propertyFields_pairwise (questions : List DecisionQuestion) :
    (propertyFields questions).Pairwise fun a b => a.1 < b.1 :=
  List.pairwise_map.mpr (properties questions).sorted

variable [RustStd] [SerdeTexts]

theorem properties_roundTrip (hjson : JsonText.ReadsBack) {questions : List DecisionQuestion}
    (hids : (questions.map DecisionQuestion.id).Nodup) {limits : Limits}
    (hcandidates : ∀ q ∈ questions, DecisionRequest.candidateCount q ≤ limits.maxCandidates) :
    ∃ decoded, (propertyFields questions).mapM (fun e => propertyToQuestion e.1 limits e.2) =
      .ok decoded ∧ SortedById questions decoded := by
  have hread : ∀ e ∈ propertyFields questions, ∃ q, propertyToQuestion e.1 limits e.2 = .ok q ∧
      q ∈ questions ∧ e = (q.id.text, (propertyFor q).1) := by
    intro e he
    obtain ⟨q, hq, rfl⟩ := (mem_propertyFields_iff hids e).mp he
    exact ⟨q, propertyToQuestion_propertyFor hjson q (hcandidates q hq), hq, rfl⟩
  obtain ⟨decoded, hdecoded, hsame⟩ := Result.mapM_ok_exists.mpr hread
  have htexts : decoded.map (fun q => q.id.text) = (propertyFields questions).map Prod.fst := by
    refine (List.forall₂_eq_eq_eq ▸ List.forall₂_map_left_iff.mpr
      (List.forall₂_map_right_iff.mpr (hsame.flip.imp fun q e h => ?_)))
    rw [h.2]
  have hascending : (decoded.map DecisionQuestion.id).Pairwise (· < ·) := by
    have hkeys := List.pairwise_map.mpr (propertyFields_pairwise questions)
    rw [← htexts, List.pairwise_map] at hkeys
    exact List.pairwise_map.mpr hkeys
  have hmem : ∀ q, q ∈ decoded ↔ q ∈ questions := by
    intro q
    constructor
    · intro hq
      obtain ⟨e, he, hread'⟩ := Result.mem_of_mapM_ok hdecoded hq
      obtain ⟨q', hq', hsrc, -⟩ := hread e he
      cases hread'.symm.trans hq'
      exact hsrc
    · intro hq
      have he := (mem_propertyFields_iff hids _).mpr ⟨q, hq, rfl⟩
      obtain ⟨b, hb, hbread⟩ := Result.mapM_ok_mem hdecoded he
      cases (propertyToQuestion_propertyFor hjson q (hcandidates q hq)).symm.trans hbread
      exact hb
  have hdistinct : decoded.Nodup :=
    List.Nodup.of_map DecisionQuestion.id (hascending.imp ne_of_lt)
  have hquestions : questions.Nodup := List.Nodup.of_map DecisionQuestion.id hids
  exact ⟨decoded, hdecoded, (List.perm_ext_iff_of_nodup hdistinct hquestions).mpr hmem, hascending⟩

omit [RustStd] [SerdeTexts] in
theorem schemaFor_ok {r : DecisionRequest} (hids : r.questionIds.Nodup) :
    ∃ schema root, schemaFor r = .ok schema ∧ schema.1 = .obj root ∧
      lookup root "oneOf" = none ∧ lookup root "anyOf" = none ∧ lookup root "const" = none ∧
      lookup root "properties" = some (.obj (propertyFields r.questions)) ∧
      lookup root "required" = some (.arr (r.questions.map fun q => .str q.id.text)) := by
  have hunique := (enforceUniqueQuestions_ok_iff r).mpr hids
  refine ⟨_, _, by rw [schemaFor, hunique]; rfl, Value.struct_val _, by simp, by simp, by simp,
    ?_, ?_⟩
  · simp [Value.object, propertyFields]
  · simp [Value.array, Value.str, Function.comp_def]

theorem decodeSchemaMap_schemaFor (hjson : JsonText.ReadsBack) {questions : List DecisionQuestion}
    (hids : (questions.map DecisionQuestion.id).Nodup) {limits : Limits} {state : State}
    (hadmitted : Admitted limits state questions) {root : List (String × Json)}
    (hone : lookup root "oneOf" = none) (hany : lookup root "anyOf" = none)
    (hproperties : lookup root "properties" = some (.obj (propertyFields questions)))
    (hrequired : lookup root "required" = some (.arr (questions.map fun q => .str q.id.text))) :
    ∃ decoded, decodeSchemaMap root limits = .ok decoded ∧ SortedById questions decoded := by
  obtain ⟨decoded, hdecoded, hsorted⟩ := properties_roundTrip hjson hids hadmitted.candidates
  have hlength : decoded.length = questions.length := hsorted.perm.length_eq
  have hall : questions.length = (propertyFields questions).length := by
    rw [← hlength, Result.mapM_length hdecoded]
  have hnonempty : decoded ≠ [] := fun hnil =>
    (hadmitted.perm hsorted.perm).nonempty hnil
  have hcount : within "max_questions" decoded.length limits.maxQuestions = .ok () := by
    rw [within_ok_iff, hlength]
    exact hadmitted.count
  have harray : requiredArray root "required" =
      .ok (questions.map fun q => .str q.id.text) := by
    rw [requiredArray, hrequired]
  refine ⟨decoded, ?_, hsorted⟩
  simp only [decodeSchemaMap, hone, hany, Option.isSome_none, requiredObject_ok_iff.mpr hproperties,
    harray, bind, Except.bind, hdecoded, List.length_map, hall, hcount, hnonempty]
  simp [pure, Except.pure]

end Schemas

section Requests

/-- The parts of a state are read back: its text first, then its images. -/
theorem readInput_encodeInput {body : List (String × Json)} {s : State}
    (h : lookup body "input" = some (encodeInput s).1) :
    readInput body = .ok (s.text, s.images) := by
  have hparts : ∀ (images : List ImageInput) (acc : String × List ImageInput),
      (images.map fun image => (Value.struct [("type", some (.str "input_image")),
        ("image_url", some (.str (dataUrl image)))]).1).foldlM statePart acc =
        .ok (acc.1, acc.2 ++ images) := by
    intro images
    induction images with
    | nil => simp [pure, Except.pure]
    | cons image images ih =>
      intro acc
      have hpart : statePart acc (Value.struct [("type", some (.str "input_image")),
          ("image_url", some (.str (dataUrl image)))]).1 = .ok (acc.1, acc.2 ++ [image]) := by
        simp [statePart, asObject, imageUrl, Value.str, asStr, parseImageDataUrl_dataUrl, bind,
          Except.bind, pure, Except.pure]
      rw [List.map_cons, List.foldlM_cons, hpart]
      exact (ih _).trans (by simp)
  unfold encodeInput at h
  split at h
  · have htext : statePart ("", []) (Value.struct [("type", some (.str "input_text")),
        ("text", some (.str s.text))]).1 = .ok (s.text, []) := by
      simp [statePart, asObject, requiredString, asString, Value.str, asStr, bind, Except.bind,
        pure, Except.pure]
    simp only [readInput, h, Value.array, stateFromParts, List.map_cons, List.foldlM_cons, htext,
      List.map_map]
    exact hparts s.images _
  · rename_i hnone
    have himages : s.images = [] := by simpa [State.hasImages] using hnone
    simp [readInput, h, Value.str, himages]

variable [RustStd] [SerdeTexts] [JsonText]

/-- A request whose questions have ids of their own is read back: its state as it was, its
questions as they were, sorted by their ids. -/
theorem decodeRequest_encodeRequest (hjson : JsonText.ReadsBack) {r : DecisionRequest}
    (hnew : DecisionRequest.new r.state r.questions r.policy r.metadata = .ok r)
    (hwords : r.state.FitsWords) (hids : r.questionIds.Nodup) :
    ∃ payload decoded, encodeRequest r = .ok payload ∧
      decodeRequest payload r.metadata.limits = .ok decoded ∧ decoded.state = r.state ∧
      SortedById r.questions decoded.questions := by
  have hadmitted := DecisionRequest.admitted_of_new hnew
  obtain ⟨schema, root, hschema, hroot, hone, hany, -, hproperties, hrequired⟩ := schemaFor_ok hids
  obtain ⟨questions, hquestions, hsorted⟩ :=
    decodeSchemaMap_schemaFor hjson hids hadmitted hone hany hproperties hrequired
  obtain ⟨henforce, back, hback, hstate, hsame⟩ := new_of_sorted hadmitted hsorted
  obtain ⟨payload, body, hpayload, hbody, hinput, hfacts, format, hformat, hinner⟩ :
      ∃ payload body, encodeRequest r = .ok payload ∧ payload.1 = .obj body ∧
        lookup body "input" = some (encodeInput r.state).1 ∧
        lookup body "facts" = some (encodeFacts r.state).1 ∧
        ∃ format, lookup body "format" = some (.obj format) ∧
          lookup format "schema" = some (.obj root) :=
    ⟨_, _, by rw [encodeRequest, hschema]; rfl, Value.struct_val _, by simp, by simp, _, by simp; rfl,
      by simp [hroot]⟩
  have hread : readFacts body (r.state.images.foldl State.withImage (State.fromText r.state.text)) =
      .ok r.state := by
    simp only [readFacts, hfacts]
    exact foldlM_addFact_state hwords
  refine ⟨payload, back, hpayload, ?_, hstate, hsame⟩
  simp only [decodeRequest, hbody, asObject, readInput_encodeInput hinput, hread,
    requiredObject_ok_iff.mpr hformat, requiredObject_ok_iff.mpr hinner, hquestions, henforce, hback,
    ofCoreSchema, bind, Except.bind]

end Requests

end OpenAi

section Samples

attribute [local instance] plainStd plainTexts

abbrev listsText : JsonText where
  write
    | ⟨.arr items, _⟩ =>
      String.ofList (JsonStrings.writeList (items.map fun item => (asStr item).elim [] String.toList))
    | _ => ""
  parse text :=
    match JsonStrings.readList text.toList with
    | some values => .ok (.arr (values.map fun s => .str (String.ofList s)))
    | none => .error "expected value"

attribute [local instance] listsText

theorem readsBack_listsText : JsonText.ReadsBack := by
  intro values
  have hwrite : JsonText.write (.array (values.map .str)) =
      String.ofList (JsonStrings.writeList (values.map String.toList)) := by
    simp [JsonText.write, Value.array, Value.str, asStr, Function.comp_def]
  rw [hwrite]
  simp [JsonText.parse, JsonStrings.readList_writeList, Value.array, Value.str, Function.comp_def]

def pictured : DecisionRequest where
  state := ⟨"ticket", OrdMap.empty.insert "vip" (.boolean true), [⟨.png, [137, 80]⟩]⟩
  questions := [Sample.choice "team" ["web", "app"], Sample.boolean "down"]
  policy := .defaults
  metadata := {}
  questions_ne := by decide

theorem fitsWords_pictured : pictured.state.FitsWords := by
  simp [State.FitsWords, pictured, OrdMap.insert, insertSorted, OrdMap.empty, FactValue.FitsWords]

theorem decodeRequest_encodeRequest_pictured :
    ∃ payload decoded, OpenAi.encodeRequest pictured = .ok payload ∧
      OpenAi.decodeRequest payload pictured.metadata.limits = .ok decoded ∧
      decoded.state = pictured.state ∧ SortedById pictured.questions decoded.questions :=
  OpenAi.decodeRequest_encodeRequest readsBack_listsText (by decide +kernel) fitsWords_pictured
    (by decide)

end Samples

end OpenCodifier
