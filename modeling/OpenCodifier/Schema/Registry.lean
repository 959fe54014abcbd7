import OpenCodifier.Schema.Native
set_option autoImplicit false

namespace OpenCodifier

open Json

inductive DefinitionKind where
  | choice
  | boolean
  | score
  deriving DecidableEq

section Raw

inductive RawQuestion where
  | choice (text : String)
  | boolean (text : String)
  | score (text : String) (levels : List String)

namespace RawQuestion

def text : RawQuestion → String
  | choice text => text
  | boolean text => text
  | score text _ => text

def deserialize (j : Json) : Option RawQuestion :=
  match untag "type" j with
  | some ("choice", rest) => do
    let f ← rest.fields? 1
    (f.required 0 "text" asStr).map choice
  | some ("boolean", rest) => do
    let f ← rest.fields? 1
    (f.required 0 "text" asStr).map boolean
  | some ("score", rest) => do
    let f ← rest.fields? 2
    let text ← f.required 0 "text" asStr
    let levels ← f.required 1 "levels" (asList asStr)
    some (score text levels)
  | _ => none

end RawQuestion

structure RawCandidates where
  dynamic : Bool
  static : Option (List Candidate)

def RawCandidates.deserialize (j : Json) : Option RawCandidates := do
  let f ← j.fields? 2
  let dynamic ← f.defaulted 0 "dynamic" false asBool
  let static ← f.defaulted 1 "static" none (asOption (asList Candidate.deserialize))
  some ⟨dynamic, static⟩

structure RawDefinition where
  id : String
  version : Nat
  question : RawQuestion
  candidates : Option RawCandidates
  policy : Option DecisionPolicy

def RawDefinition.deserialize [RustStd] (j : Json) : Option RawDefinition := do
  let f ← j.fields? 5
  let id ← f.required 0 "id" asStr
  let version ← f.required 1 "version" (asUnsigned 64)
  let question ← f.required 2 "question" RawQuestion.deserialize
  let candidates ← f.defaulted 3 "candidates" none (asOption RawCandidates.deserialize)
  let policy ← f.defaulted 4 "policy" none (asOption DecisionPolicy.deserialize)
  some ⟨id, version, question, candidates, policy⟩

end Raw

/-- A decoded definition. Its identity is a hash over the serialization of what was read. -/
structure DecisionDefinition where
  id : String
  version : Nat
  kind : DefinitionKind
  text : String
  levels : List String
  dynamicCandidates : Bool
  staticCandidates : List Candidate
  policy : DecisionPolicy
  canonical : RawDefinition

namespace DecisionDefinition

structure Template where
  kind : DefinitionKind
  dynamicCandidates : Bool
  staticCandidates : List Candidate
  levels : List String

def candidateSource (source : RawCandidates) : SchemaResult (Bool × List Candidate) :=
  match source.dynamic, source.static with
  | true, none => .ok (true, [])
  | false, some candidates =>
    if candidates ≠ [] then .ok (false, candidates)
    else .error (.invalidValue "candidates" "`static` candidate lists may not be empty")
  | true, some _ =>
    .error (.invalidValue "candidates" "declare `dynamic` or `static`, not both")
  | false, none =>
    .error (.invalidValue "candidates" "declare `dynamic: true` or a non-empty `static` list")

def template (raw : RawDefinition) : SchemaResult Template :=
  match raw.question with
  | .choice _ =>
    match raw.candidates with
    | none =>
      .error (.invalidValue "candidates" "choice definitions require a candidate source")
    | some source => do
      let (dynamicCandidates, staticCandidates) ← candidateSource source
      .ok ⟨.choice, dynamicCandidates, staticCandidates, []⟩
  | .boolean _ =>
    if raw.candidates.isSome then
      .error (.invalidValue "candidates" "boolean definitions take no candidates")
    else .ok ⟨.boolean, false, [], []⟩
  | .score _ levels =>
    if raw.candidates.isSome then
      .error (.invalidValue "candidates" "score definitions take no candidates")
    else if levels.length < 2 then
      .error (.invalidValue "levels" "score definitions need at least two levels")
    else do
      levels.forM fun label => ofCoreSchema ((ScoreLevel.new label).map fun _ => ())
      .ok ⟨.score, false, [], levels⟩

def decode [RustStd] [SerdeTexts] (document : Value) : SchemaResult DecisionDefinition :=
  match RawDefinition.deserialize document.1 with
  | none => .error (.invalidValue "definition" (SerdeTexts.refusal "RawDefinition" document.1))
  | some raw =>
    if raw.id = "" then .error (.invalidValue "id" "must be non-empty")
    else if raw.version = 0 then .error (.invalidValue "version" "must be at least 1")
    else if raw.question.text = "" then .error (.invalidValue "text" "must be non-empty")
    else do
      let t ← template raw
      .ok {
        id := raw.id, version := raw.version, kind := t.kind, text := raw.question.text
        levels := t.levels, dynamicCandidates := t.dynamicCandidates
        staticCandidates := t.staticCandidates, policy := raw.policy.getD .defaults
        canonical := raw }

variable (definition : DecisionDefinition)

/-- The candidates of a choice; a static definition refuses further ones. -/
def candidatesFor (dynamicCandidates : List Candidate) : SchemaResult (List Candidate) :=
  if definition.dynamicCandidates then
    if dynamicCandidates = [] then
      .error (.invalidValue "candidates"
        "this definition expects dynamic candidates; none were given")
    else .ok dynamicCandidates
  else if dynamicCandidates ≠ [] then
    .error (.invalidValue "candidates" "this definition embeds its candidates; pass none")
  else .ok definition.staticCandidates

def questionFor (dynamicCandidates : List Candidate) : SchemaResult DecisionQuestion :=
  match definition.kind with
  | .choice => do
    let candidates ← definition.candidatesFor dynamicCandidates
    (ofCoreSchema (ChoiceQuestion.new definition.id definition.text candidates)).map .choice
  | .boolean =>
    (ofCoreSchema (BooleanQuestion.new definition.id definition.text)).map .boolean
  | .score => do
    let levels ← definition.levels.mapM fun label => ofCoreSchema (ScoreLevel.new label)
    (ofCoreSchema (ScoreQuestion.new definition.id definition.text levels)).map .score

def instantiate (stateText : String) (dynamicCandidates : List Candidate) :
    SchemaResult DecisionRequest := do
  let question ← definition.questionFor dynamicCandidates
  ofCoreSchema (DecisionRequest.new (State.fromText stateText) [question] definition.policy {})

end DecisionDefinition

section Decoded

inductive TemplateOf (raw : RawDefinition) : DecisionDefinition.Template → Prop
  | dynamic (text : String) (hquestion : raw.question = .choice text)
      (hsource : raw.candidates = some ⟨true, none⟩) : TemplateOf raw ⟨.choice, true, [], []⟩
  | static (text : String) (candidates : List Candidate) (hquestion : raw.question = .choice text)
      (hsource : raw.candidates = some ⟨false, some candidates⟩) (hsome : candidates ≠ []) :
      TemplateOf raw ⟨.choice, false, candidates, []⟩
  | boolean (text : String) (hquestion : raw.question = .boolean text)
      (hsource : raw.candidates = none) : TemplateOf raw ⟨.boolean, false, [], []⟩
  | score (text : String) (levels : List String) (hquestion : raw.question = .score text levels)
      (hsource : raw.candidates = none) (htwo : 2 ≤ levels.length)
      (hlabels : ∀ label ∈ levels, label ≠ "") : TemplateOf raw ⟨.score, false, [], levels⟩

theorem template_ok {raw : RawDefinition} {t : DecisionDefinition.Template}
    (h : DecisionDefinition.template raw = .ok t) : TemplateOf raw t := by
  obtain ⟨id, version, question, candidates, policy⟩ := raw
  cases question with
  | choice text =>
    cases candidates with
    | none => cases h
    | some source =>
      obtain ⟨dynamic, static⟩ := source
      cases dynamic with
      | true =>
        cases static with
        | none =>
          cases h
          exact .dynamic text rfl rfl
        | some _ => cases h
      | false =>
        cases static with
        | none => cases h
        | some listed =>
          by_cases hlisted : listed = []
          · rw [hlisted] at h
            cases h
          · simp only [DecisionDefinition.template, DecisionDefinition.candidateSource, ne_eq,
              hlisted, not_false_eq_true, if_true] at h
            cases h
            exact .static text listed rfl rfl hlisted
  | boolean text =>
    cases candidates with
    | none =>
      cases h
      exact .boolean text rfl rfl
    | some _ => cases h
  | score text levels =>
    cases candidates with
    | some _ => cases h
    | none =>
      simp only [DecisionDefinition.template, Option.isSome_none, Bool.false_eq_true,
        if_false] at h
      split at h
      · cases h
      · rename_i htwo
        obtain ⟨hlabels, h⟩ := Result.bind_unit_ok.mp h
        cases h
        refine .score text levels rfl rfl (not_lt.mp htwo) fun label hlabel hempty => ?_
        have hnew := (Result.forM_ok_iff _ levels).mp hlabels label hlabel
        rw [hempty] at hnew
        cases hnew

theorem decode_ok [RustStd] [SerdeTexts] {document : Value} {definition : DecisionDefinition}
    (h : DecisionDefinition.decode document = .ok definition) :
    ∃ raw t, RawDefinition.deserialize document.1 = some raw ∧ raw.question.text ≠ "" ∧
      TemplateOf raw t ∧ definition = {
        id := raw.id, version := raw.version, kind := t.kind, text := raw.question.text
        levels := t.levels, dynamicCandidates := t.dynamicCandidates
        staticCandidates := t.staticCandidates, policy := raw.policy.getD .defaults
        canonical := raw } := by
  unfold DecisionDefinition.decode at h
  split at h
  · cases h
  · rename_i raw hraw
    split_ifs at h with _ _ htext
    obtain ⟨t, ht, h⟩ := Result.bind_ok.mp h
    cases h
    exact ⟨raw, t, hraw, htext, template_ok ht, rfl⟩

end Decoded

section Instantiated

structure RawDefinition.Admits (raw : RawDefinition) (stateText : String)
    (candidates : List Candidate) : Prop where
  text : stateText.utf8ByteSize ≤ ({} : Limits).maxInputBytes
  candidates : if raw.candidates.any RawCandidates.dynamic then
      candidates ≠ [] ∧ (candidates.map Candidate.id).Nodup ∧
        candidates.length ≤ ({} : Limits).maxCandidates
    else candidates = []

/-- The question has exactly the id, the text and the candidates or levels of the definition. -/
def RawDefinition.Asks (raw : RawDefinition) (candidates : List Candidate) :
    DecisionQuestion → Prop
  | .choice q => raw.question = .choice q.text ∧ q.id.text = raw.id ∧
      q.candidates = (raw.candidates.bind RawCandidates.static).getD candidates
  | .boolean q => raw.question = .boolean q.text ∧ q.id.text = raw.id
  | .score q => raw.question = .score q.text (q.levels.map ScoreLevel.label) ∧ q.id.text = raw.id

structure RawDefinition.Requests (raw : RawDefinition) (stateText : String)
    (candidates : List Candidate) (r : DecisionRequest) : Prop where
  state : r.state = State.fromText stateText
  question : ∃ q, r.questions = [q] ∧ raw.Asks candidates q
  policy : r.policy = raw.policy.getD .defaults
  metadata : r.metadata = {}

/-- What decoding leaves to the constructors: the id is a question id, candidates and levels are
listed once, and the limit on candidates is kept. -/
def RawDefinition.Instantiable (raw : RawDefinition) : Prop :=
  validateId raw.id = .ok () ∧
    match raw.question with
    | .choice _ => ∀ candidates, raw.candidates.bind RawCandidates.static = some candidates →
        (candidates.map Candidate.id).Nodup ∧ candidates.length ≤ ({} : Limits).maxCandidates
    | .boolean _ => True
    | .score _ levels => levels.Nodup

variable [RustStd] [SerdeTexts] {document : Value} {raw : RawDefinition}
  {definition : DecisionDefinition} {stateText : String} {candidates : List Candidate}

omit [RustStd] [SerdeTexts] in
theorem mapM_scoreLevel_ok_iff (levels : List String) (made : List ScoreLevel) :
    levels.mapM (fun label => ofCoreSchema (ScoreLevel.new label)) = .ok made ↔
      made.map ScoreLevel.label = levels := by
  rw [Result.mapM_ok]
  constructor
  · intro h
    have hmap := Result.mapM_map_eq (g := ScoreLevel.label) (k := id) (Result.mapM_ok.mpr h)
      fun _ _ hnew => ScoreLevel.new_ok (ofCoreSchema_ok hnew)
    rwa [List.map_id] at hmap
  · rintro rfl
    rw [List.forall₂_map_left_iff, List.forall₂_same]
    exact fun level _ => ofCoreSchema_ok_iff.mpr (dif_neg level.label_ne)

omit [RustStd] [SerdeTexts] in
theorem ofCoreSchema_map_ok_iff {α : Type} (make : α → DecisionQuestion) (x : CoreResult α)
    (q : DecisionQuestion) :
    (ofCoreSchema x).map make = .ok q ↔ ∃ a, x = .ok a ∧ make a = q := by
  cases x <;> simp [ofCoreSchema, Except.map]

/-- The question of a decoded definition is one that asks what the document says. -/
theorem questionFor_ok_iff (h : DecisionDefinition.decode document = .ok definition)
    (hraw : RawDefinition.deserialize document.1 = some raw)
    (hadmits : raw.Admits stateText candidates) (q : DecisionQuestion) :
    definition.questionFor candidates = .ok q ↔ raw.Asks candidates q := by
  obtain ⟨raw', t, hraw', -, ht, rfl⟩ := decode_ok h
  rw [hraw] at hraw'
  cases hraw'
  have hgiven := hadmits.candidates
  cases ht with
  | dynamic text hquestion hsource =>
    rw [hsource] at hgiven
    obtain ⟨hsome, -, -⟩ := hgiven
    simp only [DecisionDefinition.questionFor, DecisionDefinition.candidatesFor, hsome, if_true,
      if_false, bind, Except.bind, ofCoreSchema_map_ok_iff, ChoiceQuestion.new_ok_iff, hquestion]
    cases q <;> simp [RawDefinition.Asks, hquestion, hsource, RawQuestion.text, and_left_comm,
      @eq_comm _ text]
  | static text listed hquestion hsource hsome =>
    rw [hsource] at hgiven
    cases hgiven
    simp only [DecisionDefinition.questionFor, DecisionDefinition.candidatesFor, ne_eq,
      not_true_eq_false, if_false, Bool.false_eq_true, bind, Except.bind, ofCoreSchema_map_ok_iff,
      ChoiceQuestion.new_ok_iff, hquestion]
    cases q <;> simp [RawDefinition.Asks, hquestion, hsource, RawQuestion.text, and_left_comm,
      @eq_comm _ text]
  | boolean text hquestion hsource =>
    simp only [DecisionDefinition.questionFor, ofCoreSchema_map_ok_iff, BooleanQuestion.new_ok_iff, hquestion]
    cases q <;> simp [RawDefinition.Asks, hquestion, RawQuestion.text, and_comm, @eq_comm _ text]
  | score text levels hquestion hsource htwo hlabels =>
    simp only [DecisionDefinition.questionFor, Result.bind_ok, mapM_scoreLevel_ok_iff, ofCoreSchema_map_ok_iff,
      ScoreQuestion.new_ok_iff, hquestion]
    cases q with
    | score q =>
      simp only [RawDefinition.Asks, hquestion, RawQuestion.text, RawQuestion.score.injEq,
        DecisionQuestion.score.injEq, exists_eq_right]
      constructor
      · rintro ⟨made, hmade, hid, htext, hlevels⟩
        exact ⟨⟨htext.symm, by rw [hlevels, hmade]⟩, hid⟩
      · rintro ⟨⟨htext, hlevels⟩, hid⟩
        exact ⟨q.levels, hlevels.symm, hid, htext.symm, rfl⟩
    | _ => simp [RawDefinition.Asks, hquestion]

omit [RustStd] [SerdeTexts] in
theorem admitted_single_iff (question : DecisionQuestion)
    (htext : stateText.utf8ByteSize ≤ ({} : Limits).maxInputBytes) :
    Admitted ({} : Limits) (State.fromText stateText) [question] ↔
      DecisionRequest.candidateCount question ≤ ({} : Limits).maxCandidates := by
  constructor
  · exact fun h => h.candidates question List.mem_cons_self
  · intro h
    exact ⟨by simp, by simp, htext, by simp [State.fromText], by simp [State.fromText],
      List.forall_mem_singleton.mpr h⟩

/-- A document asks a question within the limits exactly when decoding left nothing open. -/
theorem asks_iff_instantiable (h : DecisionDefinition.decode document = .ok definition)
    (hraw : RawDefinition.deserialize document.1 = some raw)
    (hadmits : raw.Admits stateText candidates) :
    (∃ q, raw.Asks candidates q ∧
      DecisionRequest.candidateCount q ≤ ({} : Limits).maxCandidates) ↔ raw.Instantiable := by
  obtain ⟨raw', t, hraw', hne, ht, rfl⟩ := decode_ok h
  rw [hraw] at hraw'
  cases hraw'
  have hgiven := hadmits.candidates
  rw [RawDefinition.Instantiable]
  constructor
  · rintro ⟨q, hasks, hcount⟩
    cases q with
    | choice q =>
      obtain ⟨hquestion, hid, hcandidates⟩ := hasks
      rw [hquestion]
      refine ⟨hid ▸ q.id.valid, fun listed hlisted => ?_⟩
      rw [hlisted] at hcandidates
      cases hcandidates
      exact ⟨q.unique, hcount⟩
    | boolean q =>
      obtain ⟨hquestion, hid⟩ := hasks
      rw [hquestion]
      exact ⟨hid ▸ q.id.valid, trivial⟩
    | score q =>
      obtain ⟨hquestion, hid⟩ := hasks
      rw [hquestion]
      exact ⟨hid ▸ q.id.valid, q.unique⟩
  · rintro ⟨hid, hrest⟩
    cases ht with
    | dynamic text hquestion hsource =>
      rw [hsource] at hgiven
      obtain ⟨hsome, hunique, hcount⟩ := hgiven
      rw [hquestion] at hne
      exact ⟨.choice ⟨⟨raw.id, hid⟩, text, candidates, hne, hsome, hunique⟩,
        ⟨hquestion, rfl, by rw [hsource]; rfl⟩, hcount⟩
    | static text listed hquestion hsource hsome =>
      rw [hquestion] at hne hrest
      obtain ⟨hunique, hcount⟩ := hrest listed (by rw [hsource]; rfl)
      exact ⟨.choice ⟨⟨raw.id, hid⟩, text, listed, hne, hsome, hunique⟩,
        ⟨hquestion, rfl, by rw [hsource]; rfl⟩, hcount⟩
    | boolean text hquestion hsource =>
      rw [hquestion] at hne
      exact ⟨.boolean ⟨⟨raw.id, hid⟩, text, hne⟩, ⟨hquestion, rfl⟩, Nat.zero_le _⟩
    | score text levels hquestion hsource htwo hlabels =>
      rw [hquestion] at hne hrest
      obtain ⟨made, rfl⟩ : ∃ made : List ScoreLevel, made.map ScoreLevel.label = levels := by
        refine ⟨levels.pmap ScoreLevel.mk hlabels, ?_⟩
        rw [List.map_pmap]
        exact List.pmap_eq_self.mpr fun _ _ => rfl
      exact ⟨.score ⟨⟨raw.id, hid⟩, text, made, hne, by simpa using htwo, hrest⟩,
        ⟨hquestion, rfl⟩, Nat.zero_le _⟩

/-- A decoded definition is instantiated, with exactly what its document says, exactly when decoding
left nothing to the constructors. -/
theorem instantiate_ok_iff (h : DecisionDefinition.decode document = .ok definition)
    (hraw : RawDefinition.deserialize document.1 = some raw)
    (hadmits : raw.Admits stateText candidates) :
    (∃ r, definition.instantiate stateText candidates = .ok r ∧
      raw.Requests stateText candidates r) ↔ raw.Instantiable := by
  have hquestions := questionFor_ok_iff h hraw hadmits
  rw [← asks_iff_instantiable h hraw hadmits]
  constructor
  · rintro ⟨r, hrun, hrequests⟩
    obtain ⟨q, hq, hnew⟩ := Result.bind_ok.mp hrun
    have hadmitted := DecisionRequest.admitted_of_new (ofCoreSchema_ok hnew)
    exact ⟨q, (hquestions q).mp hq, (admitted_single_iff q hadmits.text).mp hadmitted⟩
  · rintro ⟨q, hasks, hcount⟩
    have hadmitted := (admitted_single_iff q hadmits.text).mpr hcount
    have hnew := DecisionRequest.new_of_admitted definition.policy {} hadmitted
    refine ⟨_, Result.bind_ok.mpr ⟨q, (hquestions q).mpr hasks, ofCoreSchema_ok_iff.mpr hnew⟩,
      rfl, ⟨q, rfl, hasks⟩, ?_, rfl⟩
    obtain ⟨raw', t, hraw', -, -, rfl⟩ := decode_ok h
    rw [hraw] at hraw'
    cases hraw'
    rfl

end Instantiated

section Samples

attribute [local instance] plainStd plainTexts

def posted (id : String) : Value :=
  .struct [("id", some (.str id)), ("version", some (.nat 1)),
    ("question", some (.struct [("type", some (.str "boolean")),
      ("text", some (.str "Is it open?"))]))]

theorem deserialize_posted (id : String) : RawDefinition.deserialize (posted id).1 =
    some ⟨id, 1, .boolean "Is it open?", none, none⟩ := by
  have hversion : asUnsigned 64 (Value.nat 1).1 = some 1 := rfl
  have hquestion : RawQuestion.deserialize (Value.struct [("type", some (.str "boolean")),
      ("text", some (.str "Is it open?"))]).1 = some (.boolean "Is it open?") := by
    rw [RawQuestion.deserialize, Value.untag_struct (by decide) rfl]
    simp [Fields.required]
  rw [Value.struct_val] at hquestion
  simp [RawDefinition.deserialize, posted, Fields.required, Fields.defaulted, hversion, hquestion]

theorem decode_posted (id : String) (h : id ≠ "") :
    ∃ definition, DecisionDefinition.decode (posted id) = .ok definition ∧
      definition.id = id ∧ definition.kind = .boolean := by
  simp only [DecisionDefinition.decode, deserialize_posted, if_neg h]
  exact ⟨_, rfl, rfl, rfl⟩

def roomPosted : Value :=
  .struct [("id", some (.str "room")), ("version", some (.nat 1)),
    ("question", some (.struct [("type", some (.str "choice")),
      ("text", some (.str "Which room?"))])),
    ("candidates", some (.struct [("static", some (.array [
      .struct [("id", some (.str "hall")), ("description", some (.str "the hall"))],
      .struct [("id", some (.str "attic")), ("description", some (.str "the attic"))]]))]))]

def roomRead : RawDefinition :=
  ⟨"room", 1, .choice "Which room?",
    some ⟨false, some [⟨⟨"hall", by decide⟩, "the hall"⟩, ⟨⟨"attic", by decide⟩, "the attic"⟩]⟩,
    none⟩

def wearPosted : Value :=
  .struct [("id", some (.str "wear")), ("version", some (.nat 1)),
    ("question", some (.struct [("type", some (.str "score")),
      ("text", some (.str "How worn is it?")),
      ("levels", some (.array [.str "new", .str "worn"]))]))]

def wearRead : RawDefinition :=
  ⟨"wear", 1, .score "How worn is it?" ["new", "worn"], none, none⟩

/-- The request of a choice and that of a score are exactly what their documents say. -/
theorem instantiate_ok_listed : ∃ room wear r r',
    DecisionDefinition.decode roomPosted = .ok room ∧
      room.instantiate "A house." [] = .ok r ∧ roomRead.Requests "A house." [] r ∧
    DecisionDefinition.decode wearPosted = .ok wear ∧
      wear.instantiate "A door." [] = .ok r' ∧ wearRead.Requests "A door." [] r' := by
  obtain ⟨room, hroom⟩ : ∃ room, DecisionDefinition.decode roomPosted = .ok room := ⟨_, rfl⟩
  obtain ⟨wear, hwear⟩ : ∃ wear, DecisionDefinition.decode wearPosted = .ok wear := ⟨_, rfl⟩
  have hroomRead : roomRead.Instantiable := by
    refine ⟨by decide, ?_⟩
    rintro _ ⟨⟩
    decide
  have hwearRead : wearRead.Instantiable := ⟨by decide, (by decide : ["new", "worn"].Nodup)⟩
  have hroomAdmits : roomRead.Admits "A house." [] := ⟨by decide, rfl⟩
  have hwearAdmits : wearRead.Admits "A door." [] := ⟨by decide, rfl⟩
  obtain ⟨r, hr, hasked⟩ := (instantiate_ok_iff hroom rfl hroomAdmits).mpr hroomRead
  obtain ⟨r', hr', hasked'⟩ := (instantiate_ok_iff hwear rfl hwearAdmits).mpr hwearRead
  exact ⟨room, wear, r, r', hroom, hr, hasked, hwear, hr', hasked'⟩

/-- An id with a blank is decoded and never instantiated. -/
theorem instantiate_blank_id : ∃ definition,
    DecisionDefinition.decode (posted "door open") = .ok definition ∧
      ∀ stateText r, definition.instantiate stateText [] ≠ .ok r := by
  obtain ⟨definition, hdecode, hid, hkind⟩ := decode_posted "door open" (by decide)
  refine ⟨definition, hdecode, fun stateText r hrun => ?_⟩
  obtain ⟨q, hq, -⟩ := Result.bind_ok.mp hrun
  simp only [DecisionDefinition.questionFor, hkind, ofCoreSchema_map_ok_iff, BooleanQuestion.new_ok_iff,
    hid] at hq
  obtain ⟨a, ⟨hblank, -⟩, -⟩ := hq
  have hvalid := a.id.valid
  rw [hblank] at hvalid
  exact absurd hvalid (by decide)

end Samples

end OpenCodifier
