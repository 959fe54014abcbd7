import OpenCodifier.Schema.OpenAiRoundTrip
set_option autoImplicit false

namespace OpenCodifier

open Json

namespace Jev

section Encoding

def serializeOrdered (fields : List (String × String)) : Json :=
  .obj (fields.map fun e => (e.1, .str e.2))

def QuestionWire.serialize (q : QuestionWire) : Json :=
  .obj [("type", .str q.kind), ("instructions", .str q.instructions),
    ("criteria", q.criteria.elim .null serializeOrdered)]

def RequestWire.serialize (wire : RequestWire) : Json :=
  .obj [("state", .str wire.state), ("model", .str wire.model),
    ("facts", wire.facts.elim .null .obj),
    ("questions", .obj (wire.questions.map fun e => (e.1, e.2.serialize)))]

/-- A level has no description to send. -/
def wireOf : DecisionQuestion → QuestionWire
  | .choice q => ⟨"choice", q.text, some (q.candidates.map fun c => (c.id.text, c.description))⟩
  | .score q => ⟨"score", q.text, some (q.levels.map fun l => (l.label, ""))⟩
  | .boolean q => ⟨"noul", q.text, none⟩

/-- The `model` fact when it is a text. -/
def modelOf (s : State) : String := ((s.fact "model").bind FactValue.asStr).getD ""

def requestWire (request : DecisionRequest) : RequestWire :=
  ⟨request.state.text, modelOf request.state, none,
    request.questions.map fun q => (q.id.text, wireOf q)⟩

/-- To the document whose text is sent, criteria in question order. -/
def encodeRequestStr (request : DecisionRequest) : SchemaResult Json := do
  enforceUniqueQuestions request
  pure (requestWire request).serialize

end Encoding

section Wire

theorem asOrdered_map {α β : Type} (read : Json → Option β) (key : α → String)
    (write : α → Json) (value : α → β) {l : List α} (hn : (l.map key).Nodup)
    (h : ∀ a ∈ l, read (write a) = some (value a)) :
    asOrdered read (.obj (l.map fun a => (key a, write a))) =
      some (l.map fun a => (key a, value a)) := by
  have hkeys : ((l.map fun a => (key a, write a)).map Prod.fst).Nodup := by
    rw [List.map_map]
    exact hn
  rw [asOrdered, if_pos hkeys, List.mapM_map]
  exact Result.mapM_some_eq_map fun a ha => by simp [readField, h a ha]

theorem criteria_nodup {q : DecisionQuestion} {criteria : List (String × String)}
    (h : (wireOf q).criteria = some criteria) : (criteria.map Prod.fst).Nodup := by
  cases q with
  | choice q =>
    cases h
    have hids := q.unique.map Ident.text_injective
    simpa [List.map_map, Function.comp_def] using hids
  | score q =>
    cases h
    simpa [List.map_map, Function.comp_def] using q.unique
  | boolean q => cases h

theorem QuestionWire.deserialize_wireOf (q : DecisionQuestion) :
    QuestionWire.deserialize (wireOf q).serialize = some (wireOf q) := by
  have hcriteria : asOption (asOrdered asStr) ((wireOf q).criteria.elim .null serializeOrdered) =
      some (wireOf q).criteria := by
    cases hw : (wireOf q).criteria with
    | none => rfl
    | some criteria =>
      have hread := asOrdered_map asStr Prod.fst (fun e => .str e.2) Prod.snd
        (criteria_nodup hw) fun _ _ => rfl
      simp [serializeOrdered, asOption, hread]
  simp [deserialize, serialize, Fields.distinct, Fields.required, Fields.defaulted, lookup,
    asStr, hcriteria]

theorem RequestWire.deserialize_requestWire {request : DecisionRequest}
    (hids : request.questionIds.Nodup) :
    RequestWire.deserialize (requestWire request).serialize = some (requestWire request) := by
  have hquestions : asOrdered QuestionWire.deserialize
      (.obj (request.questions.map fun q => (q.id.text, (wireOf q).serialize))) =
      some (request.questions.map fun q => (q.id.text, wireOf q)) := by
    refine asOrdered_map _ _ _ _ ?_ fun q _ => QuestionWire.deserialize_wireOf q
    have htexts := hids.map Ident.text_injective
    simpa [DecisionRequest.questionIds, List.map_map, Function.comp_def] using htexts
  simp [deserialize, serialize, requestWire, Fields.distinct, Fields.required, Fields.defaulted,
    lookup, asStr, asOption, List.map_map, Function.comp_def, hquestions]

end Wire

section Expressible

def CriteriaFit (limits : Limits) : DecisionQuestion → Prop
  | .choice q => q.candidates.length ≤ maxCriteria
  | .score q => q.levels.length ≤ limits.maxCandidates
  | .boolean _ => True

/-- What the wire has a place for: a text, a `model` fact that is a text, criteria that fit. -/
structure Expressible (request : DecisionRequest) : Prop where
  images : request.state.images = []
  facts : ∃ model, request.state.facts = OrdMap.empty.insert "model" (.text model)
  criteria : ∀ q ∈ request.questions, CriteriaFit request.metadata.limits q

theorem state_expressible_iff (s : State) :
    (State.fromText s.text).withFact "model" (.text (modelOf s)) = s ↔
      s.images = [] ∧ ∃ model, s.facts = OrdMap.empty.insert "model" (.text model) := by
  obtain ⟨text, facts, images⟩ := s
  constructor
  · intro h
    rw [State.fromText, State.withFact, State.mk.injEq] at h
    exact ⟨h.2.2.symm, _, h.2.1.symm⟩
  · rintro ⟨rfl, model, rfl⟩
    have hmodel : modelOf ⟨text, OrdMap.empty.insert "model" (.text model), []⟩ = model := by
      simp [modelOf, State.fact, OrdMap.get?_insert_self, FactValue.asStr]
    rw [hmodel]
    rfl

variable [RustStd]

theorem choice_wireOf (q : ChoiceQuestion) {limits : Limits}
    (hlimit : q.candidates.length ≤ limits.maxCandidates) (q' : ChoiceQuestion) :
    choice q.id.text q.text (q.candidates.map fun c => (c.id.text, c.description)) limits =
      .ok q' ↔ q.candidates.length ≤ maxCriteria ∧ q' = q := by
  have hwithin : enforceCandidateLimit q.candidates.length limits = .ok () := by
    simpa [enforceCandidateLimit] using hlimit
  have hcandidates : (q.candidates.map fun c => (c.id.text, c.description)).mapM (fun e =>
      orInvalid q.id.text (Candidate.new e.1 e.2)) = .ok q.candidates := by
    rw [Result.mapM_ok, List.forall₂_map_left_iff, List.forall₂_same]
    intro c _
    rw [Candidate.new_self]
    rfl
  rw [choice, if_neg (by simpa using q.candidates_ne), List.length_map]
  by_cases hcount : q.candidates.length ≤ maxCriteria
  · rw [if_neg (not_lt.mpr hcount)]
    simp only [hwithin, hcandidates, ChoiceQuestion.new_self, ofCoreSchema, bind, Except.bind, hcount,
      true_and, Except.ok.injEq, eq_comm]
  · rw [if_pos (not_le.mp hcount)]
    simp [hcount]

theorem score_wireOf (q : ScoreQuestion) (limits : Limits) (q' : ScoreQuestion) :
    score q.id.text q.text (q.levels.map fun l => (l.label, "")) limits = .ok q' ↔
      q.levels.length ≤ limits.maxCandidates ∧ q' = q := by
  have hlevels : (q.levels.map fun l => (l.label, "")).mapM (fun e =>
      orInvalid q.id.text (ScoreLevel.new e.1)) = .ok q.levels := by
    rw [Result.mapM_ok, List.forall₂_map_left_iff, List.forall₂_same]
    intro l _
    rw [ScoreLevel.new_self]
    rfl
  have htwo := q.two_levels
  rw [score, List.length_map, if_neg (by omega)]
  by_cases hcount : q.levels.length ≤ limits.maxCandidates
  · have hwithin : enforceCandidateLimit q.levels.length limits = .ok () := by
      simpa [enforceCandidateLimit] using hcount
    simp only [hwithin, hlevels, ScoreQuestion.new_self, ofCoreSchema, bind, Except.bind, hcount,
      true_and, Except.ok.injEq, eq_comm]
  · have hrefused : enforceCandidateLimit q.levels.length limits ≠ .ok () := by
      simpa [enforceCandidateLimit] using hcount
    simp [Result.bind_unit_ok, hrefused, hcount]

theorem question_wireOf (q : DecisionQuestion) {limits : Limits}
    (hlimit : DecisionRequest.candidateCount q ≤ limits.maxCandidates) (q' : DecisionQuestion) :
    question q.id.text (wireOf q) limits = .ok q' ↔ CriteriaFit limits q ∧ q' = q := by
  cases q with
  | choice q =>
    have hread := choice_wireOf q hlimit
    simpa [question, wireOf, nonEmpty, q.text_ne, requiredCriteria, Result.map_ok, hread,
      CriteriaFit, DecisionQuestion.id, bind, Except.bind] using fun _ => eq_comm
  | score q =>
    have hread := score_wireOf q limits
    simpa [question, wireOf, nonEmpty, q.text_ne, requiredCriteria, Result.map_ok, hread,
      CriteriaFit, DecisionQuestion.id, bind, Except.bind] using fun _ => eq_comm
  | boolean q =>
    simp [question, wireOf, nonEmpty, q.text_ne, BooleanQuestion.new_self, ofCoreSchema, CriteriaFit,
      DecisionQuestion.id, bind, Except.bind, Functor.map, Except.map, eq_comm]

variable [SerdeTexts]

theorem build_requestWire {request : DecisionRequest}
    (hadmitted : Admitted request.metadata.limits request.state request.questions)
    (decoded : DecisionRequest) :
    build (requestWire request) request.metadata.limits = .ok decoded ↔
      (∀ q ∈ request.questions, CriteriaFit request.metadata.limits q) ∧
        decoded.state = (State.fromText request.state.text).withFact "model"
          (.text (modelOf request.state)) ∧ decoded.questions = request.questions ∧
        decoded.policy = .defaults ∧ decoded.metadata = { limits := request.metadata.limits } := by
  have hquestions : ∀ questions, (request.questions.map fun q => (q.id.text, wireOf q)).mapM
      (fun e => question e.1 e.2 request.metadata.limits) = .ok questions ↔
      (∀ q ∈ request.questions, CriteriaFit request.metadata.limits q) ∧
        questions = request.questions := by
    intro questions
    rw [List.mapM_map]
    have heach := Result.mapM_ok_iff_eq_map
      (fun q hq q' => question_wireOf q (hadmitted.candidates q hq) q') questions
    rw [List.map_id'] at heach
    exact heach
  have hsent : Admitted ({ limits := request.metadata.limits } : RequestMetadata).limits
      ((State.fromText request.state.text).withFact "model" (.text (modelOf request.state)))
      request.questions :=
    { hadmitted with images := Nat.zero_le _, imageBytes := by simp [State.fromText] }
  constructor
  · intro h
    obtain ⟨-, h⟩ := Result.bind_unit_ok.mp h
    obtain ⟨state, hstate, h⟩ := Result.bind_ok.mp h
    obtain ⟨questions, hread, h⟩ := Result.bind_ok.mp h
    cases hstate
    obtain ⟨hfit, rfl⟩ := (hquestions questions).mp hread
    obtain ⟨hs, hq, hp, hm⟩ := DecisionRequest.new_ok (ofCoreSchema_ok h)
    exact ⟨hfit, hs, hq, hp, hm⟩
  · rintro ⟨hfit, hs, hq, hp, hm⟩
    have hread := (hquestions request.questions).mpr ⟨hfit, rfl⟩
    obtain ⟨state, questions, policy, metadata, hne⟩ := decoded
    subst hs hq hp hm
    simp only [build, requestWire, List.length_map, hadmitted.enforced, Option.getD_none,
      List.foldlM_nil, hread, DecisionRequest.new_of_admitted _ _ hsent, ofCoreSchema, bind, Except.bind,
      pure, Except.pure]

/-- A request that is encoded is read back with its state and its questions exactly when the wire
has a place for them, and wholly when it also has no policy and no metadata of its own. -/
theorem decodeRequestStr_encodeRequestStr_iff {r : DecisionRequest}
    (hnew : DecisionRequest.new r.state r.questions r.policy r.metadata = .ok r) :
    ((∃ e, encodeRequestStr r = .error e) ↔ ¬ r.questionIds.Nodup) ∧
    ((∀ document, encodeRequestStr r = .ok document →
      ∃ decoded, decodeRequestStr (.ok document) r.metadata.limits = .ok decoded ∧
        decoded.state = r.state ∧ decoded.questions = r.questions) ↔
      (r.questionIds.Nodup → Expressible r)) ∧
    ((∀ document, encodeRequestStr r = .ok document →
      decodeRequestStr (.ok document) r.metadata.limits = .ok r) ↔
      (r.questionIds.Nodup → Expressible r ∧ r.policy = .defaults ∧
        r.metadata = { limits := r.metadata.limits })) := by
  have hbuilt := build_requestWire (DecisionRequest.admitted_of_new hnew)
  by_cases hids : r.questionIds.Nodup
  · have hencode : encodeRequestStr r = .ok (requestWire r).serialize := by
      rw [encodeRequestStr, (enforceUniqueQuestions_ok_iff r).mpr hids]
      rfl
    have hdecode : decodeRequestStr (.ok (requestWire r).serialize) r.metadata.limits =
        build (requestWire r) r.metadata.limits := by
      simp only [decodeRequestStr, RequestWire.deserialize_requestWire hids]
    have hstate := state_expressible_iff r.state
    simp only [hencode, hids, Except.ok.injEq, forall_eq', hdecode, hbuilt, true_imp_iff]
    refine ⟨by simp, ?_, ?_⟩
    · constructor
      · rintro ⟨decoded, ⟨hfit, hs, -, -, -⟩, hsame, -⟩
        obtain ⟨himages, hfacts⟩ := hstate.mp (hs.symm.trans hsame)
        exact ⟨himages, hfacts, hfit⟩
      · intro h
        have hs := hstate.mpr ⟨h.images, h.facts⟩
        exact ⟨⟨r.state, r.questions, .defaults, { limits := r.metadata.limits }, r.questions_ne⟩,
          ⟨h.criteria, hs.symm, rfl, rfl, rfl⟩, rfl, rfl⟩
    · constructor
      · rintro ⟨hfit, hs, -, hp, hm⟩
        obtain ⟨himages, hfacts⟩ := hstate.mp hs.symm
        exact ⟨⟨himages, hfacts, hfit⟩, hp, hm⟩
      · rintro ⟨h, hp, hm⟩
        exact ⟨h.criteria, (hstate.mpr ⟨h.images, h.facts⟩).symm, trivial, hp, hm⟩
  · have hrefused : enforceUniqueQuestions r ≠ .ok () := fun h =>
      hids ((enforceUniqueQuestions_ok_iff r).mp h)
    obtain ⟨e, he⟩ : ∃ e, encodeRequestStr r = .error e := by
      cases hunique : enforceUniqueQuestions r with
      | error e => exact ⟨e, by rw [encodeRequestStr, hunique]; rfl⟩
      | ok u => exact absurd hunique hrefused
    simp [he, hids]

end Expressible

section Samples

attribute [local instance] plainStd plainTexts

theorem choiceAndBoolean_ne :
    [Sample.choice "team" ["web", "app"], Sample.boolean "down"] ≠ [] := by decide

def addressed (images : List ImageInput) : DecisionRequest where
  state := ⟨"ticket", OrdMap.empty.insert "model" (.text "local"), images⟩
  questions := [Sample.choice "team" ["web", "app"], Sample.boolean "down"]
  policy := .defaults
  metadata := {}
  questions_ne := choiceAndBoolean_ne

theorem expressible_addressed : Expressible (addressed []) where
  images := rfl
  facts := ⟨"local", rfl⟩
  criteria := List.forall_mem_cons.mpr ⟨(by decide : 2 ≤ maxCriteria),
    List.forall_mem_singleton.mpr trivial⟩

/-- Without images the request is encoded and read back whole. -/
theorem decodeRequestStr_encodeRequestStr_addressed :
    ∃ document, encodeRequestStr (addressed []) = .ok document ∧
      decodeRequestStr (.ok document) (addressed []).metadata.limits = .ok (addressed []) := by
  obtain ⟨hrefused, -, hwhole⟩ := decodeRequestStr_encodeRequestStr_iff
    (by decide +kernel : DecisionRequest.new (addressed []).state (addressed []).questions
      (addressed []).policy (addressed []).metadata = .ok (addressed []))
  have hids : (addressed []).questionIds.Nodup := by decide +kernel
  cases hencode : encodeRequestStr (addressed []) with
  | error e => exact absurd hids (hrefused.mp ⟨e, hencode⟩)
  | ok document =>
    exact ⟨document, rfl, hwhole.mpr (fun _ => ⟨expressible_addressed, rfl, rfl⟩) document hencode⟩

/-- A picture is neither refused nor sent. -/
theorem decodeRequestStr_encodeRequestStr_pictured :
    DecisionRequest.new (addressed [⟨.png, [137, 80]⟩]).state
      (addressed [⟨.png, [137, 80]⟩]).questions (addressed [⟨.png, [137, 80]⟩]).policy
      (addressed [⟨.png, [137, 80]⟩]).metadata = .ok (addressed [⟨.png, [137, 80]⟩]) ∧
    ∃ document decoded, encodeRequestStr (addressed [⟨.png, [137, 80]⟩]) = .ok document ∧
      decodeRequestStr (.ok document) {} = .ok decoded ∧
      decoded.state.images ≠ (addressed [⟨.png, [137, 80]⟩]).state.images :=
  ⟨by decide +kernel, _, _, rfl, rfl, by decide⟩

end Samples

end Jev

end OpenCodifier
