import OpenCodifier.Engine.Answered
import OpenCodifier.Engine.Sample
import OpenCodifier.Schema.JevResponse
set_option autoImplicit false

namespace OpenCodifier

open Json

namespace Jev

variable [RustStd]

/-- The same decided value, and for a score the same expected value and probabilities. -/
def Alike (q : DecisionQuestion) (a b : DecisionAnswer) : Prop :=
  b.decided = a.decided ∧
    match q, a with
    | .score q, .score _ expected _ d _ => ScoresAlike q expected d b
    | _, _ => True

/-- What the wire carries of an answer determines it: the candidate is one of the question's,
the truth value is the one the probability of yes speaks for, and the probabilities are by
position those of the levels. -/
def Carried : DecisionQuestion → DecisionAnswer → Prop
  | .choice q, .choice _ choice _ _ => choice ∈ q.candidates.map Candidate.id
  | .boolean _, .boolean _ value p _ => value = decide (1 / 2 ≤ if value then p else 1 - p)
  | .score q, .score _ _ _ d _ => Positional q d
  | _, _ => True

/-- Encoding the response and decoding it against the request gives every answer back. -/
def RoundTrips (request : DecisionRequest) (response : DecisionResponse) (limits : Limits) :
    Prop :=
  ∃ value decoded, encodeResponse response = .ok value ∧
    decodeResponse value request limits = .ok decoded ∧
    AnsweredAlike Alike request.questions response.answers decoded.answers

theorem answer_encodeAnswer_iff {q : DecisionQuestion} {a : DecisionAnswer}
    (h : AnswersQuestion q a) (hv : a.validate = .ok ()) :
    (∃ b, answer q (encodeAnswer a).2.1 = .ok b ∧ Alike q a b) ↔ Carried q a := by
  cases q with
  | choice q =>
    cases a with
    | choice id choice d c =>
      exact (exists_congr fun b => and_congr_right fun _ => and_iff_left trivial).trans
        (answerChoice_iff q choice)
    | boolean id value p c => exact h.elim
    | score id expected level d c => exact h.elim
  | boolean q =>
    cases a with
    | choice id choice d c => exact h.elim
    | boolean id value p c =>
      have hp := DecisionAnswer.boolean_unit hv
      have hyes : 0 ≤ (if value then p else 1 - p) ∧ (if value then p else 1 - p) ≤ 1 := by
        split
        · exact hp
        · constructor <;> linarith [hp.1, hp.2]
      exact (exists_congr fun b => and_congr_right fun _ => and_iff_left trivial).trans
        (answerBoolean_iff q hyes)
    | score id expected level d c => exact h.elim
  | score q =>
    cases a with
    | choice id choice d c => exact h.elim
    | boolean id value p c => exact h.elim
    | score id expected level d c =>
      obtain ⟨-, rfl, rfl, hkeys⟩ := h
      exact answerScore_iff hkeys

/-- A response to the questions of a request round-trips exactly when each answer is carried. -/
theorem roundTrips_iff {request : DecisionRequest} {response : DecisionResponse}
    (hunique : request.questionIds.Nodup) (ha : AnswersAsked request response.answers)
    (hall : ∀ q ∈ request.questions, ∃ a ∈ response.answers, a.questionId = q.id)
    (limits : Limits) :
    RoundTrips request response limits ↔
      ∀ q ∈ request.questions, ∀ a ∈ response.answers, a.questionId = q.id → Carried q a := by
  have hdecode : ∀ value, encodeResponse response = .ok value →
      decodeResponse value request limits = (do
        let answers ← answersOf ": the request question has no answer" answer
          (keyedFields encodeAnswer response.answers) request.questions
        reportedAnswers answers (reportFor answers)) := by
    intro value h
    cases h
    rfl
  have hroundTrips : RoundTrips request response limits ↔ ∃ decoded, (do
      let answers ← answersOf ": the request question has no answer" answer
        (keyedFields encodeAnswer response.answers) request.questions
      reportedAnswers answers (reportFor answers)) = .ok decoded ∧
      AnsweredAlike Alike request.questions response.answers decoded.answers := by
    constructor
    · rintro ⟨value, decoded, hvalue, hdecoded, halike⟩
      exact ⟨decoded, (hdecode value hvalue).symm.trans hdecoded, halike⟩
    · rintro ⟨decoded, hdecoded, halike⟩
      exact ⟨_, decoded, rfl, (hdecode _ rfl).trans hdecoded, halike⟩
  rw [hroundTrips, readBack_iff encodeAnswer_fst ha.distinct hall fun q j b => answer_ok]
  refine forall₂_congr fun q hq => forall₂_congr fun a hm => forall_congr' fun hid => ?_
  obtain ⟨q', hq', hanswers⟩ := ha.asked a hm
  have hsame : q' = q :=
    List.inj_on_of_nodup_map hunique hq' hq (hanswers.questionId.symm.trans hid)
  exact answer_encodeAnswer_iff (hsame ▸ hanswers) (response.answers_valid a hm)

/-- Whatever an engine has served before: a response in which it answers every question is given
back by the wire exactly when each of its answers is carried. -/
theorem decodeResponse_encodeResponse_iff {engine : DecisionEngine} {asked : Set DecisionRequest}
    (hk : engine.KeysIdentify asked) (hfresh : ∀ key, engine.cache.stored key = none)
    (calls : List (DecisionRequest × Moment)) (hcalls : ∀ call ∈ calls, call.1 ∈ asked)
    {request : DecisionRequest} (hr : request ∈ asked) {moment : Moment}
    {response : DecisionResponse}
    (h : ((engine.serve calls).decide request moment).2 = .ok response)
    (hall : ∀ q ∈ request.questions, ∃ a ∈ response.answers, a.questionId = q.id)
    (limits : Limits) :
    RoundTrips request response limits ↔
      ∀ q ∈ request.questions, ∀ a ∈ response.answers, a.questionId = q.id → Carried q a := by
  have hserves := (DecisionEngine.serves_of_fresh engine.runsGive_asked hk hfresh).serve
    DecisionEngine.canonically_asked hcalls
  obtain ⟨key, hvalid, -⟩ := DecisionEngine.decide_ok h
  exact roundTrips_iff (DecisionEngine.questionIds_nodup_of_validate hvalid)
    (hserves.answers DecisionEngine.canonically_asked hr h) hall limits

end Jev

namespace Jev

section Samples

attribute [local instance] plainStd

instance (q : ScoreQuestion) (d : Distribution) : Decidable (Positional q d) :=
  decidable_of_iff (∀ place ∈ q.levels.zipIdx, ∃ e ∈ d.entries[place.2]?,
    d.probabilityOf place.1.label = some e.probability)
    ⟨fun h i level hi => h (level, i) (List.mk_mem_zipIdx_iff_getElem?.mpr hi),
      fun h _ hplace => h _ _ (List.mk_mem_zipIdx_iff_getElem?.mp hplace)⟩

instance : (q : DecisionQuestion) → (a : DecisionAnswer) → Decidable (Carried q a)
  | .choice q, .choice _ choice _ _ =>
    inferInstanceAs (Decidable (choice ∈ q.candidates.map Candidate.id))
  | .boolean _, .boolean _ value p _ =>
    inferInstanceAs (Decidable (value = decide (1 / 2 ≤ if value then p else 1 - p)))
  | .score q, .score _ _ _ d _ => inferInstanceAs (Decidable (Positional q d))
  | .choice _, .boolean .. | .choice _, .score .. | .boolean _, .choice .. | .boolean _, .score ..
  | .score _, .choice .. | .score _, .boolean .. => instDecidableTrue

def askEngine : DecisionEngine where
  config := {
    graph := Sample.graph [Sample.node "in" .normalize [], Sample.node "judge" .choice ["in"],
      Sample.node "ask" .boolean ["in"], Sample.node "rate" .score ["in"],
      Sample.node "out" .output ["judge", "ask", "rate"]]
    rules := Sample.noRules }
  identity := ⟨1, "leaning", 0, "0.1.0", "none"⟩
  cache := ⟨.empty, .default, CacheConfig.default_maxEntries_pos, CacheConfig.default_ttl_pos⟩
  classifier := MockClassifier.classifier "leaning" (OrdMap.ofList
    [("team", Sample.distribution [("web", 3 / 4), ("app", 1 / 4)]),
      ("urgent", Sample.distribution [("true", 6 / 10), ("false", 4 / 10)]),
      ("weight", Sample.distribution [("light", 1 / 4), ("heavy", 3 / 4)])])
  verifier := none
  fallbacks := []
  keyOf := fun _ _ => .ok 0
  serializedLen := fun _ => 0

def askReply (questions : List DecisionQuestion) (threshold : ℚ) :
    Option (DecisionRequest × DecisionResponse) := do
  let policy ← (DecisionPolicy.defaults.withBooleanThreshold threshold).toOption
  let request ← (DecisionRequest.new (State.fromText "ticket") questions policy {}).toOption
  let response ← (askEngine.decide request ⟨0, 0, fun _ => .ok ()⟩).2.toOption
  some (request, response)

theorem askReply_some {questions : List DecisionQuestion} {threshold : ℚ}
    (h : (askReply questions threshold).isSome = true) : ∃ request response,
      askReply questions threshold = some (request, response) ∧
      (askEngine.decide request ⟨0, 0, fun _ => .ok ()⟩).2 = .ok response := by
  obtain ⟨⟨request, response⟩, hreply⟩ := Option.isSome_iff_exists.mp h
  refine ⟨request, response, hreply, ?_⟩
  obtain ⟨policy, -, h⟩ := Option.bind_eq_some_iff.mp hreply
  obtain ⟨request', -, h⟩ := Option.bind_eq_some_iff.mp h
  obtain ⟨response', hresponse, h⟩ := Option.bind_eq_some_iff.mp h
  cases h
  exact Result.toOption_eq_some.mp hresponse

theorem of_askReply {questions : List DecisionQuestion} {threshold : ℚ} {request : DecisionRequest}
    {response : DecisionResponse} (h : askReply questions threshold = some (request, response))
    {p : DecisionRequest → DecisionResponse → Prop} [∀ r a, Decidable (p r a)]
    (hall : ((askReply questions threshold).all fun reply => p reply.1 reply.2) = true) :
    p request response := by
  rw [h] at hall
  exact of_decide_eq_true hall

theorem keysIdentify_singleton (engine : DecisionEngine) (request : DecisionRequest) :
    engine.KeysIdentify {request} := by
  intro r hr r' hr' _ _ _
  rw [Set.mem_singleton_iff.mp hr, Set.mem_singleton_iff.mp hr']

abbrev Answered (request : DecisionRequest) (response : DecisionResponse) : Prop :=
  ∀ q ∈ request.questions, ∃ a ∈ response.answers, a.questionId = q.id

/-- A question of each kind, none of them answered against its probabilities. -/
theorem decodeResponse_encodeResponse_agreed : ∃ request response,
    request.questions = [Sample.choice "team" ["web", "app"], Sample.boolean "urgent",
      Sample.score "weight" ["light", "heavy"]] ∧
    (askEngine.decide request ⟨0, 0, fun _ => .ok ()⟩).2 = .ok response ∧
    RoundTrips request response {} := by
  obtain ⟨request, response, hreply, h⟩ := askReply_some (by decide +kernel :
    (askReply [Sample.choice "team" ["web", "app"], Sample.boolean "urgent",
      Sample.score "weight" ["light", "heavy"]] (1 / 2)).isSome = true)
  have hcarried := of_askReply hreply (p := fun request response =>
    request.questions = [Sample.choice "team" ["web", "app"], Sample.boolean "urgent",
      Sample.score "weight" ["light", "heavy"]] ∧ Answered request response ∧
      ∀ q ∈ request.questions, ∀ a ∈ response.answers, a.questionId = q.id → Carried q a)
    (by decide +kernel)
  obtain ⟨hquestions, hall, hcarried⟩ := hcarried
  exact ⟨request, response, hquestions, h, (decodeResponse_encodeResponse_iff
    (keysIdentify_singleton askEngine request) (fun _ => rfl) []
    (fun _ hcall => absurd hcall List.not_mem_nil) (Set.mem_singleton request) h hall {}).mpr
    hcarried⟩

/-- A threshold overrules the argmax: the engine answers no with 0.4 of the mass, and the wire
gives a yes back. -/
theorem decodeResponse_encodeResponse_overruled :
    ∃ request response, (askEngine.decide request ⟨0, 0, fun _ => .ok ()⟩).2 = .ok response ∧
      (∀ q ∈ request.questions, ∃ a ∈ response.answers, a.questionId = q.id) ∧
      ¬ RoundTrips request response {} := by
  obtain ⟨request, response, hreply, h⟩ := askReply_some (by decide +kernel :
    (askReply [Sample.boolean "urgent"] (7 / 10)).isSome = true)
  obtain ⟨hall, hunique, hlost⟩ := of_askReply hreply (p := fun request response =>
    Answered request response ∧ request.questionIds.Nodup ∧
      ¬ ∀ q ∈ request.questions, ∀ a ∈ response.answers, a.questionId = q.id → Carried q a)
    (by decide +kernel)
  have hserves := DecisionEngine.serves_of_fresh askEngine.runsGive_asked
    (keysIdentify_singleton askEngine request) fun _ => rfl
  have hanswers := hserves.answers DecisionEngine.canonically_asked (Set.mem_singleton request) h
  exact ⟨request, response, h, hall,
    fun hround => hlost ((roundTrips_iff hunique hanswers hall {}).mp hround)⟩

end Samples

end Jev

end OpenCodifier
