import OpenCodifier.Engine.Serve
set_option autoImplicit false

namespace OpenCodifier

/-- What is asked, the candidates of a choice question aside. -/
def DecisionQuestion.asked : DecisionQuestion → QuestionId × Option DecisionQuestion
  | .choice q => (q.id, none)
  | .boolean q => (q.id, some (.boolean q))
  | .score q => (q.id, some (.score q))

/-- The answer is of the kind of the question. A score answer is over the levels, its expected
value weighs them by position, and its level is the one that value falls into. -/
def AnswersQuestion : DecisionQuestion → DecisionAnswer → Prop
  | .choice q, .choice id _ _ _ => id = q.id
  | .boolean q, .boolean id _ _ _ => id = q.id
  | .score q, .score id expected level d _ => id = q.id ∧ expected = expectedValue d ∧
      level = (q.levelFor expected).label ∧ ∀ e ∈ d.entries, e.key ∈ q.levels.map ScoreLevel.label
  | _, _ => False

theorem AnswersQuestion.questionId {q : DecisionQuestion} {a : DecisionAnswer}
    (h : AnswersQuestion q a) : a.questionId = q.id := by
  cases q <;> cases a <;> first | exact h | exact h.1 | exact h.elim

theorem AnswersQuestion.congr {q q' : DecisionQuestion} {a : DecisionAnswer}
    (hq : q.asked = q'.asked) (h : AnswersQuestion q a) : AnswersQuestion q' a := by
  cases q <;> cases q' <;> simp_all [DecisionQuestion.asked]
  cases a <;> simp_all [AnswersQuestion]

structure AnswersAsked (request : DecisionRequest) (answers : List DecisionAnswer) : Prop where
  asked : ∀ answer ∈ answers, ∃ q ∈ request.questions, AnswersQuestion q answer
  distinct : (answers.map DecisionAnswer.questionId).Nodup

namespace CacheKeyBuilder

theorem normalizeQuestion_asked (q : DecisionQuestion) : (normalizeQuestion q).asked = q.asked := by
  cases q with
  | choice q =>
    simp only [normalizeQuestion, normalizeChoice, DecisionQuestion.asked]
    split
    · rename_i sorted h
      rw [Ident.ext_text (ChoiceQuestion.new_ok h).1]
    · rfl
  | boolean q => rfl
  | score q => rfl

theorem normalizedRequest_asked (request : DecisionRequest) :
    (normalizedRequest request).questions.map DecisionQuestion.asked =
      request.questions.map DecisionQuestion.asked := by
  unfold normalizedRequest
  split
  · rename_i normalized h
    rw [(DecisionRequest.new_ok h).2.1, List.map_map]
    exact List.map_congr_left fun q _ => normalizeQuestion_asked q
  · rfl

end CacheKeyBuilder

theorem AnswersAsked.congr {r request : DecisionRequest} {answers : List DecisionAnswer}
    (h : CacheKeyBuilder.normalizedRequest r = CacheKeyBuilder.normalizedRequest request)
    (ha : AnswersAsked r answers) : AnswersAsked request answers := by
  refine ⟨fun answer hm => ?_, ha.distinct⟩
  obtain ⟨q, hq, hanswers⟩ := ha.asked answer hm
  have hasked : q.asked ∈ request.questions.map DecisionQuestion.asked := by
    rw [← CacheKeyBuilder.normalizedRequest_asked, ← h, CacheKeyBuilder.normalizedRequest_asked]
    exact List.mem_map_of_mem hq
  obtain ⟨q', hq', hsame⟩ := List.mem_map.mp hasked
  exact ⟨q', hq', hanswers.congr hsame.symm⟩

namespace Executor

variable [RustStd] {ex : Executor}

omit [RustStd] in
theorem answerOf_answers {question : DecisionQuestion} {d : Distribution}
    {verdict : Option (Bool × ℚ)} {confidence : ℚ} {answer : DecisionAnswer}
    (hkeys : ∀ e ∈ d.entries, e.key ∈ allowedKeys question)
    (h : answerOf question d verdict confidence = .ok answer) :
    AnswersQuestion question answer := by
  cases question with
  | choice q =>
    obtain ⟨choice, -, h⟩ := Result.bind_ok.mp h
    cases h
    rfl
  | boolean q =>
    cases verdict <;> cases h <;> rfl
  | score q =>
    cases h
    exact ⟨rfl, rfl, rfl, hkeys⟩

omit [RustStd] in
theorem prepareQuestion_asked {s : RunState} {question narrowed : DecisionQuestion}
    {abstain : Option AbstainCandidate} (h : s.prepareQuestion question abstain = some narrowed) :
    narrowed.asked = question.asked := by
  cases question with
  | choice choice =>
    obtain ⟨outcome, -, h⟩ := Option.bind_eq_some_iff.mp h
    dsimp only at h
    split at h
    · cases h
    · obtain ⟨candidates, -, h⟩ := Option.bind_eq_some_iff.mp h
      obtain ⟨rebuilt, hnew, h⟩ := Option.bind_eq_some_iff.mp h
      cases h
      have hid := (ChoiceQuestion.new_ok (Result.toOption_eq_some.mp hnew)).1
      simp only [DecisionQuestion.asked, Ident.ext_text hid]
  | boolean _ =>
    cases h
    rfl
  | score _ =>
    cases h
    rfl

def DecidesAsked (ex : Executor) (d : QuestionDecision) : Prop :=
  AnswersQuestion d.question d.answer ∧
    ∃ question ∈ ex.request.questions, d.question.asked = question.asked

theorem answers_of_reading {classifier : Classifier} {state : State}
    {question : DecisionQuestion} {index : Option Lexical.Bm25Index}
    {reading : Distribution × Nat × Option ℚ} {policy : DecisionPolicy}
    {calibration : Calibration} {decidedBy : String} {kind : NodeKind} {support : Option ℚ}
    {d : QuestionDecision} (hr : readClassifier classifier state question index = .ok reading)
    (hd : decideQuestion question reading.1 policy calibration decidedBy kind support = .ok d) :
    AnswersQuestion d.question d.answer := by
  obtain ⟨rfl, -, -, -, -, -, -, ha, -⟩ := decideQuestion_ok hd
  exact answerOf_answers (readClassifier_keys hr) ha

theorem decidesAsked_run {final : RunState} (hrun : ex.runState = .ok final) :
    ∀ q d, final.decisions.get? q = some d → ex.DecidesAsked d := by
  refine decisions_invariant ex.DecidesAsked ?_ ?_ (fun d outcome agreement h => h) hrun
  · intro s id kind question d reading entry hq hone
    obtain ⟨narrowed, hn, hr, hd⟩ := decideOne_ok hone
    obtain ⟨state, hr⟩ := readQuestion_ok hr
    refine ⟨answers_of_reading hr hd, question, hq, ?_⟩
    rw [(decideQuestion_ok hd).1]
    exact prepareQuestion_asked hn
  · intro s policy rung live d decidedBy hrung hlive hfr
    obtain ⟨reading, hr, hd⟩ := fireRung_ok hfr
    refine ⟨answers_of_reading hr hd, ?_⟩
    rw [fireRung_question hfr]
    exact hlive.2

end Executor

namespace DecisionEngine

variable [RustStd]

theorem runsGive_asked (engine : DecisionEngine) : engine.RunsGive AnswersAsked := by
  intro request key guard final response hvalid hrun hresp
  obtain ⟨hstored, hdistinct⟩ := respond_answers hvalid hrun hresp
  refine ⟨fun answer ha => ?_, hdistinct⟩
  obtain ⟨q, d, hd, rfl⟩ := hstored answer ha
  obtain ⟨hanswers, question, hq, hasked⟩ := Executor.decidesAsked_run hrun q d hd
  exact ⟨question, hq, hanswers.congr hasked⟩

omit [RustStd] in
theorem canonically_asked : Canonically AnswersAsked := fun _ _ _ hsame h => h.congr hsame

end DecisionEngine

end OpenCodifier
