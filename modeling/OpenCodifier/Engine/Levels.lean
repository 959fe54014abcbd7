import OpenCodifier.Engine.Relational
import OpenCodifier.Engine.Replay
set_option autoImplicit false

namespace OpenCodifier

def ListsLevels (q : ScoreQuestion) (d : Distribution) : Prop :=
  d.entries.map DistributionEntry.key = q.levels.map ScoreLevel.label

/-- The classifier answers a score question over its levels, in level order. -/
structure Classifier.LevelOrdered (c : Classifier) : Prop where
  decide : ∀ (state : State) (q : ScoreQuestion) (d : Distribution),
    c.decide state (.score q) = .ok d → ListsLevels q d
  decideExtended : ∀ (state : State) (q : ScoreQuestion) (index : Option Lexical.Bm25Index)
    (answer : Distribution × Option ℚ), c.decideExtended state (.score q) index = .ok answer →
    ListsLevels q answer.1

/-- A score answer is one over the levels of a score question of the request, in level order, and
its expected value weighs them by position. -/
def LevelsInOrder (request : DecisionRequest) (answer : DecisionAnswer) : Prop :=
  ∀ id expected level d confidence, answer = .score id expected level d confidence →
    ∃ q, .score q ∈ request.questions ∧ q.id = id ∧ ListsLevels q d ∧ expected = expectedValue d

theorem Distribution.fromPairs_keys {pairs : List (String × ℚ)} {d : Distribution}
    (h : Distribution.fromPairs pairs = .ok d) :
    d.entries.map DistributionEntry.key = pairs.map Prod.fst := by
  rw [Distribution.new_entries h]
  simp [Function.comp_def]

theorem answerOf_score {question : DecisionQuestion} {d dist : Distribution}
    {verdict : Option (Bool × ℚ)} {c : ℚ} {id : QuestionId} {expected confidence : ℚ}
    {level : String}
    (h : answerOf question d verdict c = .ok (.score id expected level dist confidence)) :
    ∃ q, question = .score q ∧ q.id = id ∧ dist = d ∧ expected = expectedValue d := by
  cases question with
  | choice q =>
    obtain ⟨choice, -, h⟩ := Result.bind_ok.mp h
    cases h
  | boolean q =>
    cases verdict with
    | none => cases h
    | some v => cases h
  | score q =>
    cases h
    exact ⟨q, rfl, rfl, rfl, rfl⟩

section Shipped

theorem Classifier.levelOrdered_ofDecide {modelId : String}
    {decide : State → DecisionQuestion → EngineResult Distribution}
    (h : ∀ state q d, decide state (.score q) = .ok d → ListsLevels q d) :
    (Classifier.ofDecide modelId decide).LevelOrdered where
  decide := h
  decideExtended := by
    intro state q index answer hanswer
    obtain ⟨d, hd, hanswer⟩ := Result.bind_ok.mp hanswer
    cases hanswer
    exact h state q d hd

theorem MockClassifier.levelOrdered (modelId : String) :
    (MockClassifier.classifier modelId OrdMap.empty).LevelOrdered := by
  refine Classifier.levelOrdered_ofDecide fun state q d h => ?_
  simp only [OrdMap.get?_empty, uniform] at h
  split at h
  · cases h
  · rw [ListsLevels, Distribution.fromPairs_keys (ofCore_ok h)]
    simp [answerKeys, Function.comp_def]

variable [RustStd]

theorem Lexical.softmax_length (scores : List ℚ) :
    (Lexical.softmax scores).length = scores.length := by
  cases scores with
  | nil => rfl
  | cons first rest =>
    unfold softmax
    dsimp only
    split <;> simp

omit [RustStd] in
theorem Lexical.boundLexicalSpread_length (scores : List ℚ) :
    (Lexical.boundLexicalSpread scores).length = scores.length := by
  cases scores with
  | nil => rfl
  | cons first rest =>
    unfold boundLexicalSpread
    dsimp only
    split <;> simp

theorem LexicalClassifier.listsLevels {state : State} {q : ScoreQuestion}
    {index : Option Lexical.Bm25Index} {answer : Distribution × ℚ}
    (h : decideWithSupport state (.score q) index = .ok answer) : ListsLevels q answer.1 := by
  obtain ⟨d, hd, h⟩ := Result.bind_ok.mp h
  cases h
  unfold distributionOver at hd
  split at hd
  · rename_i d' hd'
    cases hd
    rw [ListsLevels, Distribution.fromPairs_keys hd', List.map_fst_zip]
    simp [scoreDocuments, Lexical.softmax_length, Lexical.boundLexicalSpread_length,
      Lexical.Bm25Index.scoreAll_length, Lexical.Bm25Index.len_new]
  · cases hd

theorem LexicalClassifier.levelOrdered (modelId : String) :
    (LexicalClassifier.classifier modelId).LevelOrdered where
  decide := by
    intro state q d h
    obtain ⟨r, hr, h⟩ := Result.bind_ok.mp h
    cases h
    exact listsLevels hr
  decideExtended := by
    intro state q index answer h
    obtain ⟨r, hr, h⟩ := Result.bind_ok.mp h
    cases h
    exact listsLevels hr

theorem RelationalSolver.levelOrdered {inner : Classifier} (h : inner.LevelOrdered) :
    (RelationalSolver.classifier inner).LevelOrdered :=
  Classifier.levelOrdered_ofDecide h.decide

end Shipped

namespace Executor

section Decisions

variable [RustStd] {ex : Executor}

/-- A property of every decision that a node makes in a state with an invariant, or a rung makes of
one with the property, kept by patching, holds of every decision stored during a run. -/
theorem decisions_invariant_of {S : RunState → Prop} (hstart : S ex.machine.start)
    (hmerge : ∀ st : MergeStep, ex.machine.Produces st.snapshot st.node st.output →
      S st.snapshot → S st.before → S (ex.machine.after st))
    (P : QuestionDecision → Prop)
    (hdecide : ∀ s id kind question d reading entry, S s → question ∈ ex.request.questions →
      ex.decideOne s id kind question = .ok (some (d, reading, entry)) → P d)
    (hfire : ∀ s policy rung live d decidedBy, rung ∈ ex.fallbacks → P live →
      ex.fireRung s policy rung live decidedBy = .ok d → P d)
    (hpatch : ∀ d outcome agreement, P d → P (patch outcome agreement d))
    {final : RunState} (hrun : ex.runState = .ok final) :
    S final ∧ ∀ q d, final.decisions.get? q = some d → P d := by
  obtain ⟨steps, -, ht⟩ := runState_trace hrun
  refine (ht.invariant (fun s => S s ∧ ∀ q d, s.decisions.get? q = some d → P d)
    ⟨hstart, fun q d hd => by cases hd⟩ ?_).2
  intro st hst hp ⟨hs, hsnap⟩ ⟨hkept, hb⟩
  refine ⟨hmerge st hp hs hkept, fun q d hd => ?_⟩
  by_cases hk : st.node.kind = .choice ∨ st.node.kind = .boolean ∨ st.node.kind = .score
  · rcases decided_merge (decideQuestions_of_executed (executed_of_produces hp) hk) hd with
      ⟨-, question, hq, reading, entry, hone⟩ | hold
    · exact hdecide _ _ _ _ _ _ _ hs hq hone
    · exact hb q d hold
  · by_cases ht' : st.node.kind = .threshold
    · obtain ⟨hnone, hsome⟩ := merge_resolved (keyed_step ht hst).1
        (resolveThreshold_of_executed (executed_of_produces hp) ht') st.before st.node q
      cases hq : st.snapshot.decisions.get? q with
      | none => exact hb q d ((hnone hq).symm.trans hd)
      | some d₀ =>
        obtain ⟨r, hr, hget⟩ := hsome d₀ hq
        obtain ⟨x, hx, rfl⟩ := Option.map_eq_some_iff.mp (hget.symm.trans hd)
        refine hpatch _ _ _ ?_
        rcases Option.or_eq_some_iff.mp hx with hl | ⟨-, hl⟩
        · obtain ⟨-, hw, -⟩ := resolveOne_ok hr
          obtain ⟨log, hlaw, hfired, -⟩ := walk_law hw
          rw [hfired] at hl
          obtain ⟨e, he, rfl⟩ := List.mem_map.mp (List.mem_of_getLast? hl)
          obtain ⟨rung, hrung, hfr⟩ := hlaw.fired e he
          exact hfire _ _ _ _ _ _ (List.mem_of_getElem? hrung) (hsnap q d₀ hq) hfr
        · exact hb q x hl
    · have hsame := mergeExecution_decisions_of_other (s := st.before)
        (executed_of_produces hp) (by tauto) ht'
      refine hb q d ?_
      rw [← hsame]
      exact hd

/-- A property of every decision that a node or a rung makes, kept by patching, holds of every
decision stored during a run. -/
theorem decisions_invariant (P : QuestionDecision → Prop)
    (hdecide : ∀ s id kind question d reading entry, question ∈ ex.request.questions →
      ex.decideOne s id kind question = .ok (some (d, reading, entry)) → P d)
    (hfire : ∀ s policy rung live d decidedBy, rung ∈ ex.fallbacks → P live →
      ex.fireRung s policy rung live decidedBy = .ok d → P d)
    (hpatch : ∀ d outcome agreement, P d → P (patch outcome agreement d))
    {final : RunState} (hrun : ex.runState = .ok final) :
    ∀ q d, final.decisions.get? q = some d → P d :=
  (decisions_invariant_of (S := fun _ => True) trivial (fun _ _ _ _ => trivial) P
    (fun s id kind question d reading entry _ => hdecide s id kind question d reading entry)
    hfire hpatch hrun).2

def LevelOrdered (ex : Executor) : Prop :=
  ex.classifier.LevelOrdered ∧ ∀ rung ∈ ex.fallbacks, rung.classifier.LevelOrdered

def DecidesInOrder (ex : Executor) (d : QuestionDecision) : Prop :=
  (∀ q, d.question = .score q → .score q ∈ ex.request.questions) ∧
    LevelsInOrder ex.request d.answer

theorem clip_keys {d normalized : Distribution} {question : DecisionQuestion} {clipped : Nat}
    (hall : ∀ e ∈ d.entries, e.key ∈ allowedKeys question)
    (h : clip d question = .ok (normalized, clipped)) :
    normalized.entries.map DistributionEntry.key = d.entries.map DistributionEntry.key := by
  rw [clip_ok h, List.filter_eq_self.mpr fun e he => decide_eq_true (hall e he)]
  unfold clipPairs
  dsimp only
  split <;> simp [Function.comp_def]

theorem readClassifier_levels {classifier : Classifier} (hc : classifier.LevelOrdered)
    {state : State} {q : ScoreQuestion} {index : Option Lexical.Bm25Index}
    {reading : Distribution × Nat × Option ℚ}
    (h : readClassifier classifier state (.score q) index = .ok reading) :
    ListsLevels q reading.1 := by
  obtain ⟨raw, hraw, h⟩ := Result.bind_ok.mp h
  obtain ⟨⟨normalized, clipped⟩, hclip, h⟩ := Result.bind_ok.mp h
  cases h
  have hlevels : raw.1.entries.map DistributionEntry.key = q.levels.map ScoreLevel.label :=
    hc.decideExtended _ _ _ _ hraw
  rw [ListsLevels, clip_keys _ hclip, hlevels]
  intro e he
  change e.key ∈ q.levels.map ScoreLevel.label
  rw [← hlevels]
  exact List.mem_map_of_mem he

theorem decidesInOrder_of_reading {classifier : Classifier} (hc : classifier.LevelOrdered)
    {state : State} {question : DecisionQuestion} {index : Option Lexical.Bm25Index}
    {reading : Distribution × Nat × Option ℚ} {policy : DecisionPolicy}
    {calibration : Calibration} {decidedBy : String} {kind : NodeKind} {support : Option ℚ}
    {d : QuestionDecision} (hq : ∀ q, question = .score q → .score q ∈ ex.request.questions)
    (hr : readClassifier classifier state question index = .ok reading)
    (hd : decideQuestion question reading.1 policy calibration decidedBy kind support = .ok d) :
    ex.DecidesInOrder d := by
  obtain ⟨rfl, -, -, -, -, -, -, ha, -⟩ := decideQuestion_ok hd
  refine ⟨hq, ?_⟩
  intro id expected level dist confidence hanswer
  rw [hanswer] at ha
  obtain ⟨q, hquestion, rfl, rfl, rfl⟩ := answerOf_score ha
  rw [hquestion] at hr
  exact ⟨q, hq q hquestion, rfl, readClassifier_levels hc hr, rfl⟩

omit [RustStd] in
theorem prepareQuestion_score {s : RunState} {question : DecisionQuestion} {q : ScoreQuestion}
    {abstain : Option AbstainCandidate} (h : s.prepareQuestion question abstain = some (.score q)) :
    question = .score q := by
  cases question with
  | choice choice =>
    obtain ⟨narrowed, -, h⟩ := Option.bind_eq_some_iff.mp h
    dsimp only at h
    split at h
    · cases h
    · obtain ⟨candidates, -, h⟩ := Option.bind_eq_some_iff.mp h
      obtain ⟨rebuilt, -, h⟩ := Option.bind_eq_some_iff.mp h
      cases h
  | boolean _ => cases h
  | score _ => exact Option.some.inj h

theorem decidesInOrder_run (hc : ex.LevelOrdered) {final : RunState}
    (hrun : ex.runState = .ok final) :
    ∀ q d, final.decisions.get? q = some d → ex.DecidesInOrder d := by
  refine decisions_invariant ex.DecidesInOrder ?_ ?_ ?_ hrun
  · intro s id kind question d reading entry hq hone
    obtain ⟨narrowed, hn, hr, hd⟩ := decideOne_ok hone
    obtain ⟨state, hr⟩ := readQuestion_ok hr
    refine decidesInOrder_of_reading hc.1 (fun q hnarrowed => ?_) hr hd
    subst hnarrowed
    exact prepareQuestion_score hn ▸ hq
  · intro s policy rung live d decidedBy hrung hlive hfr
    obtain ⟨reading, hr, hd⟩ := fireRung_ok hfr
    exact decidesInOrder_of_reading (hc.2 rung hrung) hlive.1 hr hd
  · exact fun d outcome agreement h => h

end Decisions

end Executor

end OpenCodifier
