import OpenCodifier.Engine.RungPolicy
set_option autoImplicit false

namespace OpenCodifier.Executor

section Runs

variable [RustStd] {ex : Executor}

section Origin

/-- Where a decision stored after a merge step comes from. -/
inductive DecisionOrigin (ex : Executor) (st : MergeStep) (q : QuestionId)
    (d : QuestionDecision) : Prop
  | kept : st.before.decisions.get? q = some d → DecisionOrigin ex st q d
  | decided {question : DecisionQuestion} {reading : Reading} {entry : TraceEntry} :
      d.answer.questionId = q →
      ex.decideOne st.snapshot st.node.id st.node.kind question = .ok (some (d, reading, entry)) →
      DecisionOrigin ex st q d
  | gated {d₀ x : QuestionDecision} {r : Resolution} : st.node.kind = .threshold →
      st.snapshot.decisions.get? q = some d₀ →
      ex.resolveOne st.snapshot st.node.id (q, d₀) = .ok r →
      r.walk.fired.getLast?.or (st.before.decisions.get? q) = some x →
      d = patch r.outcome r.agreement x → DecisionOrigin ex st q d

theorem decision_origin {st : MergeStep} (hs : Keyed st.snapshot)
    (hp : ex.machine.Produces st.snapshot st.node st.output) {q : QuestionId}
    {d : QuestionDecision} (h : (ex.machine.after st).decisions.get? q = some d) :
    DecisionOrigin ex st q d := by
  have he := executed_of_produces hp
  by_cases hd : st.node.kind ≠ .choice ∧ st.node.kind ≠ .boolean ∧ st.node.kind ≠ .score
  · by_cases ht : st.node.kind = .threshold
    · obtain ⟨hnone, hsome⟩ :=
        merge_resolved hs (resolveThreshold_of_executed he ht) st.before st.node q
      cases hq : st.snapshot.decisions.get? q with
      | none => exact .kept ((hnone hq).symm.trans h)
      | some d₀ =>
        obtain ⟨r, hr, hget⟩ := hsome d₀ hq
        obtain ⟨x, hx, hpatch⟩ := Option.map_eq_some_iff.mp (hget.symm.trans h)
        exact .gated ht hq hr hx hpatch.symm
    · refine .kept ?_
      rw [← h]
      exact (congrArg (fun m => m.get? q) (mergeExecution_decisions_of_other he hd ht)).symm
  · rcases decided_merge (decideQuestions_of_executed he (by tauto)) h with
      ⟨hq, question, -, reading, entry, hone⟩ | hold
    · exact .decided hq hone
    · exact .kept hold

/-- The node read, for every question it gates, the decision it is merged onto. -/
def Fresh (st : MergeStep) : Prop :=
  ∀ q d, st.snapshot.decisions.get? q = some d → st.before.decisions.get? q = some d

theorem gated_eq_finalLive {st : MergeStep} (hf : Fresh st) {q : QuestionId}
    {d₀ x : QuestionDecision} {r : Resolution} (hd : st.snapshot.decisions.get? q = some d₀)
    (hr : ex.resolveOne st.snapshot st.node.id (q, d₀) = .ok r)
    (hx : r.walk.fired.getLast?.or (st.before.decisions.get? q) = some x) :
    ∃ log text, WalkLaw ex st.snapshot d₀ log ∧ x = finalLive d₀ log ∧
      ex.verify st.snapshot x (gate (ex.gatePolicy d₀) x) = .ok (r.outcome, r.agreement, text) := by
  obtain ⟨-, hw, text, hv⟩ := resolveOne_ok hr
  obtain ⟨log, hlaw, hfired, hl⟩ := walk_law hw
  have hxl : x = finalLive d₀ log := by
    rw [hf q d₀ hd, hfired] at hx
    rw [finalLive]
    cases hg : (log.map Prod.snd).getLast? with
    | none =>
      rw [hg, Option.none_or] at hx
      exact (Option.some.inj hx).symm
    | some y =>
      rw [hg, Option.some_or] at hx
      exact (Option.some.inj hx).symm
  rw [hl, ← hxl] at hv
  exact ⟨log, text, hlaw, hxl, hv⟩

theorem verify_abstain {s : RunState} {live : QuestionDecision} {outcome : DecisionOutcome}
    {agreement : Option Bool} {text : String}
    (h : ex.verify s live .abstain = .ok (outcome, agreement, text)) : outcome = .abstain := by
  cases h
  rfl

omit [RustStd] in
theorem gate_ne_verified (policy : DecisionPolicy) (live : QuestionDecision) :
    gate policy live ≠ .verified := by
  unfold gate
  split
  · simp
  · rcases live.report.outcomeFor_cases policy with h | h | h | h <;> simp [h]

/-- A verified outcome comes from a verifier whose top key is the live decision's. -/
theorem verify_verified {s : RunState} {live : QuestionDecision} {policy : DecisionPolicy}
    {agreement : Option Bool} {text : String}
    (h : ex.verify s live (gate policy live) = .ok (.verified, agreement, text)) :
    live.abstained = none ∧ ∃ verifier alternative, ex.verifier = some verifier ∧
      verifier.decide s.state live.question = .ok alternative ∧
      alternative.top.key = live.distribution.top.key := by
  unfold verify at h
  split at h
  · rename_i hg
    have hab : live.abstained = none := by
      unfold gate at hg
      split at hg
      · cases hg
      · rename_i hab
        simpa using hab
    split at h
    · rename_i verifier hv
      obtain ⟨alternative, ha, h⟩ := Result.bind_ok.mp h
      split at h
      · rename_i hkey
        exact ⟨hab, verifier, alternative, hv, ha, hkey⟩
      · cases h
    · cases h
  · have hg := congrArg Prod.fst (Except.ok.inj h)
    exact absurd hg (gate_ne_verified policy live)

end Origin

section Abstention

/-- No rung fired after a live decision that abstained. -/
def AbstentionKept (d : QuestionDecision) (log : WalkLog) : Prop :=
  (d.abstained.isSome = true → log = []) ∧
    ∀ e ∈ log, e.2.abstained.isSome = true → ¬ WentOn log e.1

/-- A live decision that abstained is accepted by the gating policy, or no rung
that could still fire fits the state. -/
def AbstentionStops (ex : Executor) (s : RunState) (d : QuestionDecision) (log : WalkLog) :
    Prop :=
  (d.abstained.isSome = true →
    d.report.outcomeFor (ex.gatePolicy d) = .accept ∨ ¬ AnyFits ex s) ∧
  ∀ e ∈ log, e.2.abstained.isSome = true →
    e.2.report.outcomeFor (ex.gatePolicy d) = .accept ∨ ¬ LaterFits ex s e.1

theorem WalkLaw.laterFits_of_wentOn {s : RunState} {d : QuestionDecision} {log : WalkLog}
    (h : WalkLaw ex s d log) {i : Nat} (hw : WentOn log i) : LaterFits ex s i := by
  obtain ⟨f, hf, hlt⟩ := hw
  obtain ⟨rung, hrung, -⟩ := h.fired f hf
  exact ⟨f.1, rung, hlt, hrung, ((h.fires_iff f.1 rung hrung).mp (List.mem_map_of_mem hf)).1⟩

theorem abstentionKept_iff {s : RunState} {d : QuestionDecision} {log : WalkLog}
    (h : WalkLaw ex s d log) : AbstentionKept d log ↔ AbstentionStops ex s d log := by
  refine and_congr (forall_congr' fun _ => h.eq_nil_iff)
    (forall₂_congr fun e he => forall_congr' fun _ => ?_)
  by_cases hl : LaterFits ex s e.1
  · rw [h.wentOn_iff he hl, not_not]
    simp [hl]
  · simp only [hl, not_false_eq_true, or_true, iff_true]
    exact fun hw => hl (h.laterFits_of_wentOn hw)

def AbstentionsStand (s : RunState) : Prop :=
  ∀ q d, s.decisions.get? q = some d → d.abstained.isSome = true → d.outcome = .abstain

theorem abstentionsStand_after {st : MergeStep} (hk : Keyed st.snapshot)
    (hp : ex.machine.Produces st.snapshot st.node st.output)
    (hf : st.node.kind = .threshold → Fresh st) (hb : AbstentionsStand st.before) :
    AbstentionsStand (ex.machine.after st) := by
  intro q d hd hab
  cases decision_origin hk hp hd with
  | kept hold => exact hb q d hold hab
  | decided _ hone =>
    obtain ⟨narrowed, -, -, hdec⟩ := decideOne_ok hone
    obtain ⟨-, -, -, -, hout, -⟩ := decideQuestion_ok hdec
    rw [hout, if_pos hab]
  | @gated d₀ x r ht hq hr hx hpatch =>
    obtain ⟨log, text, -, -, hv⟩ := gated_eq_finalLive (hf ht) hq hr hx
    subst hpatch
    have hx' : x.abstained.isSome = true := hab
    rw [gate, if_pos hx'] at hv
    exact verify_abstain hv

/-- What a step must meet so that no abstention is displaced. -/
structure AbstentionSafe (ex : Executor) (st : MergeStep) : Prop where
  fresh : Fresh st
  stops : ∀ q d, st.snapshot.decisions.get? q = some d →
    ∀ log, WalkLaw ex st.snapshot d log → AbstentionStops ex st.snapshot d log

/-- In a run whose threshold steps are safe no walk displaces an abstention, and
a question whose deciding rung abstained ends as an abstention without an answer. -/
theorem abstention_terminal {final : RunState} {steps : List MergeStep}
    (hrun : ex.runState = .ok final) (hsteps : ex.steps = .ok steps)
    (hsafe : ∀ st ∈ steps, st.node.kind = .threshold → AbstentionSafe ex st) :
    (∀ st ∈ steps, st.node.kind = .threshold → ∀ q d, st.snapshot.decisions.get? q = some d →
      ∀ log, WalkLaw ex st.snapshot d log → AbstentionKept d log) ∧
    ∀ question ∈ ex.request.questions, ∀ d, final.decisions.get? question.id = some d →
      d.abstained.isSome = true → questionOutcome final question = (question.id, .abstain) ∧
        shippedAnswer final question = none := by
  have ht := trace_of_steps hrun hsteps
  refine ⟨?_, ?_⟩
  · intro st hst hkind q d hd log hlaw
    exact (abstentionKept_iff hlaw).mpr ((hsafe st hst hkind).stops q d hd log hlaw)
  · have hstand : AbstentionsStand final := by
      refine (ht.invariant AbstentionsStand ?_ ?_).2
      · intro q d hd
        cases hd
      · intro st hst hp _ hb
        exact abstentionsStand_after (keyed_step ht hst).1 hp (fun hk => (hsafe st hst hk).fresh) hb
    intro question _ d hd hab
    refine ⟨?_, ?_⟩
    · simp [questionOutcome, hd, hstand _ d hd hab]
    · simp [shippedAnswer, hd, hab]

end Abstention

section Made

/-- A decision as `decideQuestion` makes it from one clipped reading of a classifier. -/
def Made (d : QuestionDecision) : Prop :=
  ∃ (classifier : Classifier) (state : State) (index : Option Lexical.Bm25Index)
    (reading : Distribution × Nat × Option ℚ) (policy : DecisionPolicy)
    (calibration : Calibration) (decidedBy : String) (kind : NodeKind),
    readClassifier classifier state d.question index = .ok reading ∧
    decideQuestion d.question reading.1 policy calibration decidedBy kind reading.2.2 = .ok d

/-- A decision as it is stored: made, and then perhaps patched by a gate. -/
def Stored (d : QuestionDecision) : Prop :=
  ∃ x, Made x ∧ (d = x ∨ ∃ outcome agreement, d = patch outcome agreement x)

theorem stored_patch {d : QuestionDecision} (h : Stored d) (outcome : DecisionOutcome)
    (agreement : Option Bool) : Stored (patch outcome agreement d) := by
  obtain ⟨x, hx, rfl | ⟨o, a, rfl⟩⟩ := h
  · exact ⟨d, hx, Or.inr ⟨outcome, agreement, rfl⟩⟩
  · exact ⟨x, hx, Or.inr ⟨outcome, agreement, rfl⟩⟩

theorem readQuestion_ok {s : RunState} {policy : DecisionPolicy} {narrowed : DecisionQuestion}
    {handoff : Option Lexical.Bm25Index} {reading : Reading}
    (h : ex.readQuestion s policy narrowed handoff = .ok reading) :
    ∃ state, readClassifier ex.classifier state narrowed handoff =
      .ok (reading.distribution, reading.clipped, reading.lexicalSupport) := by
  obtain ⟨first, hf, h⟩ := Result.bind_ok.mp h
  split at h
  · obtain ⟨full, hfull, h⟩ := Result.bind_ok.mp h
    cases h
    exact ⟨_, hfull⟩
  · cases h
    exact ⟨_, hf⟩

theorem made_of_decideOne {s : RunState} {id : NodeId} {kind : NodeKind}
    {question : DecisionQuestion} {d : QuestionDecision} {reading : Reading} {entry : TraceEntry}
    (h : ex.decideOne s id kind question = .ok (some (d, reading, entry))) : Made d := by
  obtain ⟨narrowed, -, hr, hd⟩ := decideOne_ok h
  obtain ⟨state, hr⟩ := readQuestion_ok hr
  have hq := (decideQuestion_ok hd).1
  subst hq
  exact ⟨_, _, _, _, _, _, _, _, hr, hd⟩

theorem made_of_fireRung {s : RunState} {policy : DecisionPolicy} {rung : Rung}
    {live d : QuestionDecision} {decidedBy : String × NodeKind}
    (h : ex.fireRung s policy rung live decidedBy = .ok d) : Made d := by
  obtain ⟨reading, hr, hd⟩ := fireRung_ok h
  have hq := fireRung_question h
  rw [← hq] at hr hd
  exact ⟨_, _, _, _, _, _, _, _, hr, hd⟩

def AllStored (s : RunState) : Prop := ∀ q d, s.decisions.get? q = some d → Stored d

theorem allStored_after {st : MergeStep} (hk : Keyed st.snapshot)
    (hp : ex.machine.Produces st.snapshot st.node st.output) (hb : AllStored st.before) :
    AllStored (ex.machine.after st) := by
  intro q d hd
  cases decision_origin hk hp hd with
  | kept hold => exact hb q d hold
  | decided _ hone => exact ⟨d, made_of_decideOne hone, Or.inl rfl⟩
  | @gated d₀ x r ht hq hr hx hpatch =>
    subst hpatch
    obtain ⟨-, hw, -⟩ := resolveOne_ok hr
    obtain ⟨log, hlaw, hfired, -⟩ := walk_law hw
    rcases Option.or_eq_some_iff.mp hx with hl | ⟨-, hl⟩
    · rw [hfired] at hl
      obtain ⟨e, he, rfl⟩ := List.mem_map.mp (List.mem_of_getLast? hl)
      obtain ⟨rung, -, hfr⟩ := hlaw.fired e he
      exact ⟨e.2, made_of_fireRung hfr, Or.inr ⟨_, _, rfl⟩⟩
    · exact stored_patch (hb q x hl) _ _

/-- Every decision stored during a run was made from one clipped reading. -/
theorem allStored_trace {steps : List MergeStep} {snap cur : RunState}
    (h : Waves.Trace ex.machine steps snap cur) : AllStored snap ∧ AllStored cur :=
  h.invariant AllStored (fun _ _ hd => by cases hd) fun _ hst hp _ hb =>
    allStored_after (keyed_step h hst).1 hp hb

theorem readClassifier_keys {classifier : Classifier} {state : State}
    {question : DecisionQuestion} {index : Option Lexical.Bm25Index}
    {reading : Distribution × Nat × Option ℚ}
    (h : readClassifier classifier state question index = .ok reading) :
    ∀ e ∈ reading.1.entries, e.key ∈ allowedKeys question := by
  obtain ⟨raw, -, h⟩ := Result.bind_ok.mp h
  obtain ⟨⟨normalized, clipped⟩, hc, h⟩ := Result.bind_ok.mp h
  cases h
  intro e he
  rw [clip_ok hc] at he
  obtain ⟨p, hp, rfl⟩ := List.mem_map.mp he
  unfold clipPairs at hp
  dsimp only at hp
  split at hp
  all_goals
    obtain ⟨e', he', rfl⟩ := List.mem_map.mp hp
    exact of_decide_eq_true (List.mem_filter.mp he').2

end Made

section Verified

/-- The answer names the key: the candidate of a choice answer, the truth value of a
Boolean answer. -/
def AnswerIs (answer : DecisionAnswer) (key : String) : Prop :=
  match answer with
  | .choice _ choice _ _ => choice.text = key
  | .boolean _ value _ _ => value = decide (key = "true")
  | .score _ _ _ _ _ => True

instance (answer : DecisionAnswer) (key : String) : Decidable (AnswerIs answer key) :=
  match answer with
  | .choice _ choice _ _ => inferInstanceAs (Decidable (choice.text = key))
  | .boolean _ value _ _ => inferInstanceAs (Decidable (value = decide (key = "true")))
  | .score _ _ _ _ _ => inferInstanceAs (Decidable True)

omit [RustStd] in
theorem answerIs_boolean_iff {q : BooleanQuestion} {d : Distribution} {policy : DecisionPolicy}
    {confidence : ℚ} {answer : DecisionAnswer} (hkey : d.top.key ∈ allowedKeys (.boolean q))
    (h : answerOf (.boolean q) d (booleanVerdict (.boolean q) d policy) confidence = .ok answer) :
    AnswerIs answer d.top.key ↔ (booleanVerdict (.boolean q) d policy).isSome = false := by
  cases hv : booleanVerdict (.boolean q) d policy with
  | none =>
    rw [hv] at h
    cases h
    simp [AnswerIs]
  | some verdict =>
    obtain ⟨value, mass⟩ := verdict
    rw [hv] at h
    cases h
    have hne : d.top.key ≠ booleanKey value := by
      unfold booleanVerdict at hv
      split at hv
      · simp only [flippedBooleanVerdict] at hv
        split at hv
        · cases hv
        · rename_i hne
          cases hv
          exact hne
      · cases hv
    simp only [allowedKeys, answerKeys, List.mem_cons, List.not_mem_nil, or_false] at hkey
    cases value with
    | true =>
      have hfalse : d.top.key = "false" := hkey.resolve_left hne
      simp [AnswerIs, hfalse]
    | false =>
      have htrue : d.top.key = "true" := hkey.resolve_right hne
      simp [AnswerIs, htrue]

theorem answerIs_top_iff {d : QuestionDecision} (h : Made d) :
    AnswerIs d.answer d.distribution.top.key ↔ d.booleanFlipped = false := by
  obtain ⟨classifier, state, index, reading, policy, calibration, decidedBy, kind, hr, hd⟩ := h
  obtain ⟨-, hdist, -, -, -, -, hflip, hans, -⟩ := decideQuestion_ok hd
  have hkey := readClassifier_keys hr _ reading.1.top_mem
  rw [hdist, hflip]
  cases hq : d.question with
  | choice q =>
    rw [hq] at hans
    obtain ⟨choice, hc, ha⟩ := Result.bind_ok.mp hans
    rw [← Except.ok.inj ha]
    simp [AnswerIs, booleanVerdict, Ident.new_ok (ofCore_ok hc)]
  | boolean q =>
    rw [hq] at hans hkey
    exact answerIs_boolean_iff hkey hans
  | score q =>
    rw [hq] at hans
    rw [← Except.ok.inj hans]
    simp [AnswerIs, booleanVerdict]

/-- A stored verified decision was compared by a threshold step whose verifier gave
its top key. -/
def VerifiedBy (ex : Executor) (steps : List MergeStep) (s : RunState) : Prop :=
  ∀ q d, s.decisions.get? q = some d → d.outcome = .verified →
    d.abstained = none ∧ ∃ st ∈ steps, st.node.kind = .threshold ∧
      (ex.machine.after st).decisions.get? q = some d ∧
      ∃ verifier alternative, ex.verifier = some verifier ∧
        verifier.decide st.snapshot.state d.question = .ok alternative ∧
        alternative.top.key = d.distribution.top.key

theorem verifiedBy_after {steps : List MergeStep} {st : MergeStep} (hst : st ∈ steps)
    (hk : Keyed st.snapshot) (hp : ex.machine.Produces st.snapshot st.node st.output)
    (hf : st.node.kind = .threshold → Fresh st) (hb : VerifiedBy ex steps st.before) :
    VerifiedBy ex steps (ex.machine.after st) := by
  intro q d hd hv
  cases decision_origin hk hp hd with
  | kept hold => exact hb q d hold hv
  | decided _ hone =>
    obtain ⟨narrowed, -, -, hdec⟩ := decideOne_ok hone
    obtain ⟨-, -, -, -, hout, -⟩ := decideQuestion_ok hdec
    exact absurd (hout.symm.trans hv) (gate_ne_verified _ d)
  | @gated d₀ x r ht hq hr hx hpatch =>
    obtain ⟨log, text, -, -, hver⟩ := gated_eq_finalLive (hf ht) hq hr hx
    have hro : r.outcome = .verified := by
      rw [hpatch] at hv
      exact hv
    rw [hro] at hver
    obtain ⟨hab, hcmp⟩ := verify_verified hver
    subst hpatch
    exact ⟨hab, st, hst, ht, hd, hcmp⟩

/-- In a run whose threshold steps are fresh, the verifier's top answer for a
verified question is the shipped answer, exactly when no Boolean threshold
overruled the top key of the verified decision. -/
theorem verified_answerIs_iff {final : RunState} {steps : List MergeStep}
    (hrun : ex.runState = .ok final) (hsteps : ex.steps = .ok steps)
    (hfresh : ∀ st ∈ steps, st.node.kind = .threshold → Fresh st) :
    ∀ question ∈ ex.request.questions, ∀ d, final.decisions.get? question.id = some d →
      d.outcome = .verified → shippedAnswer final question = some d.answer ∧
        ∃ st ∈ steps, st.node.kind = .threshold ∧
          (ex.machine.after st).decisions.get? question.id = some d ∧
          ∃ verifier alternative, ex.verifier = some verifier ∧
            verifier.decide st.snapshot.state d.question = .ok alternative ∧
            (AnswerIs d.answer alternative.top.key ↔ d.booleanFlipped = false) := by
  have ht := trace_of_steps hrun hsteps
  have hby : VerifiedBy ex steps final := by
    refine (ht.invariant (VerifiedBy ex steps) ?_ ?_).2
    · intro q d hd
      cases hd
    · intro st hst hp _ hb
      exact verifiedBy_after hst (keyed_step ht hst).1 hp (hfresh st hst) hb
  intro question _ d hd hv
  obtain ⟨hab, st, hst, hkind, hafter, verifier, alternative, hver, halt, hkey⟩ :=
    hby question.id d hd hv
  refine ⟨by simp [shippedAnswer, hd, hab], st, hst, hkind, hafter, verifier, alternative, hver,
    halt, ?_⟩
  rw [hkey]
  obtain ⟨x, hx, rfl | ⟨outcome, agreement, rfl⟩⟩ := (allStored_trace ht).2 question.id d hd
  · exact answerIs_top_iff hx
  · change AnswerIs x.answer x.distribution.top.key ↔ x.booleanFlipped = false
    exact answerIs_top_iff hx

end Verified

end Runs

section Sample

attribute [local instance] plainStd

theorem fresh_of_decisions_eq {ex : Executor} {steps : List MergeStep}
    (hsteps : ex.steps = .ok steps)
    (h : (ex.steps.toOption.getD []).all (fun st =>
      st.node.kind ≠ .threshold ∨ st.before.decisions = st.snapshot.decisions) = true) :
    ∀ st ∈ steps, st.node.kind = .threshold → Fresh st := by
  rw [hsteps] at h
  intro st hst hkind q d hd
  have := List.all_eq_true.mp h st hst
  simp only [hkind, ne_eq, not_true_eq_false, false_or, decide_eq_true_eq] at this
  rw [this]
  exact hd

/-- A primary that picks the abstain candidate with doubt, and one rung. -/
def abstainingExecutor (modality : RungModality) : Executor :=
  Sample.executor Sample.gateGraph (Sample.request [Sample.choice "q" ["a"]] abstainPolicy)
    (Sample.scripted "primary" "q" (Sample.distribution [("a", 1 / 2), ("other", 1 / 2)])) none
    [{ classifier :=
        Sample.scripted "fallback" "q" (Sample.distribution [("a", 1), ("other", 0)])
       modality }]

theorem abstention_terminal_imageRung :
    ∃ final steps, (abstainingExecutor .image).runState = .ok final ∧
      (abstainingExecutor .image).steps = .ok steps ∧
      ∀ question ∈ (abstainingExecutor .image).request.questions, ∀ d,
        final.decisions.get? question.id = some d → d.abstained.isSome = true →
          questionOutcome final question = (question.id, .abstain) ∧
            shippedAnswer final question = none := by
  obtain ⟨final, hrun⟩ := Result.ok_of_isSome
    (by decide +kernel : (abstainingExecutor .image).runState.toOption.isSome = true)
  obtain ⟨steps, hsteps, -⟩ := runState_trace hrun
  have hfits : ∀ st ∈ steps, ∀ rung ∈ (abstainingExecutor .image).fallbacks,
      fits st.snapshot rung = false := by
    intro st hst
    have h : ((abstainingExecutor .image).steps.toOption.getD []).all
        (fun st => (abstainingExecutor .image).fallbacks.all fun rung =>
          fits st.snapshot rung = false) = true := by decide +kernel
    rw [hsteps] at h
    simpa using List.all_eq_true.mp h st hst
  refine ⟨final, steps, hrun, hsteps, (abstention_terminal hrun hsteps ?_).2⟩
  intro st hst hkind
  refine ⟨fresh_of_decisions_eq hsteps (by decide +kernel) st hst hkind, ?_⟩
  intro q d _ log _
  refine ⟨fun _ => Or.inr ?_, fun e _ _ => Or.inr ?_⟩
  · rintro ⟨rung, hr, hfit⟩
    exact absurd (hfits st hst rung hr) (by simp [hfit])
  · rintro ⟨j, rung, -, hr, hfit⟩
    exact absurd (hfits st hst rung (List.mem_of_getElem? hr)) (by simp [hfit])

/-- The primary decision abstained, the rung fired, and its answer was accepted and
shipped. -/
theorem abstention_displaced :
    ((abstainingExecutor .text).steps.toOption.getD []).any (fun st =>
      st.node.kind = .threshold ∧ st.snapshot.decisions.size = 1 ∧
        st.snapshot.decisions.values.all fun d => d.abstained = some .elicited) = true ∧
    ((abstainingExecutor .text).run.toOption.map fun o =>
      (o.outcome, o.outcomes.map Prod.snd, o.answers.length)) =
        some (.accept, [.accept], 1) := by
  decide +kernel

def thresholdPolicy : DecisionPolicy :=
  { DecisionPolicy.defaults with
    abstainBelow := 1 / 4
    booleanThreshold := some (3 / 4)
    abstainBelow_nonneg := by decide +kernel
    abstainBelow_le := by decide +kernel
    booleanThreshold_range := by decide +kernel
    escalateBelow_range := by simp [DecisionPolicy.defaults] }

def booleanGraph : DecisionGraph :=
  Sample.graph [Sample.node "in" .normalize [], Sample.node "judge" .boolean ["in"],
    Sample.node "gate" .threshold ["judge"], Sample.node "out" .output ["gate"]]

def verifiedExecutor (policy : DecisionPolicy) : Executor :=
  Sample.executor booleanGraph (Sample.request [Sample.boolean "q"] policy)
    (Sample.scripted "primary" "q" (Sample.distribution [("true", 5 / 8), ("false", 3 / 8)]))
    (some (Sample.scripted "verifier" "q"
      Sample.yes)) []

/-- The verifier agrees on `true`, no threshold overrules it, and `true` is shipped. -/
theorem verified_answerIs_iff_sample :
    ∃ final steps d, (verifiedExecutor .defaults).runState = .ok final ∧
      (verifiedExecutor .defaults).steps = .ok steps ∧
      final.decisions.get? (Sample.boolean "q").id = some d ∧ d.outcome = .verified ∧
      shippedAnswer final (Sample.boolean "q") = some d.answer ∧
      ∃ st ∈ steps, ∃ verifier alternative, (verifiedExecutor .defaults).verifier = some verifier ∧
        verifier.decide st.snapshot.state d.question = .ok alternative ∧
        AnswerIs d.answer alternative.top.key ∧ d.booleanFlipped = false := by
  obtain ⟨final, hrun⟩ := Result.ok_of_isSome
    (by decide +kernel : (verifiedExecutor .defaults).runState.toOption.isSome = true)
  obtain ⟨steps, hsteps, -⟩ := runState_trace hrun
  have hstored : ((verifiedExecutor .defaults).runState.toOption.bind fun s =>
      s.decisions.get? (Sample.boolean "q").id).map (fun d => (d.outcome, d.booleanFlipped)) =
        some (.verified, false) := by decide +kernel
  rw [hrun] at hstored
  obtain ⟨d, hd, hpair⟩ := Option.map_eq_some_iff.mp hstored
  obtain ⟨hverified, hflipped⟩ := Prod.mk.inj hpair
  obtain ⟨hshipped, st, hst, -, -, verifier, alternative, hverifier, halternative, hiff⟩ :=
    verified_answerIs_iff hrun hsteps (fresh_of_decisions_eq hsteps (by decide +kernel))
      (Sample.boolean "q") List.mem_cons_self d hd hverified
  exact ⟨final, steps, d, hrun, hsteps, hd, hverified, hshipped, st, hst, verifier, alternative,
    hverifier, halternative, hiff.mpr hflipped, hflipped⟩

/-- The verifier agrees on `true`, the outcome is verified, and `false` is shipped. -/
theorem verified_ships_other :
    ((verifiedExecutor thresholdPolicy).run.toOption.map fun o =>
      (o.outcomes.map Prod.snd, o.answers.map fun a => decide (AnswerIs a "true"))) =
        some ([.verified], [false]) ∧
    (((verifiedExecutor thresholdPolicy).verifier.bind fun v =>
      (v.decide (verifiedExecutor thresholdPolicy).request.state
        (Sample.boolean "q")).toOption).map fun d => d.top.key) = some "true" := by
  decide +kernel

end Sample

end OpenCodifier.Executor
