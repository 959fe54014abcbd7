import OpenCodifier.Engine.Coherence
import OpenCodifier.Engine.Schedule
set_option autoImplicit false

namespace OpenCodifier.Executor

section Runs

variable [RustStd] {ex : Executor}

section SameWave

variable {s : RunState}

/-- A walk reads its node's id only where it checks the deadline. -/
theorem walkRungs_node_congr {id id' : NodeId} {q : QuestionId} {policy : DecisionPolicy}
    {decidedBy : String × NodeKind} {rungs : List (Rung × Nat)} {w w₁ w₂ : Walk}
    (h₁ : ex.walkRungs s id q policy decidedBy rungs w = .ok w₁)
    (h₂ : ex.walkRungs s id' q policy decidedBy rungs w = .ok w₂) : w₁ = w₂ := by
  induction rungs generalizing w with
  | nil =>
    cases h₁
    cases h₂
    rfl
  | cons e rungs ih =>
    obtain ⟨rung, index⟩ := e
    simp only [walkRungs] at h₁ h₂
    split at h₁
    · rename_i hacc
      rw [if_pos hacc] at h₂
      cases h₁
      cases h₂
      rfl
    · rename_i hacc
      rw [if_neg hacc] at h₂
      split at h₁
      · rename_i hfit
        rw [if_pos hfit] at h₂
        exact ih h₁ h₂
      · rename_i hfit
        rw [if_neg hfit] at h₂
        obtain ⟨_, -, h₁⟩ := Result.bind_ok.mp h₁
        obtain ⟨_, -, h₂⟩ := Result.bind_ok.mp h₂
        obtain ⟨escalated, he, h₁⟩ := Result.bind_ok.mp h₁
        obtain ⟨escalated', he', h₂⟩ := Result.bind_ok.mp h₂
        rw [he] at he'
        cases he'
        exact ih h₁ h₂

theorem resolveOne_node_congr {id id' : NodeId} {q : QuestionId} {d : QuestionDecision}
    {r r' : Resolution} (h : ex.resolveOne s id (q, d) = .ok r)
    (h' : ex.resolveOne s id' (q, d) = .ok r') :
    r.outcome = r'.outcome ∧ r.agreement = r'.agreement ∧ r.walk = r'.walk := by
  obtain ⟨-, hw, text, hv⟩ := resolveOne_ok h
  obtain ⟨-, hw', text', hv'⟩ := resolveOne_ok h'
  have hwalk : r.walk = r'.walk := walkRungs_node_congr hw hw'
  rw [hwalk, hv'] at hv
  obtain ⟨hout, hrest⟩ := Prod.mk.inj (Except.ok.inj hv)
  exact ⟨hout.symm, (Prod.mk.inj hrest).1.symm, hwalk⟩

theorem walk_live {id : NodeId} {q : QuestionId} {d : QuestionDecision} {w : Walk}
    (h : ex.walk s id q d = .ok w) : w.live = w.fired.getLast?.getD d := by
  obtain ⟨log, -, hf, hl⟩ := walk_law h
  rw [hl, hf]
  rfl

/-- What a wave that decides nothing leaves of its snapshot: each decision as it was read, or
with the verdict of some threshold node that read it. -/
def Landed (ex : Executor) (snap cur : RunState) : Prop :=
  ∀ q d, cur.decisions.get? q = some d → ∃ d₀, snap.decisions.get? q = some d₀ ∧
    (d = d₀ ∨ ∃ id r, ex.resolveOne snap id (q, d₀) = .ok r ∧
      d = patch r.outcome r.agreement r.walk.live)

theorem landed_self (s : RunState) : Landed ex s s := fun _ d hd => ⟨d, hd, Or.inl rfl⟩

def Deciding (kind : NodeKind) : Prop := kind = .choice ∨ kind = .boolean ∨ kind = .score

instance : DecidablePred Deciding := fun _ => inferInstanceAs (Decidable (_ ∨ _ ∨ _))

theorem patch_of_landed {snap cur : RunState} (h : Landed ex snap cur) {q : QuestionId}
    {d d₀ : QuestionDecision} (hd₀ : snap.decisions.get? q = some d₀)
    (hd : cur.decisions.get? q = some d) {id : NodeId} {r : Resolution}
    (hr : ex.resolveOne snap id (q, d₀) = .ok r) (hf : r.walk.fired = []) :
    patch r.outcome r.agreement d = patch r.outcome r.agreement d₀ := by
  obtain ⟨d₁, hd₁, hcase⟩ := h q d hd
  rw [hd₀] at hd₁
  cases hd₁
  rcases hcase with rfl | ⟨id', r', hr', rfl⟩
  · rfl
  · obtain ⟨-, -, hwalk⟩ := resolveOne_node_congr hr hr'
    have hlive : r'.walk.live = d₀ := by
      rw [← hwalk, walk_live (resolveOne_ok hr).2.1, hf]
      rfl
    rw [hlive]
    rfl

theorem verdictsLand_of_landed {st : MergeStep} (h : Landed ex st.snapshot st.before) :
    VerdictsLand ex st := fun _ _ _ hd₀ hr hf _ hd => patch_of_landed h hd₀ hd hr hf

theorem landed_after {snap m : RunState} {spec : NodeSpec} {e : NodeExecution}
    (hk : Keyed snap) (he : Executed ex snap spec e) (hnd : ¬ Deciding spec.kind)
    (hl : Landed ex snap m) : Landed ex snap (ex.mergeExecution m spec e) := by
  by_cases ht : spec.kind = .threshold
  · intro q d hd
    obtain ⟨hnone, hsome⟩ := merge_resolved hk (resolveThreshold_of_executed he ht) m spec q
    cases hq : snap.decisions.get? q with
    | none =>
      rw [hnone hq] at hd
      obtain ⟨d₀, hd₀, -⟩ := hl q d hd
      rw [hq] at hd₀
      cases hd₀
    | some d₀ =>
      obtain ⟨r, hr, hget⟩ := hsome d₀ hq
      obtain ⟨x, hx, hpatch⟩ := Option.map_eq_some_iff.mp (hget.symm.trans hd)
      refine ⟨d₀, rfl, Or.inr ⟨spec.id, r, hr, ?_⟩⟩
      rw [← hpatch, walk_live (resolveOne_ok hr).2.1]
      cases hf : r.walk.fired.getLast? with
      | none =>
        rw [hf, Option.none_or] at hx
        exact patch_of_landed hl hq hx hr (List.getLast?_eq_none_iff.mp hf)
      | some y =>
        rw [hf, Option.some_or] at hx
        cases hx
        rfl
  · have hother : spec.kind ≠ .choice ∧ spec.kind ≠ .boolean ∧ spec.kind ≠ .score := by
      unfold Deciding at hnd
      tauto
    intro q d hd
    rw [mergeExecution_decisions_of_other he hother ht] at hd
    exact hl q d hd

end SameWave

section Waves

/-- No node of wave `k` decides. -/
def QuietWave (ex : Executor) (k : Nat) : Prop :=
  ∀ n ∈ ex.config.graph.nodes, ex.waveOf n.id = k → ¬ Deciding n.kind

theorem mergeSteps_landed {snap m : RunState} (hk : Keyed snap)
    {results : List (NodeSpec × EngineResult NodeExecution)}
    (hres : ∀ r ∈ results, ¬ Deciding r.1.kind ∧
      ∀ e, r.2 = .ok e → ex.machine.Produces snap r.1 e)
    (hl : Landed ex snap m) {now : List MergeStep}
    (h : ex.mergeSteps snap m results = .ok now) :
    ∀ st ∈ now, Landed ex st.snapshot st.before := by
  induction results generalizing m now with
  | nil =>
    cases h
    simp
  | cons r results ih =>
    obtain ⟨spec, result⟩ := r
    obtain ⟨e, he, h⟩ := Result.bind_ok.mp h
    obtain ⟨later, hlater, h⟩ := Result.bind_ok.mp h
    cases h
    obtain ⟨hnd, hprod⟩ := hres _ List.mem_cons_self
    have hnext := landed_after hk (executed_of_produces (hprod e he)) hnd hl
    intro st hst
    rcases List.mem_cons.mp hst with rfl | hst
    · exact hl
    · exact ih (fun r hr => hres r (List.mem_cons_of_mem _ hr)) hnext hlater st hst

theorem waveSteps_landed {s : RunState} {k : Nat} (hq : QuietWave ex k) {now : List MergeStep}
    (hnow : ex.mergeSteps s s (ex.waveResults s (ex.levelOf k)) = .ok now)
    (hk : ∀ st ∈ now, Keyed st.snapshot) : ∀ st ∈ now, Landed ex st.snapshot st.before := by
  intro st hst
  obtain ⟨-, -, -, -, hsnap⟩ := mem_mergeSteps hnow hst
  refine mergeSteps_landed (hsnap ▸ hk st hst) (fun r hr => ⟨?_, waveResults_produces r hr⟩)
    (landed_self s) hnow st hst
  obtain ⟨n, hn, rfl⟩ := List.mem_map.mp ((List.mem_insertionSort _).mp hr)
  exact hq n (mem_runnable_iff.mp hn).1 (waveOf_of_runnable hn)

theorem steps_landed {s : RunState} {k m : Nat} {steps : List MergeStep}
    (h : ex.stepsFrom s ((List.range' k m).map ex.levelOf) = .ok steps)
    (hk : ∀ st ∈ steps, Keyed st.snapshot) :
    ∀ st ∈ steps, QuietWave ex (ex.waveOf st.node.id) → Landed ex st.snapshot st.before := by
  induction m generalizing k s steps with
  | zero =>
    cases h
    simp
  | succ m ih =>
    rw [List.range'_succ, List.map_cons] at h
    obtain ⟨u, -, h⟩ := Result.bind_ok.mp h
    by_cases hs : (ex.levelOf k).all (· ∈ s.skipped) = true
    · rw [if_pos hs] at h
      exact ih h hk
    · rw [if_neg hs] at h
      obtain ⟨r, -, h⟩ := Result.bind_ok.mp h
      obtain ⟨now, hnow, h⟩ := Result.bind_ok.mp h
      have hwave : (∀ st ∈ now, Keyed st.snapshot) → ∀ st ∈ now,
          QuietWave ex (ex.waveOf st.node.id) → Landed ex st.snapshot st.before := by
        intro hkn st hst hq
        obtain ⟨e, he, hnode, -⟩ := mem_mergeSteps hnow hst
        obtain ⟨n, hn, rfl⟩ := List.mem_map.mp ((List.mem_insertionSort _).mp he)
        rw [← hnode, waveOf_of_runnable hn] at hq
        exact waveSteps_landed hq hnow hkn st hst
      by_cases hstop : r.2 = true
      · rw [if_pos hstop] at h
        cases h
        exact hwave hk
      · rw [if_neg hstop] at h
        obtain ⟨later, hl, h⟩ := Result.bind_ok.mp h
        cases h
        intro st hst
        rcases List.mem_append.mp hst with hst | hst
        · exact hwave (fun st hst => hk st (List.mem_append_left _ hst)) st hst
        · exact ih hl (fun st hst => hk st (List.mem_append_right _ hst)) st hst

end Waves

section Covered

variable {final : RunState} {steps : List MergeStep}

theorem steps_ordered (hrun : ex.runState = .ok final) (hsteps : ex.steps = .ok steps) :
    steps.Pairwise fun st st' => ex.waveOf st.node.id ≤ ex.waveOf st'.node.id := by
  obtain ⟨events, hev, rfl⟩ := eventsFrom_of_steps hsteps
  obtain ⟨m, h, -⟩ := scheduled hrun hev
  rw [List.pairwise_filterMap]
  refine h.ordered.imp ?_
  intro e e' hle st hst st' hst'
  cases e with
  | ran => cases hst
  | merged a =>
    cases e' with
    | ran => cases hst'
    | merged b =>
      cases hst
      cases hst'
      simp only [Event.time] at hle
      omega

theorem run_landed (hrun : ex.runState = .ok final) (hsteps : ex.steps = .ok steps) :
    ∀ st ∈ steps, QuietWave ex (ex.waveOf st.node.id) → Landed ex st.snapshot st.before := by
  have ht := trace_of_steps hrun hsteps
  obtain ⟨m, hw, -⟩ := ex.config.graph.waves_eq
  unfold Executor.steps at hsteps
  rw [hw, List.range_eq_range'] at hsteps
  exact steps_landed hsteps fun st hst => (keyed_step ht hst).1

/-- The threshold node of a merge reads every decision of the run. -/
structure Covers (ex : Executor) (st : MergeStep) : Prop where
  threshold : st.node.kind = .threshold
  downstream : ∀ n ∈ ex.config.graph.nodes, Deciding n.kind →
    Downstream ex.config.graph.nodes n.id st.node.id

theorem quietWave_of_covers {st : MergeStep} (h : Covers ex st) {k : Nat}
    (hk : ex.waveOf st.node.id ≤ k) : QuietWave ex k := by
  intro n hn heq hd
  have hlt := waveOf_lt_of_downstream (h.downstream n hn hd)
  omega

/-- A covering threshold gates every stored decision again. -/
theorem gatedTo_of_covers {o : DecisionOutcome} (ho : GateOnly o) (hrun : ex.runState = .ok final)
    (hsteps : ex.steps = .ok steps) {st : MergeStep} (hst : st ∈ steps) (hc : Covers ex st) :
    GatedTo ex o final := by
  have ht := trace_of_steps hrun hsteps
  have hland := run_landed hrun hsteps
  have hord := steps_ordered hrun hsteps
  have hprod := (ht.of_mem hst).1
  have hk := (keyed_step ht hst).1
  have hst' := hland st hst (quietWave_of_covers hc le_rfl)
  obtain ⟨pre, post, rfl⟩ := List.append_of_mem hst
  refine ht.of_established (GatedTo ex o) ?_ ?_
  · intro q d hd hout
    obtain ⟨hnone, hsome⟩ := merge_resolved hk
      (resolveThreshold_of_executed (executed_of_produces hprod) hc.threshold) st.before st.node q
    cases hq : st.snapshot.decisions.get? q with
    | none =>
      obtain ⟨d₀, hd₀, -⟩ := hst' q d ((hnone hq).symm.trans hd)
      rw [hq] at hd₀
      cases hd₀
    | some d₀ =>
      obtain ⟨r, hr, hget⟩ := hsome d₀ hq
      obtain ⟨x, hx, hpatch⟩ := Option.map_eq_some_iff.mp (hget.symm.trans hd)
      subst hpatch
      exact gatedTo_patch ho (verdictsLand_of_landed hst') hq hr hx hout
  · intro later hlater hp hb
    have hmem : later ∈ pre ++ st :: post := by simp [hlater]
    have hle := (List.pairwise_cons.mp (List.pairwise_append.mp hord).2.1).1 later hlater
    exact gatedTo_after ho (keyed_step ht hmem).1 hp
      (fun _ => verdictsLand_of_landed (hland later hmem (quietWave_of_covers hc hle))) hb

end Covered

section Accept

variable {final : RunState} {steps : List MergeStep}

/-- No threshold node's verdict went to a decision it was not reached on, or a covering
threshold node gated everything afterwards. -/
def GatesHold (ex : Executor) (steps : List MergeStep) : Prop :=
  (∀ st ∈ steps, st.node.kind = .threshold → VerdictsLand ex st) ∨ ∃ st ∈ steps, Covers ex st

theorem gatedTo_of_gatesHold {o : DecisionOutcome} (ho : GateOnly o)
    (hrun : ex.runState = .ok final) (hsteps : ex.steps = .ok steps) (h : GatesHold ex steps) :
    GatedTo ex o final := by
  rcases h with hl | hc
  · exact gatedTo_run ho hrun hsteps hl
  · obtain ⟨st, hst, hc⟩ := hc
    exact gatedTo_of_covers ho hrun hsteps hst hc

/-- A question's one answer comes from a decision that satisfies the policy that gated it. -/
structure AnsweredOnce (ex : Executor) (s : RunState) (answers : List DecisionAnswer)
    (question : DecisionQuestion) : Prop where
  one : (answers.filter fun a => a.questionId = question.id).length = 1
  gated : ∃ d, s.decisions.get? question.id = some d ∧ d.answer ∈ answers ∧
    (ex.gatePolicy d).minConfidence ≤ d.report.calibratedConfidence ∧
    (ex.gatePolicy d).uncertaintyGateTrips d.report = false

omit [RustStd] in
theorem severity_le_accept {o : DecisionOutcome} (h : severity o ≤ severity .accept) :
    o = .accept := by
  cases o with
  | accept => rfl
  | _ => simp [severity] at h

omit [RustStd] in
theorem questionOutcome_accept {s : RunState} {question : DecisionQuestion}
    (h : (questionOutcome s question).2 = .accept) :
    ∃ d, s.decisions.get? question.id = some d ∧ d.outcome = .accept := by
  unfold questionOutcome at h
  cases hd : s.decisions.get? question.id with
  | none => simp [hd] at h
  | some d => exact ⟨d, rfl, by simpa [hd] using h⟩

omit [RustStd] in
theorem filter_questionId_length {f : DecisionQuestion → Option DecisionAnswer}
    {questions : List DecisionQuestion} (hn : (questions.map DecisionQuestion.id).Nodup)
    (hf : ∀ q ∈ questions, ∃ a, f q = some a ∧ a.questionId = q.id)
    {question : DecisionQuestion} (hq : question ∈ questions) :
    ((questions.filterMap f).filter fun a => a.questionId = question.id).length = 1 := by
  have hids : (questions.filterMap f).map DecisionAnswer.questionId =
      questions.map DecisionQuestion.id := by
    clear hn hq
    induction questions with
    | nil => rfl
    | cons q questions ih =>
      obtain ⟨a, ha, hid⟩ := hf q List.mem_cons_self
      rw [List.filterMap_cons_some ha, List.map_cons, List.map_cons, hid,
        ih fun q hq => hf q (List.mem_cons_of_mem _ hq)]
  have hcount : ((questions.filterMap f).map DecisionAnswer.questionId).count question.id = 1 := by
    rw [hids]
    exact List.count_eq_one_of_mem hn (List.mem_map_of_mem hq)
  rw [List.count, List.countP_map, List.countP_eq_length_filter] at hcount
  rw [← hcount]
  congr 1

theorem answeredOnce_of_accept (hrun : ex.runState = .ok final)
    (hn : ex.request.questionIds.Nodup) (hg : GatedTo ex .accept final)
    (hout : ex.overallOutcome final = .accept) :
    ∀ question ∈ ex.request.questions,
      AnsweredOnce ex final (ex.assemble final).answers question := by
  have hcomb := combined_run hrun
  have hst : ¬ Starved ex final := by
    intro hst
    rw [hcomb.noValid.mpr hst] at hout
    cases hout
  have hkeyed : Keyed final := by
    obtain ⟨steps, -, ht⟩ := runState_trace hrun
    exact (keyed_trace ht).2
  have hall : ∀ question ∈ ex.request.questions, ∃ d,
      final.decisions.get? question.id = some d ∧ d.abstained = none ∧
        d.report.outcomeFor (ex.gatePolicy d) = .accept := by
    intro question hq
    have hle := hcomb.severest hst _ (List.mem_map_of_mem hq)
    rw [hout] at hle
    obtain ⟨d, hd, hacc⟩ := questionOutcome_accept (severity_le_accept hle)
    exact ⟨d, hd, hg _ d hd hacc⟩
  have hship : ∀ question ∈ ex.request.questions, ∃ d,
      final.decisions.get? question.id = some d ∧ shippedAnswer final question = some d.answer ∧
        d.report.outcomeFor (ex.gatePolicy d) = .accept := by
    intro question hq
    obtain ⟨d, hd, hab, hacc⟩ := hall question hq
    exact ⟨d, hd, by simp [shippedAnswer, hd, hab], hacc⟩
  intro question hq
  obtain ⟨d, hd, hs, hacc⟩ := hship question hq
  obtain ⟨hmin, htrip⟩ := ConfidenceReport.outcomeFor_accept hacc
  refine ⟨?_, d, hd, List.mem_filterMap.mpr ⟨question, hq, hs⟩, hmin, htrip⟩
  refine filter_questionId_length hn (fun q hq => ?_) hq
  obtain ⟨d, hd, hs, -⟩ := hship q hq
  exact ⟨d.answer, hs, (hkeyed _ d hd).2⟩

end Accept

end Runs

end OpenCodifier.Executor

namespace OpenCodifier.DecisionEngine

open Executor

section Respond

variable [RustStd] {engine : DecisionEngine} {request : DecisionRequest}

theorem questionIds_nodup_of_validate (h : engine.validate request = .ok ()) :
    request.questionIds.Nodup := by
  unfold validate at h
  split at h
  · cases h
  · rename_i hu
    exact ((firstRepeat_none _ _).mp hu).1

/-- The response of a run carries the most severe of the per-question outcomes, or
`NoValidCandidate` exactly when a choice question is starved; where the gates hold, an
accepted response answers every question once, within the policy that gated it. -/
theorem respond_outcome_law {key : CacheKey} {guard : GuardPoint → EngineResult Unit}
    {final : RunState} {steps : List MergeStep} {response : DecisionResponse}
    (hvalid : engine.validate request = .ok ())
    (hrun : (engine.executor request key guard).runState = .ok final)
    (hsteps : (engine.executor request key guard).steps = .ok steps)
    (hresp : engine.respond request ((engine.executor request key guard).assemble final) =
      .ok response) :
    (response.outcome = .noValidCandidate ↔ Starved (engine.executor request key guard) final) ∧
    (¬ Starved (engine.executor request key guard) final →
      response.outcome ∈ (perQuestion (engine.executor request key guard) final).map Prod.snd ∧
      ∀ e ∈ perQuestion (engine.executor request key guard) final,
        severity e.2 ≤ severity response.outcome) ∧
    (GatesHold (engine.executor request key guard) steps → response.outcome = .accept →
      ∀ question ∈ request.questions,
        AnsweredOnce (engine.executor request key guard) final response.answers question) := by
  obtain ⟨hanswers, hout⟩ := respond_frame hresp
  have hcomb := combined_run hrun
  have hoverall : response.outcome = (engine.executor request key guard).overallOutcome final :=
    hout
  rw [hoverall, hanswers]
  refine ⟨hcomb.noValid, fun hst => ⟨hcomb.attained hst, hcomb.severest hst⟩, ?_⟩
  intro hgates hacc
  exact answeredOnce_of_accept hrun (questionIds_nodup_of_validate hvalid)
    (gatedTo_of_gatesHold (Or.inl rfl) hrun hsteps hgates) hacc

end Respond

section Samples

attribute [local instance] plainStd

open Sample hiding request executor

/-- One certain choice question, accepted. -/
theorem respond_outcome_law_single :
    ∃ final response, (certainRun [choice "q" ["a", "b"]]).runState = .ok final ∧
      certainEngine.respond (certainRun [choice "q" ["a", "b"]]).request
        ((certainRun [choice "q" ["a", "b"]]).assemble final) = .ok response ∧
      response.outcome = .accept ∧
      ∀ question ∈ (certainRun [choice "q" ["a", "b"]]).request.questions,
        AnsweredOnce (certainRun [choice "q" ["a", "b"]]) final response.answers question := by
  obtain ⟨final, hrun⟩ := Result.ok_of_isSome
    (by decide +kernel : (certainRun [choice "q" ["a", "b"]]).runState.toOption.isSome = true)
  obtain ⟨steps, hsteps, -⟩ := runState_trace hrun
  have hout : ((certainRun [choice "q" ["a", "b"]]).runState.toOption.bind fun s =>
      (certainEngine.respond (certainRun [choice "q" ["a", "b"]]).request
        ((certainRun [choice "q" ["a", "b"]]).assemble s)).toOption).map
          DecisionResponse.outcome = some .accept := by decide +kernel
  rw [hrun] at hout
  obtain ⟨response, hresp, hacc⟩ := Option.map_eq_some_iff.mp hout
  have hresp := Result.toOption_eq_some.mp hresp
  have hvalid : certainEngine.validate (certainRun [choice "q" ["a", "b"]]).request = .ok () := by
    decide +kernel
  have hland : ∀ st ∈ steps, st.node.kind = .threshold →
      VerdictsLand (certainRun [choice "q" ["a", "b"]]) st := fun st hst ht =>
    verdictsLand_of_fresh (fresh_of_decisions_eq hsteps (by decide +kernel) st hst ht)
  exact ⟨final, response, hrun, hresp, hacc,
    (respond_outcome_law hvalid hrun hsteps hresp).2.2 (Or.inl hland) hacc⟩

/-- The covering threshold `gate` is behind a branch whose condition fails, and `early` shares
its wave with the node that decides again. -/
def skippedGateGraph : DecisionGraph :=
  graph [node "in" .normalize [],
    { node "vip" .branch ["in"] with when' := some (.factExists "vip") },
    node "check" .boolean ["in"], node "judge" .choice ["in"], node "again" .choice ["judge"],
    node "early" .threshold ["judge"],
    node "gate" .threshold ["again", "check", "early", "vip"], node "out" .output ["gate"]]

/-- The node `again` decides under a policy with an abstain candidate, which it elects. -/
def staleEngine : DecisionEngine where
  config :=
    { graph := skippedGateGraph
      rules := Sample.noRules
      ladder := { id := "strict", perNode := OrdMap.empty.insert "again" abstainPolicy } }
  identity := ⟨1, "primary", 0, "0.1.0", "none"⟩
  cache := ⟨.empty, .default, CacheConfig.default_maxEntries_pos, CacheConfig.default_ttl_pos⟩
  classifier := MockClassifier.classifier "primary"
    ((OrdMap.empty.insert "q" (distribution [("a", 2 / 5), ("other", 3 / 5)])).insert "r"
      yes)
  verifier := none
  fallbacks := []
  keyOf := fun _ _ => .ok 0
  serializedLen := fun _ => 0

def staleRequest : DecisionRequest :=
  Sample.request [choice "q" ["a"], boolean "r"] DecisionPolicy.defaults

/-- The verdict on `judge` lands on the abstention of `again`: the response is accepted and
has no answer to the choice question. -/
theorem accept_missing_answer :
    (∃ t ∈ skippedGateGraph.nodes, t.kind = .threshold ∧ ∀ n ∈ skippedGateGraph.nodes,
      Deciding n.kind → Downstream skippedGateGraph.nodes n.id t.id) ∧
    ∃ engine' response report,
      staleEngine.decideWithReport staleRequest 0 0 (fun _ => .ok ()) =
        .ok (engine', response, report) ∧ response.outcome = .accept ∧
      ∃ question ∈ staleRequest.questions, ∀ a ∈ response.answers,
        a.questionId ≠ question.id := by
  constructor
  · have h : ∃ t ∈ skippedGateGraph.nodes, t.kind = .threshold ∧
        ∀ n ∈ skippedGateGraph.nodes, Deciding n.kind →
          ∃ c ∈ dependentsIn skippedGateGraph.nodes n.id,
            t.id ∈ reachableFrom skippedGateGraph.nodes c := by decide +kernel
    obtain ⟨t, ht, hkind, hreach⟩ := h
    refine ⟨t, ht, hkind, fun n hn hd => ?_⟩
    obtain ⟨c, hc, htc⟩ := hreach n hn hd
    exact Relation.TransGen.head' hc ((mem_reachableFrom_iff skippedGateGraph.ids_nodup
      (dependent_known skippedGateGraph hc) t.id).mp htc)
  · obtain ⟨⟨engine', response, report⟩, h⟩ := Result.ok_of_isSome (by decide +kernel :
      (staleEngine.decideWithReport staleRequest 0 0 (fun _ => .ok ())).toOption.isSome = true)
    have hresp : (staleEngine.decideWithReport staleRequest 0 0 (fun _ => .ok ())).toOption.map
        (fun r => (r.2.1.outcome, r.2.1.answers.map fun a => a.questionId.text)) =
          some (.accept, ["r"]) := by decide +kernel
    rw [h] at hresp
    obtain ⟨hout, hids⟩ := Prod.mk.inj (Option.some.inj hresp)
    refine ⟨engine', response, report, h, hout, choice "q" ["a"], by simp [staleRequest,
      Sample.request], fun a ha heq => ?_⟩
    have htext : a.questionId.text ∈ response.answers.map fun a => a.questionId.text :=
      List.mem_map_of_mem ha
    rw [hids, heq] at htext
    exact absurd htext (by decide)

end Samples

end OpenCodifier.DecisionEngine
