import OpenCodifier.Engine.Answered
import OpenCodifier.Engine.Pruning
import OpenCodifier.Engine.RuleLaw
import OpenCodifier.Engine.Sessions
set_option autoImplicit false

namespace OpenCodifier

section Rules

variable [RustStd]

/-- The states that rule nodes make of one: each writes what the rules say of a state it reads into
another one. -/
inductive RuledFrom (rules : RuleEngine) (questions : List DecisionQuestion) (first : State) :
    State → Prop
  | start : RuledFrom rules questions first first
  | fire {read written : State} : RuledFrom rules questions first read →
      RuledFrom rules questions first written →
      RuledFrom rules questions first ((rules.evaluate read questions).applyTo written)

/-- The candidates the rules leave when they are run on a state: those that no rule which fires
excludes, or that one pins. -/
def ruledIn (rules : RuleEngine) (choice : ChoiceQuestion) (s : State) : List Candidate :=
  let fired := (sequential rules.rules s).1
  choice.candidates.filter fun c => !(fired.any fun entry => entry.1.matches' Action.exclusion c) ||
    fired.any fun entry => entry.1.matches' Action.pin c

theorem surviving_ruledIn {rules : RuleEngine} {s : State} {questions : List DecisionQuestion}
    (hids : (questions.map DecisionQuestion.id).Nodup) {choice : ChoiceQuestion}
    (hchoice : .choice choice ∈ questions) :
    (NarrowingOutcome.apply choice ((rules.evaluate s questions).exclusionsFor choice.id)
      ((rules.evaluate s questions).pinsFor choice.id)).surviving = ruledIn rules choice s := by
  rw [surviving_eq (evaluate_accounts rules s questions), ruledIn]
  refine List.filter_congr fun c hc => ?_
  simp only [Rule.excludes, Rule.pins, selects_eq hids hchoice hc]

end Rules

namespace Executor

variable [RustStd] {ex : Executor}

/-- The candidates of a question that the rules leave: all declared ones, or those that are left
when the rules are run on a state of the run. -/
def RulesLeave (ex : Executor) (choice : ChoiceQuestion) (base : List Candidate) : Prop :=
  base = choice.candidates ∨ ∃ s, RuledFrom ex.config.rules ex.request.questions ex.request.state s ∧
    base = ruledIn ex.config.rules choice s

/-- Nothing is pruned, and what the rules say is all that narrows a question. -/
structure Spared (ex : Executor) (s : RunState) : Prop where
  unpruned : ∀ q, prunes s q = []
  state : RuledFrom ex.config.rules ex.request.questions ex.request.state s.state
  rules : ∀ report, s.rules = some report → ∃ read,
    RuledFrom ex.config.rules ex.request.questions ex.request.state read ∧
      report = ex.config.rules.evaluate read ex.request.questions
  left : ∀ choice, .choice choice ∈ ex.request.questions →
    RulesLeave ex choice (s.baseCandidates choice)

structure Sparing (config : EngineConfig) : Prop where
  safe : config.safeMode = true
  graph : ∀ n ∈ config.graph.nodes, n.kind ≠ .retrieve

theorem pruneScores_safe (h : ex.config.safeMode = true) (scored : LexicalScores) :
    ex.pruneScores scored = scored := by
  rw [pruneScores, h]

omit [RustStd] in
theorem mem_choiceQuestions {request : DecisionRequest} {choice : ChoiceQuestion} :
    choice ∈ choiceQuestions request ↔ .choice choice ∈ request.questions := by
  constructor
  · intro h
    obtain ⟨q, hq, hchoice⟩ := List.mem_filterMap.mp h
    cases q with
    | choice other =>
      cases hchoice
      exact hq
    | boolean _ => cases hchoice
    | score _ => cases hchoice
  · exact fun h => List.mem_filterMap.mpr ⟨_, h, rfl⟩

theorem prunes_after (hs : Sparing ex.config) {st : MergeStep}
    (hp : ex.machine.Produces st.snapshot st.node st.output)
    (h : ∀ q, prunes st.before q = []) (q : QuestionId) : prunes (ex.machine.after st) q = [] := by
  have he := executed_of_produces hp
  have hnone : prunedBy q st.output.output = [] := by
    by_cases hl : st.node.kind = .lexical
    · rw [lexical_of_executed he hl]
      refine List.eq_nil_iff_forall_not_mem.mpr fun c hc => ?_
      obtain ⟨other, -, -, scored, hscored, hpruned⟩ := mem_prunedBy_lexical hc
      unfold scoreQuestion at hscored
      obtain ⟨outcome, -, hscored⟩ := Option.bind_eq_some_iff.mp hscored
      obtain ⟨narrowed, -, hscored⟩ := Option.bind_eq_some_iff.mp hscored
      cases hscored
      rw [pruneScores_safe hs.safe] at hpruned
      cases hpruned
    · exact prunedBy_other he hl (hs.graph st.node hp.1) q
  refine List.eq_nil_iff_forall_not_mem.mpr fun c hc => ?_
  rcases mem_prunes_merge.mp hc with hold | hnew
  · rw [h q] at hold
    cases hold
  · rw [hnone] at hnew
    cases hnew

omit [RustStd] in
theorem foldl_mergeScored_state (scores : List LexicalScores) (s : RunState) :
    (scores.foldl mergeScored s).rules = s.rules ∧ (scores.foldl mergeScored s).state = s.state := by
  induction scores generalizing s with
  | nil => exact ⟨rfl, rfl⟩
  | cons scored scores ih => exact ih _

omit [RustStd] in
theorem foldl_mergeRetrieved_state
    (dropped : List (QuestionId × List CandidateId × List CandidateId)) (s : RunState) :
    (dropped.foldl mergeRetrieved s).rules = s.rules ∧
      (dropped.foldl mergeRetrieved s).state = s.state := by
  induction dropped generalizing s with
  | nil => exact ⟨rfl, rfl⟩
  | cons prune dropped ih => exact ih _

/-- Only rule nodes write the report and the state. -/
theorem rules_after {st : MergeStep} (hp : ex.machine.Produces st.snapshot st.node st.output) :
    ((ex.machine.after st).rules = st.before.rules ∧ (ex.machine.after st).state = st.before.state) ∨
      let report := ex.config.rules.evaluate st.snapshot.state ex.request.questions
      (ex.machine.after st).rules = some report ∧
        (ex.machine.after st).state = report.applyTo st.before.state := by
  obtain ⟨snapshot, before, node, output, entries⟩ := st
  have he : Executed ex snapshot node ⟨output, entries⟩ := executed_of_produces hp
  change ((ex.mergeExecution before node ⟨output, entries⟩).rules = before.rules ∧
    (ex.mergeExecution before node ⟨output, entries⟩).state = before.state) ∨ _
  cases output with
  | rules report =>
    cases he with
    | rule _ => exact .inr ⟨rfl, rfl⟩
    | decide _ h =>
      obtain ⟨ds, focus, ho, -⟩ := mem_decided h
      cases ho
    | embedding _ h =>
      obtain ⟨scores, ho⟩ := scoreSemantic_output h
      cases ho
    | retrieve _ h =>
      obtain ⟨prunes, ho⟩ := retrieve_output h
      cases ho
    | rerank _ h =>
      obtain ⟨orders, ho⟩ := rerank_output h
      cases ho
    | threshold _ h =>
      obtain ⟨resolutions, -, h⟩ := Result.bind_ok.mp h
      cases h
  | scored scores => exact .inl (foldl_mergeScored_state _ _)
  | retrieved dropped => exact .inl (foldl_mergeRetrieved_state _ _)
  | branched fired =>
    exact .inl ⟨merge_branched RunState.rules (fun _ _ => rfl) fired,
      merge_branched RunState.state (fun _ _ => rfl) fired⟩
  | _ => exact .inl ⟨rfl, rfl⟩

theorem spared_after (hs : Sparing ex.config) (hids : ex.request.questionIds.Nodup)
    {st : MergeStep} (hp : ex.machine.Produces st.snapshot st.node st.output)
    (hsnap : Spared ex st.snapshot) (hb : Spared ex st.before) :
    Spared ex (ex.machine.after st) where
  unpruned := prunes_after hs hp hb.unpruned
  state := by
    rcases rules_after hp with ⟨-, hstate⟩ | ⟨-, hstate⟩
    · rw [hstate]
      exact hb.state
    · rw [hstate]
      exact .fire hsnap.state hb.state
  rules := by
    intro report hreport
    rcases rules_after hp with ⟨hrules, -⟩ | ⟨hrules, -⟩
    · exact hb.rules report (hrules ▸ hreport)
    · exact ⟨_, hsnap.state, Option.some.inj (hreport.symm.trans hrules)⟩
  left := by
    intro choice hchoice
    rw [RunState.baseCandidates]
    cases ho : (ex.machine.after st).narrowing.get? choice.id with
    | none => exact .inl rfl
    | some outcome =>
      rcases narrowing_after hp ho with ⟨other, hother, hid, rfl⟩ | hold
      · have hsame := List.inj_on_of_nodup_map hids (mem_choiceQuestions.mp hother) hchoice hid
        cases hsame
        rw [filterQuestion, RunState.selectorsFor]
        cases hrules : st.snapshot.rules with
        | none =>
          left
          change (NarrowingOutcome.apply choice [] []).surviving = choice.candidates
          rw [NarrowingOutcome.apply_surviving]
          simp
        | some report =>
          obtain ⟨read, hread, rfl⟩ := hsnap.rules report hrules
          exact .inr ⟨read, hread, surviving_ruledIn hids hchoice⟩
      · have hleft := hb.left choice hchoice
        rwa [RunState.baseCandidates, hold] at hleft

theorem spared_start : Spared ex ex.machine.start where
  unpruned _ := rfl
  state := .start
  rules _ h := by cases h
  left _ _ := .inl rfl

/-- The candidates that ride along: none, or the abstain candidate of the policy that decides. -/
def RidesAlong (ex : Executor) (extra : List Candidate) : Prop :=
  extra = [] ∨ ∃ node kind abstain c, (ex.policyFor node kind).1.abstainCandidate = some abstain ∧
    Candidate.new abstain.id abstain.description = .ok c ∧ extra = [c]

/-- A choice that was decided was decided over all that the rules leave of its question, in some
order, and the abstain candidate. -/
def DecidesSpared (ex : Executor) (d : QuestionDecision) : Prop :=
  ∀ narrowed, d.question = .choice narrowed → ∃ choice, .choice choice ∈ ex.request.questions ∧
    narrowed.id = choice.id ∧ ∃ base extra, RulesLeave ex choice base ∧ RidesAlong ex extra ∧
      narrowed.candidates.Perm (base ++ extra)

omit [RustStd] in
theorem withAbstain_rides {abstain : Option AbstainCandidate} {candidates all : List Candidate}
    (h : RunState.withAbstain abstain candidates = some all) :
    all = candidates ∨ ∃ a c, abstain = some a ∧ Candidate.new a.id a.description = .ok c ∧
      all = candidates ++ [c] := by
  cases abstain with
  | none =>
    cases h
    exact .inl rfl
  | some a =>
    rw [RunState.withAbstain] at h
    split at h
    · cases h
      exact .inl rfl
    · obtain ⟨c, hc, rfl⟩ := Option.map_eq_some_iff.mp h
      exact .inr ⟨a, c, rfl, Result.toOption_eq_some.mp hc, rfl⟩

omit [RustStd] in
theorem narrowedChoice_candidates {s : RunState} {choice narrowed : ChoiceQuestion}
    (h : s.narrowedChoice choice = some narrowed) :
    narrowed.candidates = s.baseCandidates choice := by
  rw [RunState.narrowedChoice] at h
  rw [RunState.baseCandidates]
  cases ho : s.narrowing.get? choice.id with
  | none =>
    rw [ho] at h
    cases h
    rfl
  | some outcome =>
    rw [ho] at h
    dsimp only at h
    split at h
    · cases h
    · exact (outcome.narrowedQuestion_some h).2.2

theorem decideOne_spared {s : RunState} {id : NodeId} {kind : NodeKind}
    {question : DecisionQuestion} {d : QuestionDecision} {reading : Reading} {entry : TraceEntry}
    (hs : Spared ex s) (hq : question ∈ ex.request.questions)
    (h : ex.decideOne s id kind question = .ok (some (d, reading, entry))) :
    DecidesSpared ex d := by
  obtain ⟨narrowed, hprepared, -, hd⟩ := decideOne_ok h
  intro asked hasked
  rw [(decideQuestion_ok hd).1] at hasked
  subst hasked
  cases question with
  | boolean _ => cases hprepared
  | score _ => cases hprepared
  | choice choice =>
    rw [RunState.prepareQuestion] at hprepared
    obtain ⟨before, hbefore, hprepared⟩ := Option.bind_eq_some_iff.mp hprepared
    dsimp only at hprepared
    split at hprepared
    · cases hprepared
    · obtain ⟨candidates, habstain, hprepared⟩ := Option.bind_eq_some_iff.mp hprepared
      obtain ⟨rebuilt, hnew, hprepared⟩ := Option.bind_eq_some_iff.mp hprepared
      cases hprepared
      obtain ⟨hid, -, hcandidates⟩ := ChoiceQuestion.new_ok (Result.toOption_eq_some.mp hnew)
      have hkept : before.candidates.filter (fun c => s.unpruned choice.id c.id) =
          s.baseCandidates choice := by
        rw [narrowedChoice_candidates hbefore]
        refine List.filter_eq_self.mpr fun c _ => ?_
        have hnone := hs.unpruned choice.id
        rw [prunes, List.append_eq_nil_iff] at hnone
        simp [RunState.unpruned, hnone.1, hnone.2]
      rw [hkept] at habstain
      have hperm := reorder_perm s choice.id (s.baseCandidates choice)
      refine ⟨choice, hq, Ident.ext_text hid, s.baseCandidates choice, ?_⟩
      rcases withAbstain_rides habstain with rfl | ⟨a, c, ha, hc, rfl⟩
      · refine ⟨[], hs.left choice hq, .inl rfl, ?_⟩
        rw [hcandidates, List.append_nil]
        exact hperm
      · refine ⟨[c], hs.left choice hq, .inr ⟨_, kind, a, c, ha, hc, rfl⟩, ?_⟩
        rw [hcandidates]
        exact hperm.append_right [c]

end Executor

namespace DecisionEngine

variable [RustStd] {engine : DecisionEngine}

open Executor (prunes DecidesSpared)

/-- In safe mode no run prunes a candidate: a choice is decided over all the candidates that the
rules leave of its question. -/
theorem safeMode_spares {setup : EngineSetup} {config : EngineConfig} {classifier : Classifier}
    {verifier : Option Classifier} {fallbacks : List Rung}
    (hnew : newWithRungs setup config classifier verifier fallbacks = .ok engine)
    (hsafe : config.safeMode = true) {request : DecisionRequest}
    (hvalid : engine.validate request = .ok ()) {key : CacheKey}
    {guard : GuardPoint → EngineResult Unit} {final : RunState}
    (hrun : (engine.executor request key guard).runState = .ok final) :
    (∀ q, prunes final q = []) ∧ ∀ q d, final.decisions.get? q = some d →
      DecidesSpared (engine.executor request key guard) d := by
  obtain ⟨hconfig, hnodes, -⟩ := newWithRungs_ok hnew
  have hs : Executor.Sparing (engine.executor request key guard).config := by
    have hsame : (engine.executor request key guard).config = config := hconfig
    refine ⟨hsame ▸ hsafe, fun n hn hk => ?_⟩
    rw [hsame] at hn
    have hchecked := hnodes n hn
    unfold EngineConfig.checkNode at hchecked
    split at hchecked
    · cases hchecked
    · rw [hsafe, hk] at hchecked
      cases hchecked
  have hids := questionIds_nodup_of_validate hvalid
  obtain ⟨hspared, hdecided⟩ := Executor.decisions_invariant_of
    (S := Executor.Spared (engine.executor request key guard)) Executor.spared_start
    (fun st hp hsnap hb => Executor.spared_after hs hids hp hsnap hb)
    (DecidesSpared (engine.executor request key guard))
    (fun s id kind question d reading entry hstate hq hone =>
      Executor.decideOne_spared hstate hq hone)
    (fun s policy rung live d decidedBy _ hlive hfr => by
      unfold DecidesSpared
      rw [Executor.fireRung_question hfr]
      exact hlive)
    (fun d outcome agreement h => h) hrun
  exact ⟨hspared.unpruned, hdecided⟩

end DecisionEngine

section Sample

attribute [local instance] plainStd

open DecisionEngine

/-- Rules, a filter, and scores that would prune all but one candidate. -/
def sparingConfig : EngineConfig where
  graph := Sample.graph [Sample.node "in" .normalize [], Sample.node "rules" .rule ["in"],
    Sample.node "filter" .filter ["rules"], Sample.node "scores" .lexical ["filter"],
    Sample.node "pick" .choice ["scores"], Sample.node "out" .output ["pick"]]
  rules := vipRules
  lexicalPruneLimit := some 1

def sparingEngine : EngineResult DecisionEngine :=
  newWithRungs sessionSetup sparingConfig (MockClassifier.classifier "primary" OrdMap.empty) none []

def sparingRequest : DecisionRequest := Sample.request [.choice routingChoice] .defaults

def sparingRun (engine : DecisionEngine) : EngineResult RunState :=
  (engine.executor sparingRequest 0 fun _ => .ok ()).runState

/-- Three candidates, of which the rules take one away; the other two are decided over. -/
theorem safeMode_spares_vip : ∃ (engine : DecisionEngine) (final : RunState),
    sparingEngine = .ok engine ∧ sparingRun engine = .ok final ∧
      (∀ q, Executor.prunes final q = []) ∧ ∀ q d, final.decisions.get? q = some d →
        Executor.DecidesSpared (engine.executor sparingRequest 0 fun _ => .ok ()) d := by
  obtain ⟨engine, hnew⟩ := Result.ok_of_isSome
    (by decide +kernel : sparingEngine.toOption.isSome = true)
  have hrun : (sparingEngine.toOption.bind fun e => (sparingRun e).toOption).isSome = true := by
    decide +kernel
  have hvalid : (sparingEngine.toOption.bind fun e =>
      (e.validate sparingRequest).toOption).isSome = true := by decide +kernel
  rw [hnew] at hrun hvalid
  obtain ⟨final, hrun⟩ := Result.ok_of_isSome hrun
  obtain ⟨u, hvalid⟩ := Result.ok_of_isSome hvalid
  exact ⟨engine, final, hnew, hrun, safeMode_spares hnew rfl hvalid hrun⟩

end Sample

end OpenCodifier
