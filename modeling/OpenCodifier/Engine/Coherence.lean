import OpenCodifier.Engine.Engine
import OpenCodifier.Engine.Gated
set_option autoImplicit false

namespace OpenCodifier

section Runs

variable [RustStd]

namespace Executor

variable {ex : Executor}

/-- Every stored decision with outcome `Escalate` was gated to it by its policy. -/
def EscalationsGated (ex : Executor) (s : RunState) : Prop :=
  ∀ q d, s.decisions.get? q = some d → d.outcome = .escalate →
    d.abstained = none ∧ d.report.outcomeFor (ex.gatePolicy d) = .escalate

theorem escalationsGated_run {final : RunState} {steps : List MergeStep}
    (hrun : ex.runState = .ok final) (hsteps : ex.steps = .ok steps)
    (hfresh : ∀ st ∈ steps, st.node.kind = .threshold → Fresh st) :
    EscalationsGated ex final :=
  gatedTo_run (Or.inr rfl) hrun hsteps fun st hst ht => verdictsLand_of_fresh (hfresh st hst ht)

def EscalatedWith (s : RunState) (question : DecisionQuestion) (d : QuestionDecision) : Prop :=
  s.decisions.get? question.id = some d ∧ d.outcome = .escalate

omit [RustStd] in
theorem questionOutcome_escalate {s : RunState} {question : DecisionQuestion} :
    (questionOutcome s question).2 = .escalate ↔ ∃ d, EscalatedWith s question d := by
  unfold questionOutcome EscalatedWith
  cases s.decisions.get? question.id with
  | none => simp
  | some d => simp

/-- When a run escalates, its report is that of an escalated question with the
least confidence among the escalated ones. -/
theorem report_of_escalate {s : RunState} (h : ex.overallOutcome s = .escalate) :
    ∃ question ∈ ex.request.questions, ∃ d, EscalatedWith s question d ∧
      (ex.assemble s).report = d.report ∧
      ∀ question' ∈ ex.request.questions, ∀ d', EscalatedWith s question' d' →
        d.report.calibratedConfidence ≤ d'.report.calibratedConfidence := by
  have hne : (ex.request.questions.map (questionOutcome s)).filter (fun e => e.2 = .escalate) ≠
      [] := by
    unfold overallOutcome at h
    split at h
    · cases h
    · cases hl : Extremum.lastMax (conservativeKey s)
        (ex.request.questions.map (questionOutcome s)) with
      | none => simp [conservative, hl] at h
      | some e =>
        have he : e.2 = .escalate := by simpa [conservative, hl] using h
        exact List.ne_nil_of_mem
          (List.mem_filter.mpr ⟨Extremum.lastMax_mem hl, decide_eq_true he⟩)
  obtain ⟨e, he⟩ := Option.isSome_iff_exists.mp (Extremum.firstMin_isSome (f := driverKey s) hne)
  obtain ⟨hm, hesc⟩ := List.mem_filter.mp (Extremum.firstMin_mem he)
  obtain ⟨question, hq, rfl⟩ := List.mem_map.mp hm
  obtain ⟨d, hd, hout⟩ := questionOutcome_escalate.mp (of_decide_eq_true hesc)
  refine ⟨question, hq, d, ⟨hd, hout⟩, ?_, ?_⟩
  · have hreport : (ex.assemble s).report =
        confidenceFor s (ex.overallOutcome s) (ex.request.questions.map (questionOutcome s)) := rfl
    rw [hreport, h, confidenceFor, driver, he]
    simp [questionOutcome, hd]
  · intro question' hq' d' hd'
    have hmem : questionOutcome s question' ∈
        (ex.request.questions.map (questionOutcome s)).filter (fun e => e.2 = .escalate) :=
      List.mem_filter.mpr ⟨List.mem_map_of_mem hq',
        decide_eq_true (questionOutcome_escalate.mpr ⟨d', hd'⟩)⟩
    have hle := Extremum.firstMin_le he _ hmem
    have hconf := (Prod.Lex.toLex_le_toLex.mp hle)
    have hc : confidenceOf s question.id = d.report.calibratedConfidence := by
      simp [confidenceOf, hd]
    have hc' : confidenceOf s question'.id = d'.report.calibratedConfidence := by
      simp [confidenceOf, hd'.1]
    rw [← hc, ← hc']
    rcases hconf with hlt | ⟨heq, -⟩
    · exact le_of_lt hlt
    · exact le_of_eq heq

end Executor

namespace DecisionEngine

open Executor

variable {engine : DecisionEngine} {request : DecisionRequest}

/-- The report speaks of one escalated question only: its text, its confidence, its
answer, its narrowing, and the threshold of the policy that gated it. Fitting the
report to its budget may cut the tail of a candidate list. -/
structure CoherentFor (ex : Executor) (s : RunState) (doc : EscalationReport)
    (question : DecisionQuestion) (d : QuestionDecision) : Prop where
  quoted : doc.payload.question = ⟨questionKind question, question.text⟩
  escalated : EscalatedWith s question d
  observed : doc.gate.observed = d.report.calibratedConfidence
  answer : doc.payload.partialAnswer = (shippedAnswer s question).map partialAnswerOf
  ruledIn : doc.payload.candidatesRuledIn <+: (ruled s.narrowing.values question.id).1
  ruledOut : doc.payload.candidatesRuledOut <+: (ruled s.narrowing.values question.id).2
  threshold : (ex.gatePolicy d).escalateBelow = some doc.gate.threshold
  below : doc.gate.observed < doc.gate.threshold

/-- The first question escalated, no escalated question is less certain, and the
policy that gated it has the request policy's escalation threshold. -/
structure FirstQuestionDrives (ex : Executor) (s : RunState) (d : QuestionDecision) : Prop where
  escalated : EscalatedWith s (firstQuestion ex.request) d
  least : ∀ question ∈ ex.request.questions, ∀ d', EscalatedWith s question d' →
    d.report.calibratedConfidence ≤ d'.report.calibratedConfidence
  samePolicy : ex.request.policy.escalateBelow = (ex.gatePolicy d).escalateBelow

omit [RustStd] in
theorem head_filterMap_of_some {α β : Type} {f : α → Option β} {l : List α} (hl : l ≠ []) {b : β}
    (h : f (l.head hl) = some b) : (l.filterMap f).head? = some b := by
  cases l with
  | nil => exact absurd rfl hl
  | cons a l =>
    rw [List.head_cons] at h
    rw [List.filterMap_cons_some h, List.head?_cons]

/-- The report of an escalated run is coherent for the question it quotes exactly
when that question drives the outcome. -/
theorem coherentFor_iff {ex : Executor} {s : RunState} {identity : EngineIdentity}
    {serializedLen : EscalationReport → Nat} (hg : EscalationsGated ex s)
    (hesc : ex.overallOutcome s = .escalate) (d : QuestionDecision) :
    CoherentFor ex s (escalationReport serializedLen ex.request (ex.assemble s) identity)
        (firstQuestion ex.request) d ↔ FirstQuestionDrives ex s d := by
  obtain ⟨driving, hdm, dd, hdd, hrep, hleast⟩ := report_of_escalate hesc
  obtain ⟨hgate, -, -, hquestion, -, hpartial⟩ := EscalationReport.fitTo_frame serializedLen
    (escalationDraft ex.request (ex.assemble s) identity) defaultEscalationBudgetBytes
  obtain ⟨hin, hout⟩ := EscalationReport.fitTo_candidates serializedLen
    (escalationDraft ex.request (ex.assemble s) identity) defaultEscalationBudgetBytes
  have hobs : (escalationReport serializedLen ex.request (ex.assemble s) identity).gate.observed =
      dd.report.calibratedConfidence := by
    rw [escalationReport, hgate, ← hrep]
    rfl
  have hthr : (escalationReport serializedLen ex.request (ex.assemble s) identity).gate.threshold =
      ex.request.policy.escalateBelow.getD dd.report.calibratedConfidence := by
    rw [escalationReport, hgate, ← hrep]
    rfl
  have hfirst : firstQuestion ex.request ∈ ex.request.questions := List.head_mem _
  constructor
  · intro h
    have heq : d.report.calibratedConfidence = dd.report.calibratedConfidence :=
      h.observed.symm.trans hobs
    refine ⟨h.escalated, fun question hq d' hd' => heq ▸ hleast question hq d' hd', ?_⟩
    cases hp : ex.request.policy.escalateBelow with
    | none =>
      have hlt := h.below
      rw [hobs, hthr, hp] at hlt
      exact absurd hlt (lt_irrefl _)
    | some t =>
      have ht := h.threshold
      rw [hthr, hp] at ht
      exact ht.symm
  · intro h
    obtain ⟨hab, hout'⟩ := hg _ d h.escalated.1 h.escalated.2
    obtain ⟨-, t, ht, hlt⟩ := (ConfidenceReport.outcomeFor_escalate_iff _ _).mp hout'
    have heq : dd.report.calibratedConfidence = d.report.calibratedConfidence :=
      le_antisymm (hleast _ hfirst d h.escalated) (h.least driving hdm dd hdd)
    have hthr' : (escalationReport serializedLen ex.request (ex.assemble s)
        identity).gate.threshold = t := by
      rw [hthr, h.samePolicy, ht]
      rfl
    refine ⟨?_, h.escalated, hobs.trans heq, ?_, hin, hout, ?_, ?_⟩
    · rw [escalationReport, hquestion]
      rfl
    · have hship : shippedAnswer s (firstQuestion ex.request) = some d.answer := by
        simp [shippedAnswer, h.escalated.1, hab]
      have hhead : ((ex.assemble s).answers).head? = some d.answer :=
        head_filterMap_of_some ex.request.questions_ne hship
      rw [escalationReport, hpartial, hship]
      change (ex.assemble s).answers.head?.map partialAnswerOf = _
      rw [hhead]
    · rw [hthr', ht]
    · rw [hthr', hobs, heq]
      exact hlt

theorem respond_frame {outcome : GraphOutcome} {response : DecisionResponse}
    (h : engine.respond request outcome = .ok response) :
    response.answers = outcome.answers ∧ response.outcome = outcome.outcome := by
  obtain ⟨base, hb, h⟩ := Result.bind_ok.mp h
  obtain ⟨ha, ho, -⟩ := DecisionResponse.new_ok (ofCore_ok hb)
  split at h
  · obtain ⟨hwa, hwo, -⟩ := DecisionResponse.withEscalation_frame (ofCore_ok h)
    exact ⟨hwa.trans ha, hwo.trans ho⟩
  · cases h
    exact ⟨ha, ho⟩

theorem respond_escalate {outcome : GraphOutcome} {response : DecisionResponse}
    (h : engine.respond request outcome = .ok response) (hesc : response.outcome = .escalate) :
    outcome.outcome = .escalate ∧ response.escalation =
      some (escalationReport engine.serializedLen request outcome engine.liveIdentity) := by
  obtain ⟨base, hb, h⟩ := Result.bind_ok.mp h
  obtain ⟨-, hout, -⟩ := DecisionResponse.new_ok (ofCore_ok hb)
  split at h
  · rename_i he
    obtain ⟨-, -, -, hrep⟩ := DecisionResponse.withEscalation_frame (ofCore_ok h)
    exact ⟨he, hrep⟩
  · rename_i hne
    cases h
    exact absurd (hout ▸ hesc) hne

/-- In a run whose threshold steps are fresh, the report of an escalated response is
coherent for the question it quotes exactly when that question drives the outcome
and was gated with the request policy's threshold. -/
theorem escalation_coherent_iff {key : CacheKey} {guard : GuardPoint → EngineResult Unit}
    {final : RunState} {steps : List MergeStep} {response : DecisionResponse}
    (hrun : (engine.executor request key guard).runState = .ok final)
    (hsteps : (engine.executor request key guard).steps = .ok steps)
    (hfresh : ∀ st ∈ steps, st.node.kind = .threshold → Fresh st)
    (hresp : engine.respond request ((engine.executor request key guard).assemble final) =
      .ok response) (hesc : response.outcome = .escalate) :
    ∃ doc, response.escalation = some doc ∧
      ((∃ d, CoherentFor (engine.executor request key guard) final doc
          (firstQuestion request) d) ↔
        ∃ d, FirstQuestionDrives (engine.executor request key guard) final d) := by
  obtain ⟨hout, hdoc⟩ := respond_escalate hresp hesc
  refine ⟨_, hdoc, exists_congr fun d => ?_⟩
  exact coherentFor_iff (escalationsGated_run hrun hsteps hfresh) hout d

end DecisionEngine

end Runs

section Sample

attribute [local instance] plainStd

open Executor DecisionEngine

def escalatingPolicy : DecisionPolicy :=
  { DecisionPolicy.defaults with
    escalateBelow := some (7 / 10)
    escalateBelow_range := by decide +kernel }

def mixedGraph : DecisionGraph :=
  Sample.graph [Sample.node "in" .normalize [], Sample.node "pick" .choice ["in"],
    Sample.node "check" .boolean ["in"], Sample.node "gate" .threshold ["pick", "check"],
    Sample.node "out" .output ["gate"]]

def certainEngine : DecisionEngine where
  config := { graph := mixedGraph, rules := Sample.noRules }
  identity := ⟨1, "primary", 0, "0.1.0", "none"⟩
  cache := ⟨.empty, .default, CacheConfig.default_maxEntries_pos, CacheConfig.default_ttl_pos⟩
  classifier := Sample.scripted "primary" "q" Sample.certain
  verifier := none
  fallbacks := []
  keyOf := fun _ _ => .ok 0
  serializedLen := fun _ => 0

def certainRun (questions : List DecisionQuestion)
    (h : questions.isEmpty = false := by exact Eq.refl false) : Executor :=
  certainEngine.executor (Sample.request questions escalatingPolicy h) 0 fun _ => .ok ()

/-- The Boolean question first, which escalates, and the choice question, which is accepted. -/
def drivenRun : Executor := certainRun [Sample.boolean "r", Sample.choice "q" ["a", "b"]]

/-- The report of two questions that end differently, when the first one drives it. -/
theorem escalation_coherent_iff_pair :
    ∃ final response doc, drivenRun.runState = .ok final ∧
      (drivenRun.assemble final).outcomes.map Prod.snd = [.escalate, .accept] ∧
      certainEngine.respond drivenRun.request (drivenRun.assemble final) = .ok response ∧
      response.escalation = some doc ∧
      (∃ d, FirstQuestionDrives drivenRun final d) ∧
      ∃ d, CoherentFor drivenRun final doc (firstQuestion drivenRun.request) d := by
  obtain ⟨final, hrun⟩ := Result.ok_of_isSome
    (by decide +kernel : drivenRun.runState.toOption.isSome = true)
  obtain ⟨steps, hsteps, -⟩ := runState_trace hrun
  have hout : (drivenRun.runState.toOption.bind fun s =>
      (certainEngine.respond drivenRun.request (drivenRun.assemble s)).toOption).map
        DecisionResponse.outcome = some .escalate := by decide +kernel
  have hdecided : drivenRun.runState.toOption.map (fun s =>
      ((s.decisions.get? (Sample.boolean "r").id).map fun d =>
          (d.outcome, (drivenRun.gatePolicy d).escalateBelow),
        (s.decisions.get? (Sample.choice "q" ["a", "b"]).id).map QuestionDecision.outcome)) =
      some (some (.escalate, some (7 / 10)), some .accept) := by decide +kernel
  rw [hrun] at hout hdecided
  obtain ⟨hfirst, hsecond⟩ := Prod.mk.inj (Option.some.inj hdecided)
  obtain ⟨d, hd, hpair⟩ := Option.map_eq_some_iff.mp hfirst
  obtain ⟨e, he, haccept⟩ := Option.map_eq_some_iff.mp hsecond
  obtain ⟨hescalate, hthreshold⟩ := Prod.mk.inj hpair
  have hdrives : FirstQuestionDrives drivenRun final d := by
    refine ⟨⟨hd, hescalate⟩, fun question hq d' hd' => ?_, hthreshold.symm⟩
    rcases List.mem_pair.mp hq with rfl | rfl
    · rw [Option.some.inj (hd.symm.trans hd'.1)]
    · rw [Option.some.inj (he.symm.trans hd'.1)] at haccept
      cases haccept.symm.trans hd'.2
  have houtcomes : (drivenRun.assemble final).outcomes.map Prod.snd = [.escalate, .accept] := by
    change [(questionOutcome final (Sample.boolean "r")).2,
      (questionOutcome final (Sample.choice "q" ["a", "b"])).2] = _
    rw [questionOutcome, questionOutcome, hd, he]
    exact congrArg₂ (fun a b => [a, b]) hescalate haccept
  obtain ⟨response, hresp, hesc⟩ := Option.map_eq_some_iff.mp hout
  have hresp := Result.toOption_eq_some.mp hresp
  obtain ⟨doc, hdoc, hiff⟩ := escalation_coherent_iff hrun hsteps
    (fresh_of_decisions_eq hsteps (by decide +kernel)) hresp hesc
  exact ⟨final, response, doc, hrun, houtcomes, hresp, hdoc, ⟨d, hdrives⟩, hiff.mpr ⟨d, hdrives⟩⟩

/-- The first question is accepted and the second one escalates: the report quotes
the first question with the second one's confidence. -/
theorem escalation_incoherent :
    ∃ final response doc,
      (certainRun [Sample.choice "q" ["a", "b"], Sample.boolean "r"]).runState = .ok final ∧
      certainEngine.respond
        (certainRun [Sample.choice "q" ["a", "b"], Sample.boolean "r"]).request
        ((certainRun [Sample.choice "q" ["a", "b"], Sample.boolean "r"]).assemble final) =
          .ok response ∧
      response.escalation = some doc ∧
      ∀ question ∈ [Sample.choice "q" ["a", "b"], Sample.boolean "r"], ∀ d,
        ¬ CoherentFor (certainRun [Sample.choice "q" ["a", "b"], Sample.boolean "r"]) final doc
          question d := by
  obtain ⟨final, hrun⟩ := Result.ok_of_isSome (by decide +kernel :
    (certainRun [Sample.choice "q" ["a", "b"], Sample.boolean "r"]).runState.toOption.isSome =
      true)
  have hout : ((certainRun [Sample.choice "q" ["a", "b"], Sample.boolean "r"]).runState.toOption.map
      fun s => ((s.decisions.get? (Sample.choice "q" ["a", "b"]).id).map QuestionDecision.outcome,
        ((certainEngine.respond
          (certainRun [Sample.choice "q" ["a", "b"], Sample.boolean "r"]).request
          ((certainRun [Sample.choice "q" ["a", "b"], Sample.boolean "r"]).assemble
            s)).toOption.bind DecisionResponse.escalation).map fun doc =>
              doc.payload.question.kind)) =
      some (some .accept, some "choice") := by decide +kernel
  rw [hrun] at hout
  obtain ⟨hq, hresp⟩ := Prod.mk.inj (Option.some.inj hout)
  obtain ⟨doc, hdoc, hkind⟩ := Option.map_eq_some_iff.mp hresp
  obtain ⟨response, hresp, hesc⟩ := Option.bind_eq_some_iff.mp hdoc
  refine ⟨final, response, doc, hrun, Result.toOption_eq_some.mp hresp, hesc, ?_⟩
  intro question hmem d hcoh
  rcases List.mem_cons.mp hmem with rfl | hmem
  · rw [hcoh.escalated.1, Option.map_some, hcoh.escalated.2] at hq
    cases hq
  · rw [List.mem_singleton.mp hmem] at hcoh
    rw [hcoh.quoted] at hkind
    exact absurd hkind (by decide)

end Sample

end OpenCodifier
