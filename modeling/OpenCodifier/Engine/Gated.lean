import OpenCodifier.Engine.Handoff
import OpenCodifier.Engine.Verdict
set_option autoImplicit false

namespace OpenCodifier.Executor

section Outcomes

variable [RustStd] {ex : Executor} {s : RunState}

omit [RustStd] in
theorem gate_ne_noValid (policy : DecisionPolicy) (live : QuestionDecision) :
    gate policy live ≠ .noValidCandidate := by
  unfold gate
  split
  · simp
  · rcases live.report.outcomeFor_cases policy with h | h | h | h <;> simp [h]

/-- A gated `Verify` becomes `Verified`, `Abstain` or stays; the other verdicts stand. -/
theorem verify_cases {live : QuestionDecision} {outcome out : DecisionOutcome}
    {agreement : Option Bool} {text : String}
    (h : ex.verify s live outcome = .ok (out, agreement, text)) :
    out = outcome ∨ outcome = .verify ∧ (out = .verified ∨ out = .abstain) := by
  unfold verify at h
  split at h
  · rename_i hv
    split at h
    · obtain ⟨alternative, -, h⟩ := Result.bind_ok.mp h
      split at h <;> cases h <;> simp [hv]
    · cases h
      simp [hv]
  · cases h
    simp

/-- No stored decision says that its question has no valid candidate. -/
def Classified (s : RunState) : Prop :=
  ∀ q d, s.decisions.get? q = some d → d.outcome ≠ .noValidCandidate

theorem classified_after {st : MergeStep} (hk : Keyed st.snapshot)
    (hp : ex.machine.Produces st.snapshot st.node st.output) (hb : Classified st.before) :
    Classified (ex.machine.after st) := by
  intro q d hd
  cases decision_origin hk hp hd with
  | kept hold => exact hb q d hold
  | decided _ hone =>
    obtain ⟨narrowed, -, -, hdec⟩ := decideOne_ok hone
    obtain ⟨-, -, -, -, hout, -⟩ := decideQuestion_ok hdec
    rw [hout]
    exact gate_ne_noValid _ d
  | @gated d₀ x r ht hq hr hx hpatch =>
    obtain ⟨-, -, text, hv⟩ := resolveOne_ok hr
    subst hpatch
    change r.outcome ≠ .noValidCandidate
    rcases verify_cases hv with h | ⟨-, h | h⟩
    · rw [h]
      exact gate_ne_noValid _ _
    · simp [h]
    · simp [h]

theorem classified_run {final : RunState} (hrun : ex.runState = .ok final) : Classified final := by
  obtain ⟨steps, -, ht⟩ := runState_trace hrun
  refine (ht.invariant Classified (fun q d hd => by cases hd) ?_).2
  intro st hst hp _ hb
  exact classified_after (keyed_step ht hst).1 hp hb

end Outcomes

section Narrowing

variable [RustStd] {ex : Executor} {s : RunState}

def NarrowingOf (ex : Executor) (s : RunState) : Prop :=
  ∀ q o, s.narrowing.get? q = some o → ∃ choice ∈ choiceQuestions ex.request, choice.id = q

theorem narrowingOf_after {st : MergeStep} (hp : ex.machine.Produces st.snapshot st.node st.output)
    (hb : NarrowingOf ex st.before) : NarrowingOf ex (ex.machine.after st) := by
  intro q o ho
  rcases narrowing_after hp ho with ⟨choice, hc, hq, -⟩ | hold
  · exact ⟨choice, hc, hq⟩
  · exact hb q o hold

theorem narrowingOf_run {final : RunState} (hrun : ex.runState = .ok final) :
    NarrowingOf ex final := by
  obtain ⟨steps, -, ht⟩ := runState_trace hrun
  refine (ht.invariant (NarrowingOf ex) (fun q o ho => by cases ho) ?_).2
  intro st _ hp _ hb
  exact narrowingOf_after hp hb

/-- The filter left a choice question of the request without a candidate. -/
def Starved (ex : Executor) (s : RunState) : Prop :=
  ∃ choice ∈ choiceQuestions ex.request, ∃ o, s.narrowing.get? choice.id = some o ∧
    o.surviving = []

theorem starved_iff (h : NarrowingOf ex s) :
    s.narrowing.values.any NarrowingOutcome.isStarved = true ↔ Starved ex s := by
  have hempty : ∀ o : NarrowingOutcome, o.isStarved = true ↔ o.surviving = [] := by
    intro o
    rw [NarrowingOutcome.isStarved, o.after_eq, decide_eq_true_eq, List.length_eq_zero_iff]
  rw [List.any_eq_true]
  constructor
  · intro hany
    obtain ⟨o, ho, hs⟩ := hany
    obtain ⟨q, hq⟩ := (OrdMap.mem_values_iff _ _).mp ho
    obtain ⟨choice, hc, rfl⟩ := h q o hq
    exact ⟨choice, hc, o, hq, (hempty o).mp hs⟩
  · intro hst
    obtain ⟨choice, _, o, ho, hs⟩ := hst
    exact ⟨o, (OrdMap.mem_values_iff _ _).mpr ⟨_, ho⟩, (hempty o).mpr hs⟩

end Narrowing

section Combine

variable [RustStd] {ex : Executor} {s : RunState}

omit [RustStd] in
theorem conservative_spec {outcomes : List (QuestionId × DecisionOutcome)} (h : outcomes ≠ []) :
    conservative s outcomes ∈ outcomes.map Prod.snd ∧
      ∀ e ∈ outcomes, severity e.2 ≤ severity (conservative s outcomes) := by
  obtain ⟨e, he⟩ := Option.isSome_iff_exists.mp
    (Extremum.lastMax_isSome (f := conservativeKey s) h)
  have hc : conservative s outcomes = e.2 := by simp [conservative, he]
  rw [hc]
  refine ⟨List.mem_map_of_mem (Extremum.lastMax_mem he), fun e' he' => ?_⟩
  have hle := Prod.Lex.toLex_le_toLex.mp (Extremum.le_lastMax he e' he')
  rcases hle with hlt | ⟨heq, -⟩
  · exact hlt.le
  · exact heq.le

def perQuestion (ex : Executor) (s : RunState) : List (QuestionId × DecisionOutcome) :=
  ex.request.questions.map (questionOutcome s)

omit [RustStd] in
theorem questionOutcome_ne_noValid (h : Classified s) (question : DecisionQuestion) :
    (questionOutcome s question).2 ≠ .noValidCandidate := by
  unfold questionOutcome
  cases hd : s.decisions.get? question.id with
  | none => simp
  | some d => simpa using h _ d hd

/-- The overall outcome is the most severe of the questions', unless a choice question has
no surviving candidate; only then is it `NoValidCandidate`. -/
structure Combined (ex : Executor) (s : RunState) : Prop where
  noValid : ex.overallOutcome s = .noValidCandidate ↔ Starved ex s
  attained : ¬ Starved ex s → ex.overallOutcome s ∈ (ex.perQuestion s).map Prod.snd
  severest : ¬ Starved ex s → ∀ e ∈ ex.perQuestion s, severity e.2 ≤ severity (ex.overallOutcome s)

theorem combined_of (hn : NarrowingOf ex s) (hc : Classified s) : Combined ex s := by
  have hne : ex.perQuestion s ≠ [] := by
    unfold perQuestion
    simpa using ex.request.questions_ne
  obtain ⟨hmem, hle⟩ := conservative_spec (s := s) hne
  have heq : ¬ Starved ex s → ex.overallOutcome s = conservative s (ex.perQuestion s) := by
    intro hst
    rw [← starved_iff hn] at hst
    rw [overallOutcome, if_neg hst]
    rfl
  refine ⟨?_, fun hst => heq hst ▸ hmem, fun hst => heq hst ▸ hle⟩
  constructor
  · intro ho
    by_contra hst
    rw [heq hst] at ho
    rw [ho] at hmem
    obtain ⟨e, he, hout⟩ := List.mem_map.mp hmem
    obtain ⟨question, -, rfl⟩ := List.mem_map.mp he
    exact questionOutcome_ne_noValid hc question hout
  · intro hst
    rw [overallOutcome, if_pos ((starved_iff hn).mpr hst)]

theorem combined_run {final : RunState} (hrun : ex.runState = .ok final) : Combined ex final :=
  combined_of (narrowingOf_run hrun) (classified_run hrun)

end Combine

section Gate

variable [RustStd] {ex : Executor}

/-- The verdicts only the gate gives: no verifier turns another verdict into them. -/
def GateOnly (o : DecisionOutcome) : Prop := o = .accept ∨ o = .escalate

omit [RustStd] in
theorem gate_gateOnly {o : DecisionOutcome} (ho : GateOnly o) {policy : DecisionPolicy}
    {live : QuestionDecision} (h : gate policy live = o) :
    live.abstained = none ∧ live.report.outcomeFor policy = o := by
  unfold gate at h
  split at h
  · rcases ho with rfl | rfl <;> cases h
  · rename_i hab
    exact ⟨by simpa using hab, h⟩

theorem verify_gateOnly {s : RunState} {o outcome : DecisionOutcome} (ho : GateOnly o)
    {live : QuestionDecision} {agreement : Option Bool} {text : String}
    (h : ex.verify s live outcome = .ok (o, agreement, text)) : outcome = o := by
  rcases verify_cases h with h | ⟨-, h | h⟩
  · exact h.symm
  · rcases ho with rfl | rfl <;> cases h
  · rcases ho with rfl | rfl <;> cases h

theorem finalLive_decidedBy {s : RunState} {d : QuestionDecision} {log : WalkLog}
    (h : WalkLaw ex s d log) : (finalLive d log).decidedBy = d.decidedBy := by
  rw [finalLive]
  cases hl : (log.map Prod.snd).getLast? with
  | none => rfl
  | some r =>
    obtain ⟨e, he, rfl⟩ := List.mem_map.mp (List.mem_of_getLast? hl)
    obtain ⟨rung, -, hfr⟩ := h.fired e he
    obtain ⟨reading, -, hdec⟩ := fireRung_ok hfr
    obtain ⟨-, -, -, -, -, -, -, -, -, hby⟩ := decideQuestion_ok hdec
    exact hby

/-- A verdict whose walk replaced nothing lands on the decision it was reached on: what is
patched differs from what was read at most where the patch overwrites it. -/
def VerdictsLand (ex : Executor) (st : MergeStep) : Prop :=
  ∀ q d₀ r, st.snapshot.decisions.get? q = some d₀ →
    ex.resolveOne st.snapshot st.node.id (q, d₀) = .ok r → r.walk.fired = [] →
    ∀ d, st.before.decisions.get? q = some d →
      patch r.outcome r.agreement d = patch r.outcome r.agreement d₀

theorem verdictsLand_of_fresh {st : MergeStep} (h : Fresh st) : VerdictsLand ex st := by
  intro q d₀ r hd _ _ d hb
  rw [h q d₀ hd] at hb
  cases hb
  rfl

/-- A verdict that lands patches the final decision of its own walk. -/
theorem gated_eq_patch {st : MergeStep} (hl : VerdictsLand ex st) {q : QuestionId}
    {d₀ x : QuestionDecision} {r : Resolution} (hd : st.snapshot.decisions.get? q = some d₀)
    (hr : ex.resolveOne st.snapshot st.node.id (q, d₀) = .ok r)
    (hx : r.walk.fired.getLast?.or (st.before.decisions.get? q) = some x) :
    ∃ log text, WalkLaw ex st.snapshot d₀ log ∧
      patch r.outcome r.agreement x = patch r.outcome r.agreement (finalLive d₀ log) ∧
      ex.verify st.snapshot (finalLive d₀ log) (gate (ex.gatePolicy d₀) (finalLive d₀ log)) =
        .ok (r.outcome, r.agreement, text) := by
  obtain ⟨-, hw, text, hv⟩ := resolveOne_ok hr
  obtain ⟨log, hlaw, hfired, hlive⟩ := walk_law hw
  rw [hlive] at hv
  refine ⟨log, text, hlaw, ?_, hv⟩
  rw [finalLive]
  cases hg : (log.map Prod.snd).getLast? with
  | none =>
    have hnil : r.walk.fired = [] := by rw [hfired, List.getLast?_eq_none_iff.mp hg]
    rw [hnil] at hx
    exact hl q d₀ r hd hr hnil x hx
  | some y =>
    rw [hfired, hg, Option.some_or] at hx
    cases hx
    rfl

def GatedTo (ex : Executor) (o : DecisionOutcome) (s : RunState) : Prop :=
  ∀ q d, s.decisions.get? q = some d → d.outcome = o →
    d.abstained = none ∧ d.report.outcomeFor (ex.gatePolicy d) = o

theorem gatedTo_patch {o : DecisionOutcome} (ho : GateOnly o) {st : MergeStep}
    (hl : VerdictsLand ex st) {q : QuestionId} {d₀ x : QuestionDecision} {r : Resolution}
    (hd : st.snapshot.decisions.get? q = some d₀)
    (hr : ex.resolveOne st.snapshot st.node.id (q, d₀) = .ok r)
    (hx : r.walk.fired.getLast?.or (st.before.decisions.get? q) = some x)
    (hout : (patch r.outcome r.agreement x).outcome = o) :
    (patch r.outcome r.agreement x).abstained = none ∧
      (patch r.outcome r.agreement x).report.outcomeFor
        (ex.gatePolicy (patch r.outcome r.agreement x)) = o := by
  obtain ⟨log, text, hlaw, hpatch, hver⟩ := gated_eq_patch hl hd hr hx
  have hro : r.outcome = o := hout
  rw [hpatch]
  rw [hro] at hver
  obtain ⟨hab, hgate⟩ := gate_gateOnly ho (verify_gateOnly ho hver)
  have hpol : ex.gatePolicy (patch r.outcome r.agreement (finalLive d₀ log)) =
      ex.gatePolicy d₀ := by
    change (ex.policyFor (finalLive d₀ log).decidedBy.1 (finalLive d₀ log).decidedBy.2).1 = _
    rw [finalLive_decidedBy hlaw]
    rfl
  rw [hpol]
  refine ⟨hab, ?_⟩
  rw [← hgate]
  exact ConfidenceReport.outcomeFor_congr _ rfl rfl rfl rfl

theorem gatedTo_after {o : DecisionOutcome} (ho : GateOnly o) {st : MergeStep}
    (hk : Keyed st.snapshot) (hp : ex.machine.Produces st.snapshot st.node st.output)
    (hl : st.node.kind = .threshold → VerdictsLand ex st) (hb : GatedTo ex o st.before) :
    GatedTo ex o (ex.machine.after st) := by
  intro q d hd hout
  cases decision_origin hk hp hd with
  | kept hold => exact hb q d hold hout
  | decided _ hone =>
    obtain ⟨narrowed, -, -, hdec⟩ := decideOne_ok hone
    obtain ⟨-, -, -, -, hgate, -, -, -, -, hby⟩ := decideQuestion_ok hdec
    have hpol : ex.gatePolicy d = (ex.policyFor st.node.id.text st.node.kind).1 := by
      rw [gatePolicy, hby]
    rw [hpol]
    exact gate_gateOnly ho (hgate.symm.trans hout)
  | gated ht hq hr hx hpatch =>
    subst hpatch
    exact gatedTo_patch ho (hl ht) hq hr hx hout

theorem gatedTo_run {o : DecisionOutcome} (ho : GateOnly o) {final : RunState}
    {steps : List MergeStep} (hrun : ex.runState = .ok final) (hsteps : ex.steps = .ok steps)
    (hl : ∀ st ∈ steps, st.node.kind = .threshold → VerdictsLand ex st) :
    GatedTo ex o final := by
  have ht := trace_of_steps hrun hsteps
  refine (ht.invariant (GatedTo ex o) (fun q d hd => by cases hd) ?_).2
  intro st hst hp _ hb
  exact gatedTo_after ho (keyed_step ht hst).1 hp (hl st hst) hb

end Gate

end OpenCodifier.Executor
