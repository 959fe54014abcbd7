import OpenCodifier.Engine.WalkLaw
set_option autoImplicit false

namespace OpenCodifier.Executor

section Runs

variable [RustStd] {ex : Executor} {s : RunState}

def LaterFits (ex : Executor) (s : RunState) (i : Nat) : Prop :=
  ∃ j rung, i < j ∧ ex.fallbacks[j]? = some rung ∧ fits s rung = true

def WentOn (log : WalkLog) (i : Nat) : Prop := ∃ e ∈ log, i < e.1

/-- Every fired rung with a policy of its own is gated by it: among rungs that fit,
the walk stops there exactly when that policy accepts, and when it ends there the
outcome before the verifier is that policy's. -/
def GatedByOwnPolicy (ex : Executor) (s : RunState) (d : QuestionDecision) (log : WalkLog) :
    Prop :=
  ∀ e ∈ log, ∀ rung own, ex.fallbacks[e.1]? = some rung → rung.policy = some own →
    (LaterFits ex s e.1 → (¬ WentOn log e.1 ↔ e.2.report.outcomeFor own = .accept)) ∧
    (¬ WentOn log e.1 → gate (ex.gatePolicy d) (finalLive d log) = e.2.report.outcomeFor own)

/-- On the report of every fired rung with a policy of its own, the node-resolved
policy says what that policy says: whether it accepts, when a later rung fits; the
whole outcome, when the walk ends there. An abstention ends it as an abstention. -/
def PoliciesAgree (ex : Executor) (s : RunState) (d : QuestionDecision) (log : WalkLog) : Prop :=
  ∀ e ∈ log, ∀ rung own, ex.fallbacks[e.1]? = some rung → rung.policy = some own →
    (LaterFits ex s e.1 → (e.2.report.outcomeFor (ex.gatePolicy d) = .accept ↔
      e.2.report.outcomeFor own = .accept)) ∧
    (¬ WentOn log e.1 → e.2.report.outcomeFor own =
      if e.2.abstained.isSome then .abstain else e.2.report.outcomeFor (ex.gatePolicy d))

omit [RustStd] in
theorem mem_livesBefore_of_mem {d : QuestionDecision} {log : WalkLog} {e : Nat × QuestionDecision}
    {i : Nat} (he : e ∈ log) (hi : e.1 < i) : e.2 ∈ livesBefore d log i :=
  List.mem_cons_of_mem _ (List.mem_map_of_mem (List.mem_filter.mpr ⟨he, decide_eq_true hi⟩))

theorem WalkLaw.eq_of_fst {d : QuestionDecision} {log : WalkLog} (h : WalkLaw ex s d log)
    {a b : Nat × QuestionDecision} (ha : a ∈ log) (hb : b ∈ log) (hab : a.1 = b.1) : a = b :=
  List.inj_on_of_nodup_map (h.ordered.imp Nat.ne_of_lt) ha hb hab

/-- When a later rung fits, the walk goes on after a fired rung exactly when the
gating policy does not accept its report. -/
theorem WalkLaw.wentOn_iff {d : QuestionDecision} {log : WalkLog} (h : WalkLaw ex s d log)
    {e : Nat × QuestionDecision} (he : e ∈ log) (hl : LaterFits ex s e.1) :
    WentOn log e.1 ↔ e.2.report.outcomeFor (ex.gatePolicy d) ≠ .accept := by
  obtain ⟨rung, hrung, -⟩ := h.fired e he
  have hbefore := ((h.fires_iff e.1 rung hrung).mp (List.mem_map_of_mem he)).2
  constructor
  · rintro ⟨f, hf, hlt⟩
    obtain ⟨rung', hrung', -⟩ := h.fired f hf
    have hlives := ((h.fires_iff f.1 rung' hrung').mp (List.mem_map_of_mem hf)).2
    exact hlives _ (mem_livesBefore_of_mem he hlt)
  · intro hacc
    by_contra hno
    obtain ⟨j, later, hij, hj, hfit⟩ := hl
    have hall : ∀ live ∈ livesBefore d log j,
        live.report.outcomeFor (ex.gatePolicy d) ≠ .accept := by
      intro live hlive
      rcases List.mem_cons.mp hlive with rfl | hlive
      · exact hbefore _ List.mem_cons_self
      · obtain ⟨f, hf, rfl⟩ := List.mem_map.mp hlive
        have hfl := (List.mem_filter.mp hf).1
        rcases Nat.lt_trichotomy f.1 e.1 with hlt | heq | hgt
        · exact hbefore _ (mem_livesBefore_of_mem hfl hlt)
        · rw [h.eq_of_fst hfl he heq]
          exact hacc
        · exact absurd ⟨f, hfl, hgt⟩ hno
    obtain ⟨f, hf, hfj⟩ := List.mem_map.mp ((h.fires_iff j later hj).mpr ⟨hfit, hall⟩)
    exact hno ⟨f, hf, hfj ▸ hij⟩

theorem WalkLaw.finalLive_eq {d : QuestionDecision} {log : WalkLog} (h : WalkLaw ex s d log)
    {e : Nat × QuestionDecision} (he : e ∈ log) (hlast : ¬ WentOn log e.1) :
    finalLive d log = e.2 := by
  obtain ⟨f, hf⟩ : ∃ f, log.getLast? = some f := by
    cases hl : log.getLast? with
    | none => simp [List.getLast?_eq_none_iff.mp hl] at he
    | some f => exact ⟨f, rfl⟩
  have hfm := List.mem_of_getLast? hf
  have hle : e.1 ≤ f.1 := by
    have hp := h.ordered
    obtain ⟨init, rfl⟩ := List.getLast?_eq_some_iff.mp hf
    rcases List.mem_append.mp he with hi | hi
    · rw [List.map_append, List.pairwise_append] at hp
      exact Nat.le_of_lt (hp.2.2 _ (List.mem_map_of_mem hi) _ (by simp))
    · rw [List.mem_singleton.mp hi]
  have hfe : f = e := by
    refine h.eq_of_fst hfm he (Nat.le_antisymm ?_ hle)
    by_contra hgt
    exact hlast ⟨f, hfm, by omega⟩
  rw [finalLive, List.getLast?_map, hf, hfe]
  rfl

theorem gatedByOwnPolicy_iff_of_law {d : QuestionDecision} {log : WalkLog}
    (h : WalkLaw ex s d log) : GatedByOwnPolicy ex s d log ↔ PoliciesAgree ex s d log := by
  refine forall₂_congr fun e he => forall₂_congr fun rung own => forall₂_congr fun _ _ => ?_
  refine and_congr (forall_congr' fun hl => ?_) (forall_congr' fun hlast => ?_)
  · rw [h.wentOn_iff he hl, not_not]
  · rw [h.finalLive_eq he hlast, gate, eq_comm]

/-- A threshold node gates the rungs of a question by their own policies exactly
when the node-resolved policy agrees with them. -/
theorem resolveOne_gatedByOwnPolicy_iff {id : NodeId} {q : QuestionId} {d : QuestionDecision}
    {r : Resolution} (h : ex.resolveOne s id (q, d) = .ok r) :
    ∃ log text, WalkLaw ex s d log ∧ r.walk.fired = log.map Prod.snd ∧
      ex.verify s (finalLive d log) (gate (ex.gatePolicy d) (finalLive d log)) =
        .ok (r.outcome, r.agreement, text) ∧
      (GatedByOwnPolicy ex s d log ↔ PoliciesAgree ex s d log) := by
  obtain ⟨-, hw, text, hv⟩ := resolveOne_ok h
  obtain ⟨log, hlaw, hf, hl⟩ := walk_law hw
  rw [hl] at hv
  exact ⟨log, text, hlaw, hf, hv, gatedByOwnPolicy_iff_of_law hlaw⟩

end Runs

section Sample

attribute [local instance] plainStd

def lenientPolicy : DecisionPolicy :=
  { DecisionPolicy.defaults with
    minConfidence := 1 / 2
    verifyBelow := 1 / 2
    abstainBelow_le := by decide +kernel
    verifyBelow_le := by decide +kernel
    minConfidence_le := by decide +kernel
    escalateBelow_range := by simp [DecisionPolicy.defaults] }

/-- A doubtful primary decision and a rung that carries the lenient policy. -/
def ownPolicyExecutor : Executor :=
  Sample.executor Sample.gateGraph (Sample.request [Sample.choice "q" ["a", "b"]] .defaults)
    (Sample.scripted "primary" "q" Sample.even) none
    [{ classifier :=
        Sample.scripted "fallback" "q" Sample.mostly
       policy := some lenientPolicy }]

def doubtfulDecision : QuestionDecision :=
  (decideQuestion (Sample.choice "q" ["a", "b"])
    Sample.even .defaults identityCalibration "judge" .choice
    none).toOption.get (by decide +kernel)

def ownPolicyState : RunState := initialState ownPolicyExecutor.request

/-- A rung that is sure, so that both policies accept its report. -/
def agreedExecutor : Executor :=
  { ownPolicyExecutor with
    fallbacks := [{ classifier := Sample.scripted "fallback" "q" Sample.certain
                    policy := some lenientPolicy }] }

theorem resolveOne_gatedByOwnPolicy_iff_sample :
    ∃ log, WalkLaw agreedExecutor ownPolicyState doubtfulDecision log ∧ log.length = 1 ∧
      GatedByOwnPolicy agreedExecutor ownPolicyState doubtfulDecision log ∧
      PoliciesAgree agreedExecutor ownPolicyState doubtfulDecision log := by
  obtain ⟨r, hr⟩ := Result.ok_of_isSome (by decide +kernel :
    (agreedExecutor.resolveOne ownPolicyState (Sample.node "gate" .threshold []).id
      (doubtfulDecision.question.id, doubtfulDecision)).toOption.isSome = true)
  obtain ⟨log, -, hlaw, hfired, -, hiff⟩ := resolveOne_gatedByOwnPolicy_iff hr
  have hverdicts : (agreedExecutor.resolveOne ownPolicyState (Sample.node "gate" .threshold []).id
      (doubtfulDecision.question.id, doubtfulDecision)).toOption.map (fun r =>
        r.walk.fired.map fun d => (d.report.outcomeFor (agreedExecutor.gatePolicy doubtfulDecision),
          d.report.outcomeFor lenientPolicy, d.abstained.isSome)) =
      some [(.accept, .accept, false)] := by decide +kernel
  rw [hr, Except.toOption, Option.map_some, Option.some.injEq, hfired, List.map_map] at hverdicts
  obtain ⟨e, rfl, he⟩ := List.map_eq_singleton_iff.mp hverdicts
  obtain ⟨hgate, hown, habstained⟩ : e.2.report.outcomeFor
      (agreedExecutor.gatePolicy doubtfulDecision) = .accept ∧
      e.2.report.outcomeFor lenientPolicy = .accept ∧ e.2.abstained.isSome = false := by
    simpa using he
  have hagree : PoliciesAgree agreedExecutor ownPolicyState doubtfulDecision [e] := by
    intro e' he' rung own hrung hpolicy
    rw [List.mem_singleton.mp he'] at hrung ⊢
    rw [List.mem_singleton.mp (List.mem_of_getElem? hrung)] at hpolicy
    cases hpolicy
    exact ⟨fun _ => iff_of_true hgate hown, fun _ => by simp [habstained, hgate, hown]⟩
  exact ⟨[e], hlaw, rfl, hiff.mpr hagree, hagree⟩

/-- The rung's own policy accepts its report, the node-resolved policy sends it to
verification, and the question ends unverified. -/
theorem ownPolicy_not_gating :
    (∃ log, WalkLaw ownPolicyExecutor ownPolicyState doubtfulDecision log ∧
      ¬ GatedByOwnPolicy ownPolicyExecutor ownPolicyState doubtfulDecision log) ∧
    (ownPolicyExecutor.runState.toOption.bind fun s =>
      s.decisions.get? doubtfulDecision.question.id).map
        (fun d => (d.distribution.top.probability, d.report.outcomeFor lenientPolicy, d.outcome)) =
      some (3 / 4, .accept, .verify) := by
  refine ⟨?_, by decide +kernel⟩
  obtain ⟨w, hw⟩ := Result.ok_of_isSome (by decide +kernel :
    (ownPolicyExecutor.walk ownPolicyState (Sample.node "gate" .threshold []).id
      doubtfulDecision.question.id doubtfulDecision).toOption.isSome = true)
  obtain ⟨log, hlaw, hf, hl⟩ := walk_law hw
  have hwalk : (ownPolicyExecutor.walk ownPolicyState (Sample.node "gate" .threshold []).id
      doubtfulDecision.question.id doubtfulDecision).toOption.map
        (fun w => (w.fired.length, w.live.report.outcomeFor lenientPolicy,
          gate (ownPolicyExecutor.gatePolicy doubtfulDecision) w.live)) =
      some (1, .accept, .verify) := by decide +kernel
  rw [hw] at hwalk
  simp only [Except.toOption, Option.map_some, Option.some.injEq, Prod.mk.injEq, hf,
    List.length_map] at hwalk
  obtain ⟨hlen, hacc, hgate⟩ := hwalk
  obtain ⟨e, rfl⟩ := List.length_eq_one_iff.mp hlen
  obtain ⟨rung, hrung, -⟩ := hlaw.fired e List.mem_cons_self
  have hzero : e.1 = 0 := by
    have hlt : e.1 < 1 := (List.getElem?_eq_some_iff.mp hrung).1
    omega
  have hlast : ¬ WentOn [e] e.1 := by
    rintro ⟨f, hf, hgt⟩
    rw [List.mem_singleton.mp hf] at hgt
    exact Nat.lt_irrefl _ hgt
  refine ⟨[e], hlaw, fun hown => ?_⟩
  have hpolicy : rung.policy = some lenientPolicy := by
    rw [hzero] at hrung
    cases hrung
    rfl
  have houtcome := (hown e List.mem_cons_self rung lenientPolicy hrung hpolicy).2 hlast
  rw [← hl, hgate] at houtcome
  rw [hl] at hacc
  exact absurd (houtcome.trans hacc) (by decide)

end Sample

end OpenCodifier.Executor
