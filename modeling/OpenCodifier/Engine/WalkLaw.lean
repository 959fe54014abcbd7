import OpenCodifier.Engine.Effects
import OpenCodifier.Engine.Sample
set_option autoImplicit false

namespace OpenCodifier.Executor

section LastFired

def firedFor (q : QuestionId) (replacements : List QuestionDecision) : List QuestionDecision :=
  replacements.filter fun d => d.answer.questionId = q

theorem lastIndex_append (replacements : List QuestionDecision) (d : QuestionDecision) :
    lastIndex (replacements ++ [d]) =
      (lastIndex replacements).insert d.answer.questionId replacements.length := by
  simp [lastIndex, List.zipIdx_append]

theorem lastIndex_lt {replacements : List QuestionDecision} {q : QuestionId} {i : Nat}
    (h : (lastIndex replacements).get? q = some i) : i < replacements.length := by
  induction replacements using List.reverseRecOn with
  | nil => simp [lastIndex] at h
  | append_singleton replacements d ih =>
    rw [lastIndex_append, OrdMap.get?_insert] at h
    rw [List.length_append, List.length_singleton]
    split at h
    · cases h
      omega
    · exact Nat.lt_succ_of_lt (ih h)

theorem lastIndex_get? (replacements : List QuestionDecision) (q : QuestionId) :
    ((lastIndex replacements).get? q).bind (fun i => replacements[i]?) =
      (firedFor q replacements).getLast? := by
  induction replacements using List.reverseRecOn with
  | nil => rfl
  | append_singleton replacements d ih =>
    rw [lastIndex_append, OrdMap.get?_insert, firedFor, List.filter_append]
    by_cases hq : q = d.answer.questionId
    · simp [hq]
    · have hd : [d].filter (fun d => d.answer.questionId = q) = [] := by simp [Ne.symm hq]
      rw [if_neg hq, hd, List.append_nil]
      rw [firedFor] at ih
      rw [← ih]
      cases hi : (lastIndex replacements).get? q with
      | none => rfl
      | some i => exact List.getElem?_append_left (lastIndex_lt hi)

theorem mem_finalReplacements {replacements : List QuestionDecision} {d : QuestionDecision} :
    d ∈ finalReplacements replacements ↔
      (firedFor d.answer.questionId replacements).getLast? = some d := by
  simp only [finalReplacements, List.mem_filterMap, OrdMap.mem_values_iff]
  constructor
  · rintro ⟨i, ⟨q, hi⟩, hd⟩
    have hl := lastIndex_get? replacements q
    rw [hi, Option.bind_some, hd] at hl
    have hm := List.mem_of_getLast? hl.symm
    have hq : d.answer.questionId = q := of_decide_eq_true (List.mem_filter.mp hm).2
    rw [hq]
    exact hl.symm
  · intro h
    rw [← lastIndex_get?] at h
    obtain ⟨i, hi, hd⟩ := Option.bind_eq_some_iff.mp h
    exact ⟨i, ⟨_, hi⟩, hd⟩

/-- Inserting the final replacements stores the last decision fired for each
question and touches no other question. -/
theorem insert_finalReplacements (replacements : List QuestionDecision)
    (m : OrdMap QuestionId QuestionDecision) (q : QuestionId) :
    ((finalReplacements replacements).foldl insertDecision m).get? q =
      (firedFor q replacements).getLast?.or (m.get? q) := by
  cases hl : (firedFor q replacements).getLast? with
  | none =>
    rw [foldl_insertDecision_of_none, Option.none_or]
    rintro d hd rfl
    rw [mem_finalReplacements, hl] at hd
    cases hd
  | some d =>
    have hq : d.answer.questionId = q :=
      of_decide_eq_true (List.mem_filter.mp (List.mem_of_getLast? hl)).2
    subst hq
    rw [foldl_insertDecision_of_unique m (mem_finalReplacements.mpr hl), Option.some_or]
    intro d' hd' he
    have hd' := mem_finalReplacements.mp hd'
    rw [he, hl] at hd'
    exact (Option.some.inj hd').symm

end LastFired

section Log

/-- The rungs fired for a question, by position in the rung list, each with the
decision it made. -/
abbrev WalkLog := List (Nat × QuestionDecision)

/-- The decisions that were live before rung `i` was reached. -/
def livesBefore (d : QuestionDecision) (log : WalkLog) (i : Nat) : List QuestionDecision :=
  d :: (log.filter fun e => e.1 < i).map Prod.snd

/-- The decision the walk ends on. -/
def finalLive (d : QuestionDecision) (log : WalkLog) : QuestionDecision :=
  (log.map Prod.snd).getLast?.getD d

theorem livesBefore_cons_of_lt (d : QuestionDecision) {k i : Nat} (r : QuestionDecision)
    (log : WalkLog) (h : k < i) :
    livesBefore d ((k, r) :: log) i = d :: livesBefore r log i := by
  simp [livesBefore, h]

theorem finalLive_cons (d : QuestionDecision) (k : Nat) (r : QuestionDecision) (log : WalkLog) :
    finalLive d ((k, r) :: log) = finalLive r log := by
  simp [finalLive, List.getLast?_cons]

end Log

section Runs

variable [RustStd] {ex : Executor} {s : RunState}

section Law

def gatePolicy (ex : Executor) (d : QuestionDecision) : DecisionPolicy :=
  (ex.policyFor d.decidedBy.1 d.decidedBy.2).1

def AnyFits (ex : Executor) (s : RunState) : Prop := ∃ rung ∈ ex.fallbacks, fits s rung = true

/-- Rungs fire in list order; a rung fires exactly when no earlier live decision
was accepted and its modality fits; each fired rung decides the question of the
stored decision. -/
structure WalkLaw (ex : Executor) (s : RunState) (d : QuestionDecision) (log : WalkLog) : Prop where
  ordered : (log.map Prod.fst).Pairwise (· < ·)
  fires_iff : ∀ i rung, ex.fallbacks[i]? = some rung →
    (i ∈ log.map Prod.fst ↔ fits s rung = true ∧
      ∀ live ∈ livesBefore d log i, live.report.outcomeFor (ex.gatePolicy d) ≠ .accept)
  fired : ∀ e ∈ log, ∃ rung, ex.fallbacks[e.1]? = some rung ∧
    ex.fireRung s (ex.gatePolicy d) rung d d.decidedBy = .ok e.2

theorem WalkLaw.eq_nil_iff {s : RunState} {d : QuestionDecision} {log : WalkLog}
    (h : WalkLaw ex s d log) :
    log = [] ↔ d.report.outcomeFor (ex.gatePolicy d) = .accept ∨ ¬ AnyFits ex s := by
  constructor
  · rintro rfl
    by_contra hno
    obtain ⟨hacc, hfits⟩ := not_or.mp hno
    obtain ⟨rung, hr, hfit⟩ := not_not.mp hfits
    obtain ⟨i, hi⟩ := List.mem_iff_getElem?.mp hr
    have hfire := (h.fires_iff i rung hi).mpr ⟨hfit, by simpa [livesBefore] using hacc⟩
    simp at hfire
  · intro hstop
    cases log with
    | nil => rfl
    | cons e log =>
      obtain ⟨rung, hrung, -⟩ := h.fired e List.mem_cons_self
      obtain ⟨hfit, hlive⟩ := (h.fires_iff e.1 rung hrung).mp (by simp)
      rcases hstop with hacc | hnone
      · exact absurd hacc (hlive d List.mem_cons_self)
      · exact absurd ⟨rung, List.mem_of_getElem? hrung, hfit⟩ hnone

theorem fireRung_ok {policy : DecisionPolicy} {rung : Rung} {live : QuestionDecision}
    {decidedBy : String × NodeKind} {r : QuestionDecision}
    (h : ex.fireRung s policy rung live decidedBy = .ok r) :
    ∃ reading, readClassifier rung.classifier s.state live.question none = .ok reading ∧
      decideQuestion live.question reading.1 (rungPolicy policy rung)
        (rung.calibration.getD ex.config.calibration) decidedBy.1 decidedBy.2 reading.2.2 =
          .ok r :=
  Result.bind_ok.mp h

theorem fireRung_question {policy : DecisionPolicy} {rung : Rung} {live : QuestionDecision}
    {decidedBy : String × NodeKind} {r : QuestionDecision}
    (h : ex.fireRung s policy rung live decidedBy = .ok r) : r.question = live.question := by
  obtain ⟨reading, -, hd⟩ := fireRung_ok h
  exact (decideQuestion_ok hd).1

theorem fireRung_congr (policy : DecisionPolicy) (rung : Rung) {a b : QuestionDecision}
    (decidedBy : String × NodeKind) (h : a.question = b.question) :
    ex.fireRung s policy rung a decidedBy = ex.fireRung s policy rung b decidedBy := by
  rw [fireRung, fireRung, h]

/-- The law of a walk over any list of rungs with ascending positions, from any
live decision. -/
theorem walkRungs_law {id : NodeId} {q : QuestionId} {policy : DecisionPolicy}
    {decidedBy : String × NodeKind} {rungs : List (Rung × Nat)}
    (hr : rungs.Pairwise fun a b => a.2 < b.2) {w w' : Walk}
    (h : ex.walkRungs s id q policy decidedBy rungs w = .ok w') :
    ∃ log : WalkLog, w'.fired = w.fired ++ log.map Prod.snd ∧ w'.live = finalLive w.live log ∧
      (log.map Prod.fst).Pairwise (· < ·) ∧
      (∀ e ∈ rungs, e.2 ∈ log.map Prod.fst ↔ fits s e.1 = true ∧
        ∀ live ∈ livesBefore w.live log e.2, live.report.outcomeFor policy ≠ .accept) ∧
      ∀ e ∈ log, ∃ rung, (rung, e.1) ∈ rungs ∧
        ex.fireRung s policy rung w.live decidedBy = .ok e.2 := by
  induction rungs generalizing w with
  | nil =>
    cases h
    exact ⟨[], by simp, rfl, List.Pairwise.nil, by simp, by simp⟩
  | cons e rungs ih =>
    obtain ⟨rung, k⟩ := e
    have hk : ∀ e ∈ rungs, k < e.2 := fun e he => List.rel_of_pairwise_cons hr he
    simp only [walkRungs] at h
    split at h
    · rename_i hacc
      cases h
      refine ⟨[], by simp, rfl, List.Pairwise.nil, ?_, by simp⟩
      intro e _
      simp [livesBefore, hacc]
    · rename_i hacc
      split at h
      · rename_i hfit
        obtain ⟨log, hf, hl, ho, hi, hm⟩ := ih hr.of_cons h
        refine ⟨log, hf, hl, ho, ?_, ?_⟩
        · intro e he
          rcases List.mem_cons.mp he with rfl | he
          · have hn : k ∉ log.map Prod.fst := by
              intro hkm
              obtain ⟨f, hf', hfk⟩ := List.mem_map.mp hkm
              obtain ⟨rung', hr', -⟩ := hm f hf'
              exact absurd (hk _ hr') (by rw [hfk]; exact Nat.lt_irrefl k)
            have hfit' : fits s rung = false := by simpa using hfit
            simp [hn, hfit']
          · exact hi e he
        · intro e he
          obtain ⟨rung', hr', hfr⟩ := hm e he
          exact ⟨rung', List.mem_cons_of_mem _ hr', hfr⟩
      · rename_i hfit
        obtain ⟨u, -, h⟩ := Result.bind_ok.mp h
        obtain ⟨escalated, he, h⟩ := Result.bind_ok.mp h
        obtain ⟨log, hf, hl, ho, hi, hm⟩ := ih hr.of_cons h
        have hkn : ∀ e ∈ log, k < e.1 := by
          intro e he'
          obtain ⟨rung', hr', -⟩ := hm e he'
          exact hk _ hr'
        refine ⟨(k, escalated) :: log, ?_, ?_, ?_, ?_, ?_⟩
        · rw [hf]
          simp
        · rw [hl, finalLive_cons]
        · rw [List.map_cons]
          refine List.pairwise_cons.mpr ⟨fun i hi => ?_, ho⟩
          obtain ⟨e, he', rfl⟩ := List.mem_map.mp hi
          exact hkn e he'
        · intro e he'
          rcases List.mem_cons.mp he' with rfl | he'
          · have hnone : log.filter (fun e => e.1 < k) = [] := by
              refine List.filter_eq_nil_iff.mpr fun e he' => ?_
              have := hkn e he'
              simp only [decide_eq_true_eq]
              omega
            simpa [livesBefore, hnone, hacc] using hfit
          · rw [livesBefore_cons_of_lt _ _ _ (hk e he'), List.map_cons, List.mem_cons]
            have hne : e.2 ≠ k := Nat.ne_of_gt (hk e he')
            simp only [hne, false_or, List.forall_mem_cons]
            rw [hi e he']
            tauto
        · intro e he'
          rcases List.mem_cons.mp he' with rfl | he'
          · exact ⟨rung, List.mem_cons_self, he⟩
          · obtain ⟨rung', hr', hfr⟩ := hm e he'
            refine ⟨rung', List.mem_cons_of_mem _ hr', ?_⟩
            rwa [fireRung_congr policy rung' decidedBy (fireRung_question he)] at hfr

theorem walk_law {id : NodeId} {q : QuestionId} {d : QuestionDecision} {w : Walk}
    (h : ex.walk s id q d = .ok w) :
    ∃ log, WalkLaw ex s d log ∧ w.fired = log.map Prod.snd ∧ w.live = finalLive d log := by
  have hp : ex.fallbacks.zipIdx.Pairwise fun a b => a.2 < b.2 := by
    refine List.pairwise_iff_getElem.mpr fun i j hi hj hij => ?_
    simpa using hij
  obtain ⟨log, hf, hl, ho, hi, hm⟩ := walkRungs_law hp h
  refine ⟨log, ⟨ho, ?_, ?_⟩, by simpa using hf, hl⟩
  · intro i rung hrung
    exact hi (rung, i) (List.mem_zipIdx_iff_getElem?.mpr hrung)
  · intro e he
    obtain ⟨rung, hr, hfr⟩ := hm e he
    exact ⟨rung, List.mem_zipIdx_iff_getElem?.mp hr, hfr⟩

end Law

section Merged

theorem resolveOne_ok {id : NodeId} {q : QuestionId} {d : QuestionDecision} {r : Resolution}
    (h : ex.resolveOne s id (q, d) = .ok r) :
    r.question = q ∧ ex.walk s id q d = .ok r.walk ∧
      ∃ text, ex.verify s r.walk.live (gate (ex.gatePolicy d) r.walk.live) =
        .ok (r.outcome, r.agreement, text) := by
  obtain ⟨w, hw, h⟩ := Result.bind_ok.mp h
  obtain ⟨⟨outcome, agreement, text⟩, hv, h⟩ := Result.bind_ok.mp h
  cases h
  exact ⟨rfl, hw, text, hv⟩

theorem resolveThreshold_ok {id : NodeId} {e : NodeExecution}
    (h : ex.resolveThreshold s id = .ok e) :
    ∃ resolutions, s.decisions.entries.mapM (ex.resolveOne s id) = .ok resolutions ∧
      e.output = .resolved (resolutions.map fun r => (r.question, r.outcome, r.agreement))
        (finalReplacements (resolutions.flatMap fun r => r.walk.fired)) := by
  obtain ⟨resolutions, hr, h⟩ := Result.bind_ok.mp h
  cases h
  exact ⟨resolutions, hr, rfl⟩

theorem resolutions_questions {id : NodeId} {resolutions : List Resolution}
    (h : s.decisions.entries.mapM (ex.resolveOne s id) = .ok resolutions) :
    resolutions.map Resolution.question = s.decisions.keys := by
  have hf := Result.mapM_ok.mp h
  rw [OrdMap.keys]
  clear h
  generalize s.decisions.entries = entries at hf
  induction hf with
  | nil => rfl
  | cons hr _ ih => rw [List.map_cons, List.map_cons, ih, (resolveOne_ok hr).1]

theorem fired_keyed (hk : Keyed s) {id : NodeId} {q : QuestionId} {d : QuestionDecision}
    (hd : s.decisions.get? q = some d) {w : Walk} (h : ex.walk s id q d = .ok w) :
    ∀ r ∈ w.fired, r.question = d.question ∧ r.answer.questionId = q := by
  obtain ⟨log, hlaw, hf, -⟩ := walk_law h
  intro r hr
  rw [hf] at hr
  obtain ⟨e, he, rfl⟩ := List.mem_map.mp hr
  obtain ⟨rung, -, hfr⟩ := hlaw.fired e he
  have hq := fireRung_question hfr
  obtain ⟨reading, -, hdec⟩ := fireRung_ok hfr
  exact ⟨hq, by rw [decided_keyed hdec, hq, (hk q d hd).1]⟩

omit [RustStd] in
theorem firedFor_self {q : QuestionId} {l : List QuestionDecision}
    (h : ∀ d ∈ l, d.answer.questionId = q) : firedFor q l = l :=
  List.filter_eq_self.mpr fun d hd => decide_eq_true (h d hd)

omit [RustStd] in
theorem firedFor_other {q : QuestionId} {l : List QuestionDecision}
    (h : ∀ d ∈ l, d.answer.questionId ≠ q) : firedFor q l = [] :=
  List.filter_eq_nil_iff.mpr fun d hd => by simpa using h d hd

omit [RustStd] in
/-- The shared vector holds, for each question, just the decisions its own walk fired. -/
theorem firedFor_flatMap {resolutions : List Resolution}
    (hn : (resolutions.map Resolution.question).Nodup)
    (hk : ∀ r ∈ resolutions, ∀ d ∈ r.walk.fired, d.answer.questionId = r.question)
    (q : QuestionId) :
    firedFor q (resolutions.flatMap fun r => r.walk.fired) =
      ((resolutions.find? fun r => r.question = q).map fun r => r.walk.fired).getD [] := by
  induction resolutions with
  | nil => rfl
  | cons a resolutions ih =>
    rw [List.map_cons, List.nodup_cons] at hn
    have hrest := ih hn.2 fun r hr => hk r (List.mem_cons_of_mem _ hr)
    rw [List.flatMap_cons, firedFor, List.filter_append]
    change firedFor q a.walk.fired ++ firedFor q _ = _
    by_cases hq : a.question = q
    · have hnone : resolutions.find? (fun r => r.question = q) = none := by
        refine List.find?_eq_none.mpr fun r hr hrq => hn.1 ?_
        rw [hq, ← of_decide_eq_true hrq]
        exact List.mem_map_of_mem hr
      rw [hrest, hnone, List.find?_cons_of_pos (by simpa using hq),
        firedFor_self fun d hd => hq ▸ hk a List.mem_cons_self d hd]
      simp
    · rw [hrest, List.find?_cons_of_neg (by simpa using hq),
        firedFor_other fun d hd => by rw [hk a List.mem_cons_self d hd]; exact hq]
      rfl

/-- What a threshold node's output does to one question when it is merged into
any state: an undecided question keeps its decision, a decided one gets the last
decision its own walk fired, patched by its own verdict. -/
theorem merge_resolved (hk : Keyed s) {id : NodeId} {e : NodeExecution}
    (h : ex.resolveThreshold s id = .ok e) (m : RunState) (spec : NodeSpec) (q : QuestionId) :
    (s.decisions.get? q = none →
      (ex.mergeExecution m spec e).decisions.get? q = m.decisions.get? q) ∧
    ∀ d, s.decisions.get? q = some d → ∃ r, ex.resolveOne s id (q, d) = .ok r ∧
      (ex.mergeExecution m spec e).decisions.get? q =
        (r.walk.fired.getLast?.or (m.decisions.get? q)).map (patch r.outcome r.agreement) := by
  obtain ⟨resolutions, hr, ho⟩ := resolveThreshold_ok h
  have hq := resolutions_questions hr
  have hn : (resolutions.map Resolution.question).Nodup := hq ▸ s.decisions.nodup_keys
  have hfired : ∀ r ∈ resolutions, ∀ d ∈ r.walk.fired, d.answer.questionId = r.question := by
    intro r hm d hd
    obtain ⟨⟨q', d'⟩, he, hro⟩ := Result.mem_of_mapM_ok hr hm
    obtain ⟨hrq, hw, -⟩ := resolveOne_ok hro
    rw [hrq]
    exact (fired_keyed hk ((OrdMap.mem_entries_iff _ _ _).mp he) hw d hd).2
  have hdec : (ex.mergeExecution m spec e).decisions =
      (resolutions.map fun r => (r.question, r.outcome, r.agreement)).foldl patchDecision
        ((finalReplacements (resolutions.flatMap fun r => r.walk.fired)).foldl insertDecision
          m.decisions) := by
    rw [mergeExecution_decisions, ho]
  rw [hdec]
  constructor
  · intro hnone
    have hnot : ∀ r ∈ resolutions, r.question ≠ q := by
      rintro r hm rfl
      have hmem := List.mem_map_of_mem (f := Resolution.question) hm
      rw [hq, OrdMap.mem_keys_iff] at hmem
      obtain ⟨d, hd⟩ := hmem
      rw [hnone] at hd
      cases hd
    have hfind : resolutions.find? (fun r => r.question = q) = none :=
      List.find?_eq_none.mpr fun r hr => by simpa using hnot r hr
    rw [foldl_patchDecision_of_none, insert_finalReplacements, firedFor_flatMap hn hfired, hfind]
    · rfl
    · intro p hp
      obtain ⟨r, hm, rfl⟩ := List.mem_map.mp hp
      exact hnot r hm
  · intro d hd
    obtain ⟨r, hm, hro⟩ := Result.mapM_ok_mem hr ((OrdMap.mem_entries_iff _ _ _).mpr hd)
    obtain ⟨hrq, -, -⟩ := resolveOne_ok hro
    refine ⟨r, hro, ?_⟩
    subst hrq
    have hfind : resolutions.find? (fun r' => r'.question = r.question) = some r := by
      obtain ⟨r', hr'⟩ : ∃ r', resolutions.find? (fun r' => r'.question = r.question) = some r' :=
        Option.isSome_iff_exists.mp (List.find?_isSome.mpr ⟨r, hm, by simp⟩)
      have hq' := List.find?_some hr'
      rw [hr', List.inj_on_of_nodup_map hn (List.mem_of_find?_eq_some hr') hm
        (of_decide_eq_true hq')]
    have hpatch := @foldl_patchDecision_of_mem
      (resolutions.map fun r => (r.question, r.outcome, r.agreement))
      (by simpa [Function.comp_def] using hn)
      ((finalReplacements (resolutions.flatMap fun r => r.walk.fired)).foldl insertDecision
        m.decisions) _ (List.mem_map_of_mem hm)
    rw [hpatch, insert_finalReplacements, firedFor_flatMap hn hfired, hfind]
    rfl

end Merged

section Invariant

omit [RustStd] in
theorem keyed_initialState (request : DecisionRequest) : Keyed (initialState request) := by
  intro q d hd
  cases hd

theorem keyed_merge_threshold {snap m : RunState} {spec : NodeSpec} {e : NodeExecution}
    (ht : ex.resolveThreshold snap spec.id = .ok e) (hs : Keyed snap) (hm : Keyed m) :
    Keyed (ex.mergeExecution m spec e) := by
  intro q d hq
  obtain ⟨hnone, hsome⟩ := merge_resolved hs ht m spec q
  cases hd : snap.decisions.get? q with
  | none =>
    rw [hnone hd] at hq
    exact hm q d hq
  | some d' =>
    obtain ⟨r, hr, hget⟩ := hsome d' hd
    obtain ⟨-, hw, -⟩ := resolveOne_ok hr
    rw [hget] at hq
    obtain ⟨x, hx, rfl⟩ := Option.map_eq_some_iff.mp hq
    rcases Option.or_eq_some_iff.mp hx with hl | ⟨-, hl⟩
    · obtain ⟨hxq, hxa⟩ := fired_keyed hs hd hw x (List.mem_of_getLast? hl)
      exact ⟨by rw [patch, hxq]; exact (hs q d' hd).1, hxa⟩
    · exact hm q x hl

theorem keyed_merge {snap m : RunState} {spec : NodeSpec} {e : NodeExecution}
    (he : Executed ex snap spec e) (hs : Keyed snap) (hm : Keyed m) :
    Keyed (ex.mergeExecution m spec e) := by
  by_cases hd : spec.kind ≠ .choice ∧ spec.kind ≠ .boolean ∧ spec.kind ≠ .score
  · by_cases ht : spec.kind = .threshold
    · exact keyed_merge_threshold (resolveThreshold_of_executed he ht) hs hm
    · intro q d hq
      rw [mergeExecution_decisions_of_other he hd ht] at hq
      exact hm q d hq
  · intro q d hq
    rcases decided_merge (decideQuestions_of_executed he (by tauto)) hq with
      ⟨rfl, question, -, reading, entry, hone⟩ | hold
    · obtain ⟨narrowed, -, -, hdec⟩ := decideOne_ok hone
      exact ⟨(decided_keyed hdec).symm, rfl⟩
    · exact hm q d hold

/-- Every state of a run keeps decisions under the question they answer. -/
theorem keyed_trace {steps : List MergeStep} {snap cur : RunState}
    (h : Waves.Trace ex.machine steps snap cur) : Keyed snap ∧ Keyed cur :=
  h.invariant Keyed (keyed_initialState ex.request) fun _ _ hp hs hb =>
    keyed_merge (executed_of_produces hp) hs hb

theorem keyed_step {steps : List MergeStep} {snap cur : RunState}
    (h : Waves.Trace ex.machine steps snap cur) {st : MergeStep} (hst : st ∈ steps) :
    Keyed st.snapshot ∧ Keyed st.before := by
  obtain ⟨-, _, _, -, ht⟩ := h.of_mem hst
  exact keyed_trace ht

end Invariant

section Escalation

theorem walkRungs_congr {s' : RunState} (hs : s'.state = s.state) (id : NodeId) (q : QuestionId)
    (policy : DecisionPolicy) (decidedBy : String × NodeKind) (rungs : List (Rung × Nat))
    (w : Walk) : ex.walkRungs s' id q policy decidedBy rungs w =
      ex.walkRungs s id q policy decidedBy rungs w := by
  induction rungs generalizing w with
  | nil => rfl
  | cons e rungs ih =>
    obtain ⟨rung, k⟩ := e
    have hfit : fits s' rung = fits s rung := by rw [fits, fits, hs]
    have hfire : ∀ live, ex.fireRung s' policy rung live decidedBy =
        ex.fireRung s policy rung live decidedBy := fun live => by rw [fireRung, fireRung, hs]
    simp only [walkRungs, hfit, hfire, ih]

theorem resolveOne_congr {s' : RunState} (hs : s'.state = s.state) (id : NodeId)
    (entry : QuestionId × QuestionDecision) :
    ex.resolveOne s' id entry = ex.resolveOne s id entry := by
  simp only [resolveOne, walk, walkRungs_congr hs, verify, hs]

def ungated (d : QuestionDecision) : QuestionDecision := patch .accept none d

/-- The law of the escalation a threshold step makes: a question it did not read keeps its
decision, one it read gets the last decision of its own walk, the one it read when no rung fired,
and no other question has a part in either. -/
structure EscalationLaw (ex : Executor) (st : MergeStep) : Prop where
  undecided : ∀ q, st.snapshot.decisions.get? q = none →
    (ex.machine.after st).decisions.get? q = st.before.decisions.get? q
  walked : ∀ q d, st.snapshot.decisions.get? q = some d →
    ∃ log outcome agreement text, WalkLaw ex st.snapshot d log ∧
      ex.verify st.snapshot (finalLive d log) (gate (ex.gatePolicy d) (finalLive d log)) =
        .ok (outcome, agreement, text) ∧
      (ex.machine.after st).decisions.get? q = some (patch outcome agreement (finalLive d log))
  independent : ∀ (s m : RunState) (e : NodeExecution), Keyed s → s.state = st.snapshot.state →
    ex.resolveThreshold s st.node.id = .ok e →
    ∀ q, s.decisions.get? q = st.snapshot.decisions.get? q →
      m.decisions.get? q = st.before.decisions.get? q →
      (ex.mergeExecution m st.node e).decisions.get? q =
        (ex.machine.after st).decisions.get? q

/-- What the node read for a question that no rung can fire for is still stored when its output is
merged, up to what a gate writes. -/
def Unmoved (ex : Executor) (st : MergeStep) : Prop :=
  ∀ q d, st.snapshot.decisions.get? q = some d →
    (d.report.outcomeFor (ex.gatePolicy d) = .accept ∨ ¬ AnyFits ex st.snapshot) →
    ∃ x, st.before.decisions.get? q = some x ∧ ungated x = ungated d

omit [RustStd] in
theorem patch_congr {x d : QuestionDecision} (h : ungated x = ungated d)
    (outcome : DecisionOutcome) (agreement : Option Bool) :
    patch outcome agreement x = patch outcome agreement d := by
  have hpatch : patch outcome agreement (ungated x) = patch outcome agreement (ungated d) := by
    rw [h]
  exact hpatch

omit [RustStd] in
theorem ungated_congr {x d : QuestionDecision} {outcome outcome' : DecisionOutcome}
    {agreement agreement' : Option Bool}
    (h : patch outcome agreement x = patch outcome' agreement' d) : ungated x = ungated d := by
  have hungated : ungated (patch outcome agreement x) = ungated (patch outcome' agreement' d) := by
    rw [h]
  exact hungated

theorem finalLive_stored {st : MergeStep} (hu : Unmoved ex st) {q : QuestionId}
    {d : QuestionDecision} (hd : st.snapshot.decisions.get? q = some d) {log : WalkLog}
    (hlaw : WalkLaw ex st.snapshot d log) (outcome : DecisionOutcome) (agreement : Option Bool) :
    ((log.map Prod.snd).getLast?.or (st.before.decisions.get? q)).map (patch outcome agreement) =
      some (patch outcome agreement (finalLive d log)) := by
  rw [finalLive]
  cases hlast : (log.map Prod.snd).getLast? with
  | some y => rfl
  | none =>
    have hnil : log = [] := List.map_eq_nil_iff.mp (List.getLast?_eq_none_iff.mp hlast)
    obtain ⟨x, hx, hsame⟩ := hu q d hd (hlaw.eq_nil_iff.mp hnil)
    rw [Option.none_or, hx, Option.map_some, patch_congr hsame]
    rfl

/-- A threshold step obeys the escalation law exactly when nothing it read moved. -/
theorem escalationLaw_iff {st : MergeStep} (hk : Keyed st.snapshot)
    (h : ex.resolveThreshold st.snapshot st.node.id = .ok st.output) :
    EscalationLaw ex st ↔ Unmoved ex st := by
  constructor
  · intro hlaw q d hd hstop
    obtain ⟨log, outcome, agreement, -, hwalk, -, hafter⟩ := hlaw.walked q d hd
    obtain ⟨r, hr, hget⟩ := (merge_resolved hk h st.before st.node q).2 d hd
    obtain ⟨-, hw, -⟩ := resolveOne_ok hr
    obtain ⟨log', hwalk', hfired, -⟩ := walk_law hw
    rw [hwalk.eq_nil_iff.mpr hstop] at hafter
    rw [hfired, hwalk'.eq_nil_iff.mpr hstop, List.map_nil, List.getLast?_nil,
      Option.none_or] at hget
    obtain ⟨x, hx, hpatch⟩ := Option.map_eq_some_iff.mp (hget.symm.trans hafter)
    exact ⟨x, hx, ungated_congr hpatch⟩
  · intro hu
    refine ⟨fun q hq => (merge_resolved hk h st.before st.node q).1 hq, ?_, ?_⟩
    · intro q d hd
      obtain ⟨r, hr, hget⟩ := (merge_resolved hk h st.before st.node q).2 d hd
      obtain ⟨-, hw, text, hv⟩ := resolveOne_ok hr
      obtain ⟨log, hlaw, hf, hl⟩ := walk_law hw
      rw [hl] at hv
      rw [hf] at hget
      exact ⟨log, r.outcome, r.agreement, text, hlaw, hv,
        hget.trans (finalLive_stored hu hd hlaw r.outcome r.agreement)⟩
    · intro s m e hks hs he q hq hm
      obtain ⟨hnone, hsome⟩ := merge_resolved hks he m st.node q
      obtain ⟨hnone', hsome'⟩ := merge_resolved hk h st.before st.node q
      cases hd : st.snapshot.decisions.get? q with
      | none =>
        rw [hnone (hq.trans hd), hm]
        exact (hnone' hd).symm
      | some d =>
        obtain ⟨r, hr, hget⟩ := hsome d (hq.trans hd)
        obtain ⟨r', hr', hget'⟩ := hsome' d hd
        rw [resolveOne_congr hs, hr'] at hr
        cases hr
        rw [hget, hm]
        exact hget'.symm

/-- In every run, also one that fails later, a threshold step obeys the escalation law exactly when
what it read for the questions without a fired rung is still stored. -/
theorem threshold_escalationLaw_iff {steps : List MergeStep} {snap cur : RunState}
    (h : Waves.Trace ex.machine steps snap cur) :
    ∀ st ∈ steps, st.node.kind = .threshold → (EscalationLaw ex st ↔ Unmoved ex st) := by
  intro st hst hkind
  have hp := (h.of_mem hst).1
  exact escalationLaw_iff (keyed_step h hst).1
    (resolveThreshold_of_executed (executed_of_produces hp) hkind)

end Escalation

end Runs

section Sample

attribute [local instance] plainStd

def doubtfulExecutor : Executor :=
  Sample.executor Sample.gateGraph (Sample.request [Sample.choice "q" ["a", "b"]] .defaults)
    (Sample.scripted "primary" "q" Sample.even) none
    [{ classifier :=
        Sample.scripted "fallback" "q" Sample.certain }]

/-- The gate fires the rung for the doubtful decision, which nothing has moved. -/
theorem threshold_escalationLaw_iff_doubtful :
    ∃ steps snap cur st, Waves.Trace doubtfulExecutor.machine steps snap cur ∧ st ∈ steps ∧
      st.node.kind = .threshold ∧ EscalationLaw doubtfulExecutor st ∧
      (EscalationLaw doubtfulExecutor st ↔ Unmoved doubtfulExecutor st) := by
  obtain ⟨final, steps, hrun, hsteps, st, hst, hp⟩ :=
    exists_step (p := fun st => st.node.kind = .threshold &&
        st.before.decisions = st.snapshot.decisions)
      (by decide +kernel : doubtfulExecutor.runState.toOption.isSome = true) (by decide +kernel)
  obtain ⟨hkind, hsame⟩ := Bool.and_eq_true_iff.mp hp
  have hiff := threshold_escalationLaw_iff (trace_of_steps hrun hsteps) st hst
    (of_decide_eq_true hkind)
  have hunmoved : Unmoved doubtfulExecutor st := fun q d hd _ =>
    ⟨d, (of_decide_eq_true hsame).symm ▸ hd, rfl⟩
  exact ⟨steps, _, final, st, trace_of_steps hrun hsteps, hst, of_decide_eq_true hkind,
    hiff.mpr hunmoved, hiff⟩

def abstainPolicy : DecisionPolicy :=
  { DecisionPolicy.defaults with
    abstainCandidate := some ⟨"other", "none of these", by decide, by decide⟩ }

/-- The node `again` shares its wave with the gate. -/
def movedGraph : DecisionGraph :=
  Sample.graph [Sample.node "in" .normalize [], Sample.node "judge" .choice ["in"],
    Sample.node "again" .choice ["judge"], Sample.node "gate" .threshold ["judge"],
    Sample.node "out" .output ["again", "gate"]]

/-- The node `again` decides under a policy with an abstain candidate, which it elects. -/
def movedExecutor : Executor :=
  { Sample.executor movedGraph (Sample.request [Sample.choice "q" ["a"]] .defaults)
      (Sample.scripted "primary" "q" (Sample.distribution [("a", 1 / 5), ("other", 4 / 5)])) none
      [] with
    config := {
      graph := movedGraph
      rules := Sample.noRules
      ladder := { id := "strict", perNode := OrdMap.empty.insert "again" abstainPolicy } } }

/-- There are no rungs to fire, and after the gate another decision is stored than the one it
read. -/
theorem not_escalationLaw_moved : ∃ steps snap cur st,
    Waves.Trace movedExecutor.machine steps snap cur ∧ st ∈ steps ∧ st.node.kind = .threshold ∧
      movedExecutor.fallbacks = [] ∧ ¬ EscalationLaw movedExecutor st := by
  let q : QuestionId := Sample.ident "q"
  obtain ⟨final, steps, hrun, hsteps, st, hst, hp⟩ :=
    exists_step (p := fun st => st.node.kind = .threshold &&
        (st.snapshot.decisions.get? q).map QuestionDecision.abstained = some none &&
        ((movedExecutor.machine.after st).decisions.get? q).map (fun d => d.abstained.isSome) =
          some true)
      (by decide +kernel : movedExecutor.runState.toOption.isSome = true) (by decide +kernel)
  simp only [Bool.and_eq_true, decide_eq_true_eq] at hp
  obtain ⟨⟨hkind, hread⟩, hafter⟩ := hp
  refine ⟨steps, _, final, st, trace_of_steps hrun hsteps, hst, hkind, rfl, fun hlaw => ?_⟩
  obtain ⟨d, hd, hnone⟩ := Option.map_eq_some_iff.mp hread
  obtain ⟨log, outcome, agreement, text, hwalk, -, hleft⟩ := hlaw.walked q d hd
  have hnil : log = [] := hwalk.eq_nil_iff.mpr (Or.inr fun ⟨_, hr, _⟩ => List.not_mem_nil hr)
  rw [hleft, hnil, Option.map_some, Option.some.injEq] at hafter
  change d.abstained.isSome = true at hafter
  rw [hnone] at hafter
  cases hafter

end Sample

end OpenCodifier.Executor
