import OpenCodifier.Engine.History
set_option autoImplicit false

namespace OpenCodifier.Executor

section Folds

theorem mem_extendPruned (m : OrdMap QuestionId (List CandidateId)) (q q' : QuestionId)
    (pruned : List CandidateId) (c : CandidateId) :
    c ∈ ((extendPruned m q pruned).get? q').getD [] ↔
      c ∈ (m.get? q').getD [] ∨ (q' = q ∧ c ∈ pruned) := by
  unfold extendPruned
  split
  · rename_i h
    simp [h]
  · rw [OrdMap.get?_insert]
    by_cases hq : q' = q
    · simp [hq]
    · simp [hq]

theorem foldl_mergeScored_decisions (scores : List LexicalScores) (s : RunState) :
    (scores.foldl mergeScored s).decisions = s.decisions := by
  induction scores generalizing s with
  | nil => rfl
  | cons x scores ih => exact ih _

theorem foldl_mergeRetrieved_decisions
    (prunes : List (QuestionId × List CandidateId × List CandidateId)) (s : RunState) :
    (prunes.foldl mergeRetrieved s).decisions = s.decisions := by
  induction prunes generalizing s with
  | nil => rfl
  | cons x prunes ih => exact ih _

theorem foldl_insertDecision_of_none (ds : List QuestionDecision)
    (m : OrdMap QuestionId QuestionDecision) {q : QuestionId}
    (h : ∀ d ∈ ds, d.answer.questionId ≠ q) : (ds.foldl insertDecision m).get? q = m.get? q := by
  induction ds generalizing m with
  | nil => rfl
  | cons d ds ih =>
    rw [List.foldl_cons, ih _ fun d hd => h d (List.mem_cons_of_mem _ hd), insertDecision,
      OrdMap.get?_insert_of_ne _ _ (Ne.symm (h d List.mem_cons_self))]

theorem foldl_insertDecision_of_unique {ds : List QuestionDecision}
    (m : OrdMap QuestionId QuestionDecision) {d : QuestionDecision} (hd : d ∈ ds)
    (h : ∀ d' ∈ ds, d'.answer.questionId = d.answer.questionId → d' = d) :
    (ds.foldl insertDecision m).get? d.answer.questionId = some d := by
  induction ds generalizing m with
  | nil => cases hd
  | cons a ds ih =>
    rw [List.foldl_cons]
    by_cases hmem : d ∈ ds
    · exact ih _ hmem fun d' hd' => h d' (List.mem_cons_of_mem _ hd')
    · have hda : d = a := (List.mem_cons.mp hd).resolve_right hmem
      subst hda
      rw [foldl_insertDecision_of_none, insertDecision, OrdMap.get?_insert_self]
      intro d' hd' heq
      exact hmem (h d' (List.mem_cons_of_mem _ hd') heq ▸ hd')

theorem foldl_patchDecision_of_none
    (outcomes : List (QuestionId × DecisionOutcome × Option Bool))
    (m : OrdMap QuestionId QuestionDecision) {q : QuestionId} (h : ∀ r ∈ outcomes, r.1 ≠ q) :
    (outcomes.foldl patchDecision m).get? q = m.get? q := by
  induction outcomes generalizing m with
  | nil => rfl
  | cons r outcomes ih =>
    have hq : q ≠ r.1 := Ne.symm (h r List.mem_cons_self)
    rw [List.foldl_cons, ih _ fun r hr => h r (List.mem_cons_of_mem _ hr), patchDecision,
      OrdMap.get?_modify]
    simp [hq]

theorem foldl_patchDecision_of_mem
    {outcomes : List (QuestionId × DecisionOutcome × Option Bool)}
    (hn : (outcomes.map Prod.fst).Nodup) (m : OrdMap QuestionId QuestionDecision)
    {r : QuestionId × DecisionOutcome × Option Bool} (hr : r ∈ outcomes) :
    (outcomes.foldl patchDecision m).get? r.1 = (m.get? r.1).map (patch r.2.1 r.2.2) := by
  induction outcomes generalizing m with
  | nil => cases hr
  | cons a outcomes ih =>
    rw [List.map_cons, List.nodup_cons] at hn
    rw [List.foldl_cons]
    rcases List.mem_cons.mp hr with rfl | hr
    · have hne : ∀ r' ∈ outcomes, r'.1 ≠ r.1 := fun r' hr' he =>
        hn.1 (he ▸ List.mem_map_of_mem hr')
      rw [foldl_patchDecision_of_none _ _ hne, patchDecision, OrdMap.get?_modify]
      simp
    · have hne : r.1 ≠ a.1 := fun he => hn.1 (he ▸ List.mem_map_of_mem hr)
      rw [ih hn.2 _ hr, patchDecision, OrdMap.get?_modify]
      simp [hne]

end Folds

variable [RustStd] {ex : Executor} {s : RunState} {spec : NodeSpec}

inductive Executed (ex : Executor) (s : RunState) (spec : NodeSpec) : NodeExecution → Prop
  | normalize : spec.kind = .normalize → Executed ex s spec ⟨.inert, [normalizeEntry s spec.id]⟩
  | rule : spec.kind = .rule →
      Executed ex s spec ⟨.rules (ex.config.rules.evaluate s.state ex.request.questions),
        [ruleEntry spec.id (ex.config.rules.evaluate s.state ex.request.questions)]⟩
  | cache {entries : List TraceEntry} : spec.kind = .cache → Executed ex s spec ⟨.inert, entries⟩
  | filter : spec.kind = .filter → Executed ex s spec (ex.filterCandidates s spec.id)
  | lexical : spec.kind = .lexical → Executed ex s spec (ex.scoreLexical s spec.id)
  | embedding {e : NodeExecution} : spec.kind = .embedding → ex.scoreSemantic s spec.id = .ok e →
      Executed ex s spec e
  | retrieve {e : NodeExecution} : spec.kind = .retrieve → ex.retrieve s spec.id spec = .ok e →
      Executed ex s spec e
  | rerank {e : NodeExecution} : spec.kind = .rerank → ex.rerankCandidates s spec.id spec = .ok e →
      Executed ex s spec e
  | decide {e : NodeExecution} : spec.kind = .choice ∨ spec.kind = .boolean ∨ spec.kind = .score →
      ex.decideQuestions s spec.id spec.kind = .ok e → Executed ex s spec e
  | threshold {e : NodeExecution} : spec.kind = .threshold → ex.resolveThreshold s spec.id = .ok e →
      Executed ex s spec e
  | branch {entries : List TraceEntry} : spec.kind = .branch →
      Executed ex s spec ⟨.branched (branchFires s spec), entries⟩
  | output {entries : List TraceEntry} : spec.kind = .output → Executed ex s spec ⟨.inert, entries⟩

theorem executed_of_execute {e : NodeExecution} (h : ex.execute s spec = .ok e) :
    Executed ex s spec e := by
  obtain ⟨u, -, h⟩ := Result.bind_ok.mp h
  cases hk : spec.kind with
  | normalize =>
    rw [hk] at h
    cases h
    exact .normalize hk
  | rule =>
    rw [hk] at h
    cases h
    exact .rule hk
  | cache =>
    rw [hk] at h
    cases h
    exact .cache hk
  | filter =>
    rw [hk] at h
    cases h
    exact .filter hk
  | lexical =>
    rw [hk] at h
    cases h
    exact .lexical hk
  | embedding =>
    rw [hk] at h
    exact .embedding hk h
  | retrieve =>
    rw [hk] at h
    exact .retrieve hk h
  | rerank =>
    rw [hk] at h
    exact .rerank hk h
  | choice =>
    rw [hk] at h
    exact .decide (Or.inl hk) (hk ▸ h)
  | boolean =>
    rw [hk] at h
    exact .decide (Or.inr (Or.inl hk)) (hk ▸ h)
  | score =>
    rw [hk] at h
    exact .decide (Or.inr (Or.inr hk)) (hk ▸ h)
  | threshold =>
    rw [hk] at h
    exact .threshold hk h
  | branch =>
    rw [hk] at h
    cases h
    exact .branch hk
  | output =>
    rw [hk] at h
    cases h
    exact .output hk

theorem executed_of_produces {e : NodeExecution} (h : ex.machine.Produces s spec e) :
    Executed ex s spec e :=
  executed_of_execute h.2.2

theorem resolveThreshold_of_executed {e : NodeExecution} (h : Executed ex s spec e)
    (hk : spec.kind = .threshold) : ex.resolveThreshold s spec.id = .ok e := by
  cases h with
  | threshold _ h => exact h
  | decide hd _ => simp [hk] at hd
  | _ hd => simp [hk] at hd

theorem filter_of_executed {e : NodeExecution} (h : Executed ex s spec e)
    (hk : spec.kind = .filter) : e = ex.filterCandidates s spec.id := by
  cases h with
  | filter _ => rfl
  | decide hd _ => simp [hk] at hd
  | _ hd => simp [hk] at hd

theorem decideQuestions_of_executed {e : NodeExecution} (h : Executed ex s spec e)
    (hk : spec.kind = .choice ∨ spec.kind = .boolean ∨ spec.kind = .score) :
    ex.decideQuestions s spec.id spec.kind = .ok e := by
  cases h with
  | decide _ h => exact h
  | _ hd => simp [hd] at hk

section Outputs

theorem scoreSemantic_output {id : NodeId} {e : NodeExecution}
    (h : ex.scoreSemantic s id = .ok e) : ∃ scores, e.output = .semantic scores := by
  unfold scoreSemantic at h
  split at h
  · cases h
  · obtain ⟨results, -, h⟩ := Result.bind_ok.mp h
    cases h
    exact ⟨_, rfl⟩

theorem retrieve_output {id : NodeId} {e : NodeExecution} (h : ex.retrieve s id spec = .ok e) :
    ∃ prunes, e.output = .retrieved prunes := by
  obtain ⟨results, -, h⟩ := Result.bind_ok.mp h
  cases h
  exact ⟨_, rfl⟩

theorem rerank_output {id : NodeId} {e : NodeExecution}
    (h : ex.rerankCandidates s id spec = .ok e) : ∃ orders, e.output = .reranked orders := by
  obtain ⟨reranker, -, h⟩ := Result.bind_ok.mp h
  obtain ⟨results, -, h⟩ := Result.bind_ok.mp h
  cases h
  exact ⟨_, rfl⟩

end Outputs

section Skips

theorem foldl_markSkipped {β : Type} (f : RunState → β)
    (h : ∀ s id, f (ex.markSkipped s id) = f s) (ids : List NodeId) (s : RunState) :
    f (ids.foldl ex.markSkipped s) = f s := by
  induction ids generalizing s with
  | nil => rfl
  | cons id ids ih => rw [List.foldl_cons, ih, h]

theorem merge_branched {β : Type} (f : RunState → β)
    (h : ∀ s id, f (ex.markSkipped s id) = f s) (fired : Bool) :
    f (ex.merge s spec (.branched fired)) = f s := by
  cases fired with
  | true => rfl
  | false => exact foldl_markSkipped f h _ s

end Skips

section Decisions

theorem merge_decisions (out : NodeOutput) :
    (ex.merge s spec out).decisions =
      match out with
      | .decided ds _ => ds.foldl insertDecision s.decisions
      | .resolved outcomes replacements =>
        outcomes.foldl patchDecision (replacements.foldl insertDecision s.decisions)
      | _ => s.decisions := by
  cases out with
  | scored scores => exact foldl_mergeScored_decisions scores s
  | retrieved prunes => exact foldl_mergeRetrieved_decisions prunes s
  | branched fired => exact merge_branched RunState.decisions (fun _ _ => rfl) fired
  | _ => rfl

theorem mergeExecution_decisions (e : NodeExecution) :
    (ex.mergeExecution s spec e).decisions =
      match e.output with
      | .decided ds _ => ds.foldl insertDecision s.decisions
      | .resolved outcomes replacements =>
        outcomes.foldl patchDecision (replacements.foldl insertDecision s.decisions)
      | _ => s.decisions := by
  rw [mergeExecution, merge_decisions]

theorem mergeExecution_decisions_of_other {snap : RunState} {e : NodeExecution}
    (he : Executed ex snap spec e)
    (hd : spec.kind ≠ .choice ∧ spec.kind ≠ .boolean ∧ spec.kind ≠ .score)
    (ht : spec.kind ≠ .threshold) : (ex.mergeExecution s spec e).decisions = s.decisions := by
  rw [mergeExecution_decisions]
  cases he with
  | decide hk _ => tauto
  | threshold hk _ => exact absurd hk ht
  | embedding _ h =>
    obtain ⟨scores, ho⟩ := scoreSemantic_output h
    rw [ho]
  | retrieve _ h =>
    obtain ⟨prunes, ho⟩ := retrieve_output h
    rw [ho]
  | rerank _ h =>
    obtain ⟨orders, ho⟩ := rerank_output h
    rw [ho]
  | _ => rfl

end Decisions

section Keyed

def Keyed (s : RunState) : Prop :=
  ∀ q d, s.decisions.get? q = some d → d.question.id = q ∧ d.answer.questionId = q

theorem decideOne_ok {id : NodeId} {kind : NodeKind} {question : DecisionQuestion}
    {r : QuestionDecision × Reading × TraceEntry}
    (h : ex.decideOne s id kind question = .ok (some r)) :
    ∃ narrowed, s.prepareQuestion question (ex.policyFor id.text kind).1.abstainCandidate =
        some narrowed ∧
      ex.readQuestion s (ex.policyFor id.text kind).1 narrowed
        (s.lexicalHandoff question narrowed) = .ok r.2.1 ∧
      decideQuestion narrowed r.2.1.distribution (ex.policyFor id.text kind).1
        (ex.calibrationFor id.text kind).1 id.text kind r.2.1.lexicalSupport = .ok r.1 := by
  unfold decideOne at h
  dsimp only at h
  split at h
  · cases h
  · rename_i narrowed hn
    obtain ⟨reading, hr, h⟩ := Result.bind_ok.mp h
    obtain ⟨decision, hd, h⟩ := Result.bind_ok.mp h
    cases h
    exact ⟨narrowed, hn, hr, hd⟩

theorem mem_decided {id : NodeId} {kind : NodeKind} {e : NodeExecution}
    (h : ex.decideQuestions s id kind = .ok e) :
    ∃ ds focus, e.output = .decided ds focus ∧ ∀ d ∈ ds, ∃ question ∈ ex.request.questions,
      ∃ reading entry, ex.decideOne s id kind question = .ok (some (d, reading, entry)) := by
  obtain ⟨results, hr, h⟩ := Result.bind_ok.mp h
  cases h
  refine ⟨_, _, rfl, fun d hd => ?_⟩
  obtain ⟨⟨d', reading, entry⟩, hm, rfl⟩ := List.mem_map.mp hd
  obtain ⟨r, hrm, hre⟩ := List.mem_filterMap.mp hm
  obtain ⟨question, hq, ho⟩ := Result.mem_of_mapM_ok hr hrm
  subst hre
  exact ⟨question, (List.mem_filter.mp hq).1, reading, entry, ho⟩

theorem decided_merge {snap : RunState} {e : NodeExecution}
    (h : ex.decideQuestions snap spec.id spec.kind = .ok e) {q : QuestionId} {d : QuestionDecision}
    (hd : (ex.mergeExecution s spec e).decisions.get? q = some d) :
    (d.answer.questionId = q ∧ ∃ question ∈ ex.request.questions, ∃ reading entry,
      ex.decideOne snap spec.id spec.kind question = .ok (some (d, reading, entry))) ∨
      s.decisions.get? q = some d := by
  obtain ⟨ds, focus, ho, hds⟩ := mem_decided h
  rw [mergeExecution_decisions, ho] at hd
  rcases OrdMap.get?_foldl_insert_cases hd with ⟨d', hmem, hq, rfl⟩ | ⟨hold, -⟩
  · exact .inl ⟨hq, hds d' hmem⟩
  · exact .inr hold

theorem decided_keyed {question : DecisionQuestion} {d : Distribution} {policy : DecisionPolicy}
    {calibration : Calibration} {decidedBy : String} {kind : NodeKind} {support : Option ℚ}
    {decision : QuestionDecision}
    (h : decideQuestion question d policy calibration decidedBy kind support = .ok decision) :
    decision.answer.questionId = decision.question.id := by
  obtain ⟨hq, -, -, -, -, -, -, -, ha, -⟩ := decideQuestion_ok h
  rw [ha, hq]

end Keyed

end OpenCodifier.Executor
