import OpenCodifier.Engine.WalkLaw
set_option autoImplicit false

namespace OpenCodifier.Executor

section Pruned

theorem unpruned_iff (s : RunState) (q : QuestionId) (c : CandidateId) :
    s.unpruned q c = true ↔ c ∉ (s.prunedLexically.get? q).getD [] ∧
      c ∉ (s.prunedSemantically.get? q).getD [] := by
  simp [RunState.unpruned]

theorem unpruned_mergeScored (s : RunState) (x : LexicalScores) (q : QuestionId)
    (c : CandidateId) : (mergeScored s x).unpruned q c = true ↔
      s.unpruned q c = true ∧ ¬ (q = x.questionId ∧ c ∈ x.pruned) := by
  simp only [unpruned_iff, mergeScored, mem_extendPruned, not_or]
  tauto

theorem unpruned_mergeRetrieved (s : RunState)
    (x : QuestionId × List CandidateId × List CandidateId) (q : QuestionId) (c : CandidateId) :
    (mergeRetrieved s x).unpruned q c = true ↔
      s.unpruned q c = true ∧ ¬ (q = x.1 ∧ c ∈ x.2.1) := by
  simp only [unpruned_iff, mergeRetrieved, mem_extendPruned, not_or]
  tauto

end Pruned

variable [RustStd]

/-- A decision as the gate, the walk and the response read it: the node that made it
counts only through the policy it resolves to. -/
def signature (ex : Executor) (d : QuestionDecision) : QuestionDecision × DecisionPolicy :=
  ({ d with decidedBy := ("", .output) }, ex.gatePolicy d)

/-- Two run states no later node and no answer can tell apart. -/
structure Agree (ex : Executor) (s s' : RunState) : Prop where
  state : s.state = s'.state
  rules : s.rules = s'.rules
  narrowing : s.narrowing = s'.narrowing
  lexical : s.lexical = s'.lexical
  semantic : s.semantic = s'.semantic
  reranked : s.reranked = s'.reranked
  unpruned : ∀ q c, s.unpruned q c = s'.unpruned q c
  decisions : s.decisions.mapValues (fun _ => ex.signature) =
    s'.decisions.mapValues fun _ => ex.signature

inductive OutputAgree (ex : Executor) : NodeOutput → NodeOutput → Prop
  | same (out : NodeOutput) : OutputAgree ex out out
  | resolved (outcomes : List (QuestionId × DecisionOutcome × Option Bool))
      {rs rs' : List QuestionDecision} (h : rs.map ex.signature = rs'.map ex.signature) :
      OutputAgree ex (.resolved outcomes rs) (.resolved outcomes rs')

def withGraph (ex : Executor) (g : DecisionGraph) : Executor :=
  { ex with config := { ex.config with graph := g } }

variable {ex : Executor} {s s' s'' : RunState}

namespace Agree

theorem refl (ex : Executor) (s : RunState) : Agree ex s s :=
  ⟨rfl, rfl, rfl, rfl, rfl, rfl, fun _ _ => rfl, rfl⟩

theorem trans (h : Agree ex s s') (h' : Agree ex s' s'') : Agree ex s s'' where
  state := h.state.trans h'.state
  rules := h.rules.trans h'.rules
  narrowing := h.narrowing.trans h'.narrowing
  lexical := h.lexical.trans h'.lexical
  semantic := h.semantic.trans h'.semantic
  reranked := h.reranked.trans h'.reranked
  unpruned q c := (h.unpruned q c).trans (h'.unpruned q c)
  decisions := h.decisions.trans h'.decisions

theorem of_fields (hst : s.state = s'.state) (hr : s.rules = s'.rules)
    (hn : s.narrowing = s'.narrowing) (hl : s.lexical = s'.lexical)
    (hpl : s.prunedLexically = s'.prunedLexically) (hs : s.semantic = s'.semantic)
    (hps : s.prunedSemantically = s'.prunedSemantically) (hrr : s.reranked = s'.reranked)
    (hd : s.decisions = s'.decisions) : Agree ex s s' where
  state := hst
  rules := hr
  narrowing := hn
  lexical := hl
  semantic := hs
  reranked := hrr
  unpruned q c := by simp [RunState.unpruned, hpl, hps]
  decisions := by rw [hd]

end Agree

section Reads

variable (h : Agree ex s s')
include h

theorem Agree.selectorsFor (q : QuestionId) : s.selectorsFor q = s'.selectorsFor q := by
  simp [RunState.selectorsFor, h.rules]

theorem Agree.candidatesInPlay (choice : ChoiceQuestion) :
    s.candidatesInPlay choice = s'.candidatesInPlay choice := by
  simp [RunState.candidatesInPlay, RunState.baseCandidates, h.narrowing, h.unpruned]

theorem Agree.prepareQuestion (question : DecisionQuestion) (abstain : Option AbstainCandidate) :
    s.prepareQuestion question abstain = s'.prepareQuestion question abstain := by
  cases question with
  | choice choice =>
    simp [RunState.prepareQuestion, RunState.narrowedChoice, RunState.reorder, h.narrowing,
      h.unpruned, h.reranked]
  | boolean _ => rfl
  | score _ => rfl

theorem Agree.lexicalHandoff (question narrowed : DecisionQuestion) :
    s.lexicalHandoff question narrowed = s'.lexicalHandoff question narrowed := by
  simp only [RunState.lexicalHandoff, h.narrowing, h.lexical]

theorem Agree.get?_signature (q : QuestionId) :
    (s.decisions.get? q).map ex.signature = (s'.decisions.get? q).map ex.signature := by
  have hq := congrArg (fun m => m.get? q) h.decisions
  simpa only [OrdMap.get?_mapValues] using hq

theorem Agree.filterQuestion : filterQuestion s = filterQuestion s' := by
  funext choice
  simp only [Executor.filterQuestion, h.selectorsFor]

theorem Agree.scoreQuestion : ex.scoreQuestion s = ex.scoreQuestion s' := by
  funext choice
  simp only [Executor.scoreQuestion, h.narrowing, h.state]

theorem Agree.semanticQuestion (backend : EmbeddingBackend) (id : NodeId) :
    semanticQuestion s backend id = semanticQuestion s' backend id := by
  funext choice
  simp only [Executor.semanticQuestion, h.candidatesInPlay, h.state]

theorem Agree.retrieveQuestion (id : NodeId) (spec : NodeSpec) :
    retrieveQuestion s id spec = retrieveQuestion s' id spec := by
  funext choice
  simp only [Executor.retrieveQuestion, h.candidatesInPlay, h.semantic]

theorem Agree.rerankQuestion (reranker : Reranker) (id : NodeId) :
    rerankQuestion s reranker id = rerankQuestion s' reranker id := by
  funext choice
  simp only [Executor.rerankQuestion, h.candidatesInPlay, h.state]

theorem Agree.readQuestion (policy : DecisionPolicy) (narrowed : DecisionQuestion)
    (handoff : Option Lexical.Bm25Index) :
    ex.readQuestion s policy narrowed handoff = ex.readQuestion s' policy narrowed handoff := by
  unfold Executor.readQuestion Executor.viewOf
  rw [h.state]

theorem Agree.decideOne (id : NodeId) (kind : NodeKind) :
    ex.decideOne s id kind = ex.decideOne s' id kind := by
  funext question
  unfold Executor.decideOne
  simp only [h.prepareQuestion, h.readQuestion, h.lexicalHandoff]

end Reads

section Walks

structure WalkAgree (ex : Executor) (w w' : Walk) : Prop where
  live : ex.signature w.live = ex.signature w'.live
  fired : w.fired.map ex.signature = w'.fired.map ex.signature

structure ResolutionAgree (ex : Executor) (r r' : Resolution) : Prop where
  question : r.question = r'.question
  outcome : r.outcome = r'.outcome
  agreement : r.agreement = r'.agreement
  fired : r.walk.fired.map ex.signature = r'.walk.fired.map ex.signature

theorem decideQuestion_agree (question : DecisionQuestion) (d : Distribution)
    (policy : DecisionPolicy) (calibration : Calibration) {a b : String × NodeKind}
    (support : Option ℚ) (hab : (ex.policyFor a.1 a.2).1 = (ex.policyFor b.1 b.2).1) :
    Result.Rel (fun x y => ex.signature x = ex.signature y)
      (decideQuestion question d policy calibration a.1 a.2 support)
      (decideQuestion question d policy calibration b.1 b.2 support) := by
  unfold decideQuestion
  refine (Result.Rel.of_eq (fun _ => rfl) rfl).bind fun x y hxy => ?_
  subst hxy
  refine .ok ?_
  simp [signature, gatePolicy, hab]

theorem fireRung_agree (hs : s.state = s'.state) (policy : DecisionPolicy) (rung : Rung)
    {d d' : QuestionDecision} (hd : d.question = d'.question) {a b : String × NodeKind}
    (hab : (ex.policyFor a.1 a.2).1 = (ex.policyFor b.1 b.2).1) :
    Result.Rel (fun x y => ex.signature x = ex.signature y)
      (ex.fireRung s policy rung d a) (ex.fireRung s' policy rung d' b) := by
  unfold fireRung
  rw [hs, hd]
  refine (Result.Rel.of_eq (fun _ => rfl) rfl).bind fun x y hxy => ?_
  subst hxy
  exact decideQuestion_agree _ _ _ _ _ hab

theorem signature_fields {d d' : QuestionDecision} (h : ex.signature d = ex.signature d') :
    d.question = d'.question ∧ d.distribution = d'.distribution ∧ d.answer = d'.answer ∧
      d.report = d'.report ∧ d.outcome = d'.outcome ∧ d.abstained = d'.abstained ∧
      ex.gatePolicy d = ex.gatePolicy d' := by
  simp only [signature, Prod.mk.injEq, QuestionDecision.mk.injEq] at h
  simp [h]

theorem walkRungs_agree (hg : ∀ p, ex.guard p = .ok ()) (hs : s.state = s'.state) (id : NodeId)
    (q : QuestionId) (policy : DecisionPolicy) {a b : String × NodeKind}
    (hab : (ex.policyFor a.1 a.2).1 = (ex.policyFor b.1 b.2).1) (rungs : List (Rung × Nat))
    {w w' : Walk} (hw : WalkAgree ex w w') :
    Result.Rel (WalkAgree ex) (ex.walkRungs s id q policy a rungs w)
      (ex.walkRungs s' id q policy b rungs w') := by
  induction rungs generalizing w w' with
  | nil => exact .ok hw
  | cons e rungs ih =>
    obtain ⟨rung, index⟩ := e
    obtain ⟨hq, _, _, hr, _⟩ := signature_fields hw.live
    have hfit : fits s rung = fits s' rung := by simp [fits, hs]
    simp only [walkRungs, hr, hfit, hg]
    split
    · exact .ok hw
    · split
      · exact ih ⟨hw.live, hw.fired⟩
      · refine (fireRung_agree hs policy rung hq hab).bind fun x y hxy => ih ⟨hxy, ?_⟩
        simp [hw.fired, hxy]

theorem resolveOne_agree (hg : ∀ p, ex.guard p = .ok ()) (hs : s.state = s'.state) (id : NodeId)
    {e e' : QuestionId × QuestionDecision} (hq : e.1 = e'.1)
    (hd : ex.signature e.2 = ex.signature e'.2) :
    Result.Rel (ResolutionAgree ex) (ex.resolveOne s id e) (ex.resolveOne s' id e') := by
  obtain ⟨q, d⟩ := e
  obtain ⟨q', d'⟩ := e'
  cases hq
  obtain ⟨_, _, _, _, _, _, hp⟩ := signature_fields hd
  have hpolicy : (ex.policyFor d.decidedBy.1 d.decidedBy.2).1 =
      (ex.policyFor d'.decidedBy.1 d'.decidedBy.2).1 := hp
  have hwalk : Result.Rel (WalkAgree ex) (ex.walk s id q d) (ex.walk s' id q d') := by
    unfold walk
    rw [hpolicy]
    exact walkRungs_agree hg hs id q _ hpolicy _ ⟨hd, rfl⟩
  refine hwalk.bind fun w w' hw => ?_
  obtain ⟨hwq, hwd, _, hwr, _, hwa, _⟩ := signature_fields hw.live
  have hverify : ex.verify s w.live (gate (ex.policyFor d.decidedBy.1 d.decidedBy.2).1 w.live) =
      ex.verify s' w'.live (gate (ex.policyFor d'.decidedBy.1 d'.decidedBy.2).1 w'.live) := by
    unfold verify gate
    rw [hs, hwq, hwd, hwr, hwa, hpolicy]
  refine (Result.Rel.of_eq (fun _ => rfl) hverify).bind fun x y hxy => ?_
  subst hxy
  exact .ok ⟨rfl, rfl, rfl, hw.fired⟩

theorem lastIndex_congr {rs rs' : List QuestionDecision}
    (h : rs.map ex.signature = rs'.map ex.signature) : lastIndex rs = lastIndex rs' := by
  have hids : ∀ l : List QuestionDecision, lastIndex l =
      (l.map ex.signature).zipIdx.foldl (fun m e => m.insert e.1.1.answer.questionId e.2)
        OrdMap.empty := by
    intro l
    rw [List.zipIdx_map, List.foldl_map]
    rfl
  rw [hids, hids, h]

theorem finalReplacements_agree {rs rs' : List QuestionDecision}
    (h : rs.map ex.signature = rs'.map ex.signature) :
    (finalReplacements rs).map ex.signature = (finalReplacements rs').map ex.signature := by
  unfold finalReplacements
  rw [lastIndex_congr h, List.map_filterMap, List.map_filterMap]
  simp only [← List.getElem?_map, h]

theorem resolutions_agree {rs rs' : List Resolution}
    (h : List.Forall₂ (ResolutionAgree ex) rs rs') :
    rs.map (fun r => (r.question, r.outcome, r.agreement)) =
        rs'.map (fun r => (r.question, r.outcome, r.agreement)) ∧
      (rs.flatMap fun r => r.walk.fired).map ex.signature =
        (rs'.flatMap fun r => r.walk.fired).map ex.signature := by
  induction h with
  | nil => exact ⟨rfl, rfl⟩
  | cons hr _ ih =>
    simp only [List.map_cons, List.flatMap_cons, List.map_append]
    rw [hr.question, hr.outcome, hr.agreement, hr.fired, ih.1, ih.2]
    exact ⟨rfl, rfl⟩

theorem resolveThreshold_agree (hg : ∀ p, ex.guard p = .ok ()) (h : Agree ex s s') (id : NodeId) :
    Result.Rel (fun e e' => OutputAgree ex e.output e'.output)
      (ex.resolveThreshold s id) (ex.resolveThreshold s' id) := by
  have hentries : List.Forall₂ (fun e e' : QuestionId × QuestionDecision =>
      (e.1, ex.signature e.2) = (e'.1, ex.signature e'.2)) s.decisions.entries
      s'.decisions.entries := by
    have hmap := congrArg OrdMap.entries h.decisions
    simp only [OrdMap.mapValues] at hmap
    rwa [← List.forall₂_eq_eq_eq, List.forall₂_map_left_iff, List.forall₂_map_right_iff] at hmap
  have hmap : Result.Rel (List.Forall₂ (ResolutionAgree ex))
      (s.decisions.entries.mapM (ex.resolveOne s id))
      (s'.decisions.entries.mapM (ex.resolveOne s' id)) :=
    Result.Rel.mapM hentries fun e e' he => by
      rw [Prod.mk.injEq] at he
      exact resolveOne_agree hg h.state id he.1 he.2
  refine hmap.bind fun rs rs' hrs => .ok ?_
  obtain ⟨houtcomes, hfired⟩ := resolutions_agree hrs
  change OutputAgree ex (.resolved _ _) (.resolved _ _)
  rw [houtcomes]
  exact .resolved _ (finalReplacements_agree hfired)

end Walks

section Nodes

theorem execute_agree (hg : ∀ p, ex.guard p = .ok ()) (h : Agree ex s s') (spec : NodeSpec) :
    Result.Rel (fun e e' => OutputAgree ex e.output e'.output)
      (ex.execute s spec) (ex.execute s' spec) := by
  have hsame : ∀ {x y : EngineResult NodeExecution}, x = y →
      Result.Rel (fun e e' => OutputAgree ex e.output e'.output) x y :=
    Result.Rel.of_eq fun e => .same e.output
  have hdecide : ∀ kind, ex.decideQuestions s spec.id kind = ex.decideQuestions s' spec.id kind := by
    intro kind
    unfold decideQuestions
    rw [h.decideOne]
  unfold execute
  rw [hg]
  refine (Result.Rel.of_eq (fun _ => rfl) rfl).bind fun _ _ _ => ?_
  cases hk : spec.kind with
  | normalize => exact hsame (by simp [normalizeEntry, h.state])
  | rule => exact hsame (by rw [h.state])
  | cache => exact hsame rfl
  | filter =>
    refine hsame ?_
    simp only [filterCandidates, h.filterQuestion]
  | lexical =>
    refine hsame ?_
    simp only [scoreLexical, h.scoreQuestion]
  | embedding =>
    refine hsame ?_
    simp only [scoreSemantic, h.semanticQuestion]
  | retrieve =>
    refine hsame ?_
    simp only [retrieve, h.retrieveQuestion]
  | rerank =>
    refine hsame ?_
    simp only [rerankCandidates, h.rerankQuestion]
  | choice => exact hsame (hdecide .choice)
  | boolean => exact hsame (hdecide .boolean)
  | score => exact hsame (hdecide .score)
  | threshold => exact resolveThreshold_agree hg h spec.id
  | branch =>
    refine hsame ?_
    simp only [branchFires, h.state]
  | output => exact hsame rfl

end Nodes

section Merges

variable {g' : DecisionGraph}

theorem insertDecision_agree {m m' : OrdMap QuestionId QuestionDecision} {d d' : QuestionDecision}
    (h : m.mapValues (fun _ => ex.signature) = m'.mapValues fun _ => ex.signature)
    (hd : ex.signature d = ex.signature d') :
    (insertDecision m d).mapValues (fun _ => ex.signature) =
      (insertDecision m' d').mapValues fun _ => ex.signature := by
  simp only [insertDecision, OrdMap.mapValues_insert, h, hd, (signature_fields hd).2.2.1]

theorem foldl_insertDecision_agree {m m' : OrdMap QuestionId QuestionDecision}
    {ds ds' : List QuestionDecision}
    (h : m.mapValues (fun _ => ex.signature) = m'.mapValues fun _ => ex.signature)
    (hd : ds.map ex.signature = ds'.map ex.signature) :
    (ds.foldl insertDecision m).mapValues (fun _ => ex.signature) =
      (ds'.foldl insertDecision m').mapValues fun _ => ex.signature := by
  induction ds generalizing ds' m m' with
  | nil =>
    cases ds' with
    | nil => exact h
    | cons d' ds' => simp at hd
  | cons d ds ih =>
    cases ds' with
    | nil => simp at hd
    | cons d' ds' =>
      rw [List.map_cons, List.map_cons, List.cons.injEq] at hd
      rw [List.foldl_cons, List.foldl_cons]
      exact ih (insertDecision_agree h hd.1) hd.2

theorem foldl_patchDecision_agree {m m' : OrdMap QuestionId QuestionDecision}
    (outcomes : List (QuestionId × DecisionOutcome × Option Bool))
    (h : m.mapValues (fun _ => ex.signature) = m'.mapValues fun _ => ex.signature) :
    (outcomes.foldl patchDecision m).mapValues (fun _ => ex.signature) =
      (outcomes.foldl patchDecision m').mapValues fun _ => ex.signature := by
  induction outcomes generalizing m m' with
  | nil => exact h
  | cons r outcomes ih =>
    refine ih ?_
    have hpatch : ∀ m : OrdMap QuestionId QuestionDecision,
        (patchDecision m r).mapValues (fun _ => ex.signature) =
          (m.mapValues fun _ => ex.signature).modify r.1
            (fun e => (patch r.2.1 r.2.2 e.1, e.2)) :=
      fun m => OrdMap.mapValues_modify m _ r.1 _ _ fun _ _ => rfl
    rw [hpatch, hpatch, h]

theorem mergeScored_agree (h : Agree ex s s') (x : LexicalScores) :
    Agree ex (mergeScored s x) (mergeScored s' x) :=
  { h with
    lexical := by simp [mergeScored, h.lexical]
    unpruned := fun q c => by
      rw [Bool.eq_iff_iff, unpruned_mergeScored, unpruned_mergeScored, h.unpruned] }

theorem mergeRetrieved_agree (h : Agree ex s s')
    (x : QuestionId × List CandidateId × List CandidateId) :
    Agree ex (mergeRetrieved s x) (mergeRetrieved s' x) :=
  { h with
    reranked := by simp [mergeRetrieved, h.reranked]
    unpruned := fun q c => by
      rw [Bool.eq_iff_iff, unpruned_mergeRetrieved, unpruned_mergeRetrieved, h.unpruned] }

theorem foldl_agree {α : Type} {f : RunState → α → RunState}
    (hf : ∀ s s' a, Agree ex s s' → Agree ex (f s a) (f s' a)) (l : List α) (h : Agree ex s s') :
    Agree ex (l.foldl f s) (l.foldl f s') := by
  induction l generalizing s s' with
  | nil => exact h
  | cons a l ih => exact ih (hf _ _ a h)

theorem markSkipped_agree (ex' : Executor) (s : RunState) (ids : List NodeId) :
    Agree ex (ids.foldl ex'.markSkipped s) s := by
  induction ids generalizing s with
  | nil => exact .refl ex s
  | cons id ids ih => exact (ih _).trans (.of_fields rfl rfl rfl rfl rfl rfl rfl rfl rfl)

theorem merge_branched_agree (ex' : Executor) (s : RunState) (spec : NodeSpec) (fired : Bool) :
    Agree ex (ex'.merge s spec (.branched fired)) s := by
  cases fired with
  | true => exact .refl ex s
  | false => exact markSkipped_agree ex' s _

theorem Agree.symm (h : Agree ex s s') : Agree ex s' s :=
  ⟨h.state.symm, h.rules.symm, h.narrowing.symm, h.lexical.symm, h.semantic.symm,
    h.reranked.symm, fun q c => (h.unpruned q c).symm, h.decisions.symm⟩

/-- Merging what agrees into states that agree, whatever the graphs. -/
theorem merge_agree (g' : DecisionGraph) (h : Agree ex s s') (spec spec' : NodeSpec)
    {out out' : NodeOutput} (ho : OutputAgree ex out out') :
    Agree ex (ex.merge s spec out) ((ex.withGraph g').merge s' spec' out') := by
  cases ho with
  | resolved outcomes hr =>
    exact { h with
      decisions := foldl_patchDecision_agree outcomes (foldl_insertDecision_agree h.decisions hr) }
  | same =>
    cases out with
    | inert => exact h
    | rules report => exact { h with state := by simp [merge, h.state], rules := rfl }
    | filtered outcomes => exact { h with narrowing := by simp [merge, h.narrowing] }
    | scored scores => exact foldl_agree (fun _ _ a h => mergeScored_agree h a) scores h
    | decided ds focus =>
      exact { h with decisions := foldl_insertDecision_agree h.decisions rfl }
    | resolved outcomes rs =>
      exact { h with
        decisions := foldl_patchDecision_agree outcomes
          (foldl_insertDecision_agree h.decisions rfl) }
    | branched fired =>
      exact (merge_branched_agree ex s spec fired).trans
        (h.trans (merge_branched_agree (ex.withGraph g') s' spec' fired).symm)
    | semantic scores => exact { h with semantic := by simp [merge, h.semantic] }
    | retrieved prunes => exact foldl_agree (fun _ _ a h => mergeRetrieved_agree h a) prunes h
    | reranked orders => exact { h with reranked := by simp [merge, h.reranked] }

theorem mergeExecution_agree (g' : DecisionGraph) (h : Agree ex s s') (spec spec' : NodeSpec)
    {e e' : NodeExecution} (ho : OutputAgree ex e.output e'.output) :
    Agree ex (ex.mergeExecution s spec e) ((ex.withGraph g').mergeExecution s' spec' e') :=
  have htrace : ∀ s entries, Agree ex { s with trace := entries } s := fun _ _ =>
    .of_fields rfl rfl rfl rfl rfl rfl rfl rfl rfl
  merge_agree g' ((htrace s _).trans (h.trans (htrace s' _).symm)) spec spec' ho

end Merges

section Verdicts

def GraphOutcome.verdict (o : GraphOutcome) :
    List DecisionAnswer × List (QuestionId × DecisionOutcome) × DecisionOutcome :=
  (o.answers, o.outcomes, o.outcome)

/-- States that agree ship the same verdict. -/
theorem assemble_agree (g' : DecisionGraph) (h : Agree ex s s') :
    (ex.assemble s).verdict = ((ex.withGraph g').assemble s').verdict := by
  have hfields : ∀ {β : Type} (f : QuestionDecision × DecisionPolicy → β) (q : QuestionId),
      (s.decisions.get? q).map (fun d => f (ex.signature d)) =
        (s'.decisions.get? q).map fun d => f (ex.signature d) := by
    intro β f q
    have hq := congrArg (Option.map f) (h.get?_signature q)
    rw [Option.map_map, Option.map_map] at hq
    exact hq
  have hanswer : shippedAnswer s = shippedAnswer s' := by
    funext question
    have hread : ∀ s : RunState, shippedAnswer s question =
        ((s.decisions.get? question.id).map fun d => if (ex.signature d).1.abstained.isSome then
          none else some (ex.signature d).1.answer).getD none := by
      intro s
      unfold shippedAnswer
      cases s.decisions.get? question.id with
      | none => rfl
      | some d => rfl
    rw [hread, hread, hfields fun p => if p.1.abstained.isSome then none else some p.1.answer]
  have houtcome : questionOutcome s = questionOutcome s' := by
    funext question
    have hq := hfields (fun p => p.1.outcome) question.id
    simp only [questionOutcome, Prod.mk.injEq, true_and]
    exact congrArg (fun o => o.getD .abstain) hq
  have hconfidence : confidenceOf s = confidenceOf s' := by
    funext q
    exact congrArg (fun o => o.getD 1) (hfields (fun p => p.1.report.calibratedConfidence) q)
  have hkey : conservativeKey s = conservativeKey s' := by
    funext entry
    simp only [conservativeKey, hconfidence]
  have hoverall : ex.overallOutcome s = (ex.withGraph g').overallOutcome s' := by
    unfold overallOutcome conservative
    rw [h.narrowing, hkey, houtcome]
    rfl
  simp only [GraphOutcome.verdict, assemble, hoverall, hanswer, houtcome]
  rfl

end Verdicts

end OpenCodifier.Executor
