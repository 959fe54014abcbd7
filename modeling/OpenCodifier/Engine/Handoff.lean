import OpenCodifier.Engine.Sample
import OpenCodifier.Engine.Effects
set_option autoImplicit false

namespace OpenCodifier.Executor

section Folds

theorem foldl_mergeScored_narrowing (scores : List LexicalScores) (s : RunState) :
    (scores.foldl mergeScored s).narrowing = s.narrowing := by
  induction scores generalizing s with
  | nil => rfl
  | cons x scores ih => exact ih _

theorem foldl_mergeScored_lexical {scores : List LexicalScores} {s : RunState} {q : QuestionId}
    {scored : LexicalScores} (h : (scores.foldl mergeScored s).lexical.get? q = some scored) :
    (scored ∈ scores ∧ scored.questionId = q) ∨ s.lexical.get? q = some scored := by
  induction scores generalizing s with
  | nil => exact Or.inr h
  | cons x scores ih =>
    rcases ih h with ⟨hm, hq⟩ | hs
    · exact Or.inl ⟨List.mem_cons_of_mem _ hm, hq⟩
    · simp only [mergeScored, OrdMap.get?_insert] at hs
      split at hs
      · rename_i hq
        cases hs
        exact Or.inl ⟨List.mem_cons_self, hq.symm⟩
      · exact Or.inr hs

theorem foldl_mergeRetrieved_frame
    (prunes : List (QuestionId × List CandidateId × List CandidateId)) (s : RunState) :
    (prunes.foldl mergeRetrieved s).narrowing = s.narrowing ∧
      (prunes.foldl mergeRetrieved s).lexical = s.lexical := by
  induction prunes generalizing s with
  | nil => exact ⟨rfl, rfl⟩
  | cons x prunes ih => exact ih _

end Folds

section Runs

variable [RustStd] {ex : Executor}

theorem mergeExecution_narrowing {snap s : RunState} {spec : NodeSpec} {e : NodeExecution}
    (he : Executed ex snap spec e) (hk : spec.kind ≠ .filter) :
    (ex.mergeExecution s spec e).narrowing = s.narrowing := by
  cases he with
  | filter h => exact absurd h hk
  | lexical => exact foldl_mergeScored_narrowing _ _
  | embedding _ h =>
    obtain ⟨scores, ho⟩ := scoreSemantic_output h
    rw [mergeExecution, ho]
    rfl
  | retrieve _ h =>
    obtain ⟨prunes, ho⟩ := retrieve_output h
    rw [mergeExecution, ho]
    exact (foldl_mergeRetrieved_frame _ _).1
  | rerank _ h =>
    obtain ⟨orders, ho⟩ := rerank_output h
    rw [mergeExecution, ho]
    rfl
  | decide _ h =>
    obtain ⟨ds, focus, ho, -⟩ := mem_decided h
    rw [mergeExecution, ho]
    rfl
  | threshold _ h =>
    obtain ⟨resolutions, -, h⟩ := Result.bind_ok.mp h
    cases h
    rfl
  | branch => exact merge_branched RunState.narrowing (fun _ _ => rfl) _
  | _ => rfl

/-- A narrowing that is stored after a step is that of a question of the request by a filter, or was
stored. -/
theorem narrowing_after {st : MergeStep} (hp : ex.machine.Produces st.snapshot st.node st.output)
    {q : QuestionId} {o : NarrowingOutcome}
    (ho : (ex.machine.after st).narrowing.get? q = some o) :
    (∃ choice ∈ choiceQuestions ex.request, choice.id = q ∧
      o = filterQuestion st.snapshot choice) ∨ st.before.narrowing.get? q = some o := by
  have he := executed_of_produces hp
  by_cases hk : st.node.kind = .filter
  · have hnarrowing : (ex.machine.after st).narrowing =
        ((choiceQuestions ex.request).map (filterQuestion st.snapshot)).foldl
          (fun m o => m.insert o.questionId o) st.before.narrowing := by
      change (ex.mergeExecution st.before st.node st.output).narrowing = _
      rw [filter_of_executed he hk]
      rfl
    rw [hnarrowing] at ho
    rcases OrdMap.get?_foldl_insert_cases ho with ⟨o', hmem, hq, rfl⟩ | ⟨hold, -⟩
    · obtain ⟨choice, hc, rfl⟩ := List.mem_map.mp hmem
      exact .inl ⟨choice, hc, hq, rfl⟩
    · exact .inr hold
  · have hsame : (ex.machine.after st).narrowing = st.before.narrowing :=
      mergeExecution_narrowing he hk
    exact .inr (hsame ▸ ho)

theorem mergeExecution_lexical {snap s : RunState} {spec : NodeSpec} {e : NodeExecution}
    (he : Executed ex snap spec e) (hk : spec.kind ≠ .lexical) :
    (ex.mergeExecution s spec e).lexical = s.lexical := by
  cases he with
  | lexical h => exact absurd h hk
  | embedding _ h =>
    obtain ⟨scores, ho⟩ := scoreSemantic_output h
    rw [mergeExecution, ho]
    rfl
  | retrieve _ h =>
    obtain ⟨prunes, ho⟩ := retrieve_output h
    rw [mergeExecution, ho]
    exact (foldl_mergeRetrieved_frame _ _).2
  | rerank _ h =>
    obtain ⟨orders, ho⟩ := rerank_output h
    rw [mergeExecution, ho]
    rfl
  | decide _ h =>
    obtain ⟨ds, focus, ho, -⟩ := mem_decided h
    rw [mergeExecution, ho]
    rfl
  | threshold _ h =>
    obtain ⟨resolutions, -, h⟩ := Result.bind_ok.mp h
    cases h
    rfl
  | branch => exact merge_branched RunState.lexical (fun _ _ => rfl) _
  | _ => rfl

theorem lexical_of_executed {s : RunState} {spec : NodeSpec} {e : NodeExecution}
    (h : Executed ex s spec e) (hk : spec.kind = .lexical) : e = ex.scoreLexical s spec.id := by
  cases h with
  | lexical => rfl
  | decide hd _ => simp [hk] at hd
  | _ hd => simp [hk] at hd

def survivors (s : RunState) (q : QuestionId) : Option (List Candidate) :=
  (s.narrowing.get? q).map NarrowingOutcome.surviving

/-- Every index in the lexical map was built from the current survivors. -/
def IndexCurrent (s : RunState) : Prop :=
  ∀ q scored index, s.lexical.get? q = some scored → scored.index = some index →
    ∃ surviving, survivors s q = some surviving ∧
      index = Lexical.Bm25Index.new (surviving.map Candidate.description)

/-- The step does not change the survivors of a question that is already scored,
and scores only survivors that are still current. -/
structure NarrowingSettled (ex : Executor) (st : MergeStep) : Prop where
  kept : ∀ q scored, st.before.lexical.get? q = some scored →
    survivors (ex.machine.after st) q = survivors st.before q
  current : st.node.kind = .lexical → ∀ q, survivors st.snapshot q = survivors st.before q

theorem scoreQuestion_some {s : RunState} {choice : ChoiceQuestion} {scored : LexicalScores}
    (h : ex.scoreQuestion s choice = some scored) :
    scored.questionId = choice.id ∧ ∃ surviving, survivors s choice.id = some surviving ∧
      scored.index = some (Lexical.Bm25Index.new (surviving.map Candidate.description)) := by
  unfold scoreQuestion at h
  obtain ⟨outcome, ho, h⟩ := Option.bind_eq_some_iff.mp h
  obtain ⟨narrowed, hn, h⟩ := Option.bind_eq_some_iff.mp h
  cases h
  have hid := (outcome.narrowedQuestion_some hn).1
  refine ⟨?_, outcome.surviving, by simp [survivors, ho], ?_⟩
  · unfold pruneScores
    split <;> simp [LexicalScores.score, hid]
  · unfold pruneScores
    split <;> simp [LexicalScores.score]

theorem indexCurrent_after {st : MergeStep}
    (hp : ex.machine.Produces st.snapshot st.node st.output) (hs : NarrowingSettled ex st)
    (hb : IndexCurrent st.before) : IndexCurrent (ex.machine.after st) := by
  have he := executed_of_produces hp
  intro q scored index hq hi
  by_cases hk : st.node.kind = .lexical
  · have hnarrow : survivors (ex.machine.after st) q = survivors st.before q := by
      have hf : st.node.kind ≠ .filter := by rw [hk]; decide
      exact congrArg (fun m => (m.get? q).map NarrowingOutcome.surviving)
        (mergeExecution_narrowing (s := st.before) he hf)
    rw [hnarrow]
    have ho := lexical_of_executed he hk
    have hl : (ex.machine.after st).lexical =
        (((choiceQuestions ex.request).filterMap (ex.scoreQuestion st.snapshot)).foldl mergeScored
          { st.before with trace := st.before.trace ++ st.output.entries }).lexical := by
      change (ex.mergeExecution st.before st.node st.output).lexical = _
      rw [mergeExecution, ho]
      rfl
    rw [hl] at hq
    rcases foldl_mergeScored_lexical hq with ⟨hm, rfl⟩ | hold
    · obtain ⟨choice, -, hc⟩ := List.mem_filterMap.mp hm
      obtain ⟨hid, surviving, hsv, hix⟩ := scoreQuestion_some hc
      rw [hix] at hi
      cases hi
      exact ⟨surviving, by rw [← hs.current hk, hid, hsv], rfl⟩
    · exact hb q scored index hold hi
  · have hl : (ex.machine.after st).lexical = st.before.lexical := mergeExecution_lexical he hk
    rw [hl] at hq
    rw [hs.kept q scored hq]
    exact hb q scored index hq hi

section Prepared

/-- The abstain candidate does not stand in for a pruned declared candidate of
another description. -/
def NoShadow (s : RunState) (choice : ChoiceQuestion) (abstain : Option AbstainCandidate) : Prop :=
  ∀ candidate ∈ abstain, ∀ surviving, survivors s choice.id = some surviving →
    ∀ c ∈ surviving, c.id.text = candidate.id →
      c.description = candidate.description ∨ s.unpruned choice.id c.id = true

omit [RustStd] in
theorem mem_withAbstain {abstain : Option AbstainCandidate} {candidates out : List Candidate}
    (h : RunState.withAbstain abstain candidates = some out) {c : Candidate} (hc : c ∈ out) :
    c ∈ candidates ∨ ∃ candidate ∈ abstain, c.id.text = candidate.id ∧
      c.description = candidate.description ∧ ∀ c' ∈ candidates, c'.id.text ≠ candidate.id := by
  unfold RunState.withAbstain at h
  split at h
  · cases h
    exact Or.inl hc
  · rename_i candidate
    split at h
    · cases h
      exact Or.inl hc
    · rename_i hnone
      obtain ⟨extra, he, rfl⟩ := Option.map_eq_some_iff.mp h
      rcases List.mem_append.mp hc with hc | hc
      · exact Or.inl hc
      · rw [List.mem_singleton.mp hc]
        have hnew := Result.toOption_eq_some.mp he
        obtain ⟨id, hid, hx⟩ := Result.bind_ok.mp hnew
        cases hx
        refine Or.inr ⟨candidate, rfl, Ident.new_ok hid, rfl, ?_⟩
        intro c' hc' heq
        exact hnone (List.any_eq_true.mpr ⟨c', hc', decide_eq_true heq⟩)

omit [RustStd] in
theorem prepareQuestion_choice {s : RunState} {choice narrowed : ChoiceQuestion}
    {abstain : Option AbstainCandidate} {surviving : List Candidate}
    (hs : survivors s choice.id = some surviving)
    (h : s.prepareQuestion (.choice choice) abstain = some (.choice narrowed)) :
    (surviving.map Candidate.id).Nodup ∧
      RunState.withAbstain abstain (s.reorder choice.id
        (surviving.filter fun c => s.unpruned choice.id c.id)) = some narrowed.candidates := by
  obtain ⟨nc, hn, h⟩ := Option.bind_eq_some_iff.mp h
  obtain ⟨outcome, ho, rfl⟩ := Option.map_eq_some_iff.mp hs
  rw [RunState.narrowedChoice, ho] at hn
  dsimp only at hn
  split at hn
  · cases hn
  · obtain ⟨-, -, hcand⟩ := outcome.narrowedQuestion_some hn
    dsimp only at h
    split at h
    · cases h
    · obtain ⟨out, hout, h⟩ := Option.bind_eq_some_iff.mp h
      obtain ⟨rebuilt, hr, h⟩ := Option.bind_eq_some_iff.mp h
      cases h
      obtain ⟨-, -, hc⟩ := ChoiceQuestion.new_ok (Result.toOption_eq_some.mp hr)
      rw [← hcand, hc]
      exact ⟨nc.unique, hout⟩

omit [RustStd] in
theorem mem_reorder {s : RunState} {q : QuestionId} {candidates : List Candidate} {c : Candidate} :
    c ∈ s.reorder q candidates ↔ c ∈ candidates := by
  unfold RunState.reorder
  split
  · exact List.mem_insertionSort _
  · exact Iff.rfl

omit [RustStd] in
theorem eq_of_map_eq {α β : Type} {f : α → β} {l l' : List α} (h : l.map f = l'.map f)
    (hinj : ∀ a ∈ l, ∀ b ∈ l', f a = f b → a = b) : l = l' := by
  induction l generalizing l' with
  | nil =>
    rw [List.map_nil, eq_comm, List.map_eq_nil_iff] at h
    exact h.symm
  | cons a l ih =>
    cases l' with
    | nil => cases h
    | cons b l' =>
      rw [List.map_cons, List.map_cons, List.cons.injEq] at h
      rw [hinj a List.mem_cons_self b List.mem_cons_self h.1, ih h.2 fun x hx y hy =>
        hinj x (List.mem_cons_of_mem _ hx) y (List.mem_cons_of_mem _ hy)]

omit [RustStd] in
theorem prepared_eq_survivors {s : RunState} {choice narrowed : ChoiceQuestion}
    {abstain : Option AbstainCandidate} {surviving : List Candidate}
    (hs : survivors s choice.id = some surviving)
    (h : s.prepareQuestion (.choice choice) abstain = some (.choice narrowed))
    (hshadow : NoShadow s choice abstain)
    (hids : surviving.map Candidate.id = narrowed.candidates.map Candidate.id) :
    narrowed.candidates = surviving := by
  obtain ⟨hnodup, hout⟩ := prepareQuestion_choice hs h
  refine eq_of_map_eq hids.symm fun c hc c' hc' heq => ?_
  rcases mem_withAbstain hout hc with hm | ⟨candidate, hab, hid, hdesc, hnone⟩
  · have hmem : c ∈ surviving := (List.mem_filter.mp (mem_reorder.mp hm)).1
    exact List.inj_on_of_nodup_map hnodup hmem hc' heq
  · have hid' : c'.id.text = candidate.id := heq ▸ hid
    rcases hshadow candidate hab surviving hs c' hc' hid' with hd | hkept
    · obtain ⟨cid, cdesc⟩ := c
      obtain ⟨cid', cdesc'⟩ := c'
      cases heq
      cases hdesc.trans hd.symm
      rfl
    · exact absurd hid'
        (hnone c' (mem_reorder.mpr (List.mem_filter.mpr ⟨hc', hkept⟩)))

end Prepared

section Handoff

theorem decideWithSupport_fresh (state : State) (narrowed : ChoiceQuestion) :
    LexicalClassifier.decideWithSupport state (.choice narrowed)
        (some (Lexical.Bm25Index.new (narrowed.candidates.map Candidate.description))) =
      LexicalClassifier.decideWithSupport state (.choice narrowed) none := by
  simp only [LexicalClassifier.decideWithSupport, LexicalClassifier.decideChoiceWithSupport,
    LexicalClassifier.usableIndex]
  split <;> rfl

/-- An index is handed off only when it is the one a classifier would build. -/
theorem lexicalHandoff_eq {s : RunState} (hi : IndexCurrent s) {question narrowed : DecisionQuestion}
    {abstain : Option AbstainCandidate} {index : Lexical.Bm25Index}
    (hp : s.prepareQuestion question abstain = some narrowed)
    (hshadow : ∀ choice, question = .choice choice → NoShadow s choice abstain)
    (h : s.lexicalHandoff question narrowed = some index) :
    ∃ choice, narrowed = .choice choice ∧
      index = Lexical.Bm25Index.new (choice.candidates.map Candidate.description) := by
  unfold RunState.lexicalHandoff at h
  split at h
  · rename_i choice narrowedChoice
    split at h
    · rename_i outcome scores ho hsc
      split at h
      · rename_i ix hix
        split at h
        · rename_i hids
          cases h
          obtain ⟨surviving, hs, rfl⟩ := hi choice.id scores index hsc hix
          have hsv : survivors s choice.id = some outcome.surviving := by simp [survivors, ho]
          rw [hsv] at hs
          cases hs
          refine ⟨narrowedChoice, rfl, ?_⟩
          rw [prepared_eq_survivors hsv hp (hshadow choice rfl) hids]
        · cases h
      · cases h
    · cases h
  · cases h

/-- In every state of a run whose steps are settled, also of one that fails later, a handed-off
index was built from the deciding list, so deciding with it is deciding with a fresh index. -/
theorem handoff_fresh {steps : List MergeStep} {snap cur : RunState}
    (h : Waves.Trace ex.machine steps snap cur) (hsettled : ∀ st ∈ steps, NarrowingSettled ex st) :
    ∀ s, (s = snap ∨ s = cur ∨ ∃ st ∈ steps, s = st.snapshot ∨ s = st.before) →
      ∀ question abstain narrowed index, s.prepareQuestion question abstain = some narrowed →
        (∀ choice, question = .choice choice → NoShadow s choice abstain) →
        s.lexicalHandoff question narrowed = some index →
        (∃ choice, narrowed = .choice choice ∧
          index = Lexical.Bm25Index.new (choice.candidates.map Candidate.description)) ∧
        ∀ state, LexicalClassifier.decideWithSupport state narrowed (some index) =
          LexicalClassifier.decideWithSupport state narrowed none := by
  have hstart : IndexCurrent ex.machine.start := fun _ _ _ hq _ => by cases hq
  intro s hs question abstain narrowed index hp hshadow hindex
  have hi : IndexCurrent s := h.invariant_states IndexCurrent hstart
    (fun st hst hp _ hb => indexCurrent_after hp (hsettled st hst) hb) hs
  obtain ⟨choice, rfl, rfl⟩ := lexicalHandoff_eq hi hp hshadow hindex
  exact ⟨⟨choice, rfl, rfl⟩, fun state => decideWithSupport_fresh state choice⟩

end Handoff

end Runs

section Sample

attribute [local instance] plainStd

/-- A rule that takes `refund` away once `seen` is set, and one that sets it and
takes `billing` away until then. -/
def seenRules : RuleEngine :=
  ⟨[{ name := none, when' := .factExists "seen", then' := [.excludeCandidate (some "refund") none] },
    { name := none, when' := .not (.factExists "seen")
      then' := [.setFact "seen" (.boolean true), .excludeCandidate (some "billing") none] }],
    by decide⟩

def narrowingExecutor (nodes : List NodeSpec)
    (h : (DecisionGraph.new 1 nodes).toOption.isSome = true := by decide +kernel) : Executor :=
  let ex := Sample.executor (Sample.graph nodes h)
    (Sample.request [Sample.choice "q" ["billing", "refund", "login"]] .defaults)
    (LexicalClassifier.classifier "lexical") none []
  { ex with config := { ex.config with rules := seenRules } }

def settledExecutor : Executor :=
  narrowingExecutor [Sample.node "in" .normalize [], Sample.node "rules" .rule ["in"],
    Sample.node "filter" .filter ["rules"], Sample.node "scores" .lexical ["filter"],
    Sample.node "judge" .choice ["scores"], Sample.node "out" .output ["judge"]]

/-- The index that the deciding node is handed covers its candidates. -/
theorem handoff_fresh_settled :
    ∃ final steps narrowed index, Waves.Trace settledExecutor.machine steps final final ∧
      final.prepareQuestion (Sample.choice "q" ["billing", "refund", "login"]) none =
        some narrowed ∧
      final.lexicalHandoff (Sample.choice "q" ["billing", "refund", "login"]) narrowed =
        some index ∧
      (∃ choice, narrowed = .choice choice ∧
        index = Lexical.Bm25Index.new (choice.candidates.map Candidate.description)) ∧
      ∀ state, LexicalClassifier.decideWithSupport state narrowed (some index) =
        LexicalClassifier.decideWithSupport state narrowed none := by
  obtain ⟨final, hrun⟩ := Result.ok_of_isSome
    (by decide +kernel : settledExecutor.runState.toOption.isSome = true)
  obtain ⟨steps, hsteps, ht⟩ := runState_trace hrun
  have hall : (settledExecutor.steps.toOption.getD []).all (fun st =>
      (st.before.lexical = OrdMap.empty ∨
        (settledExecutor.machine.after st).narrowing = st.before.narrowing) ∧
      (st.node.kind = .lexical → st.snapshot.narrowing = st.before.narrowing)) = true := by
    decide +kernel
  rw [hsteps] at hall
  have hsettled : ∀ st ∈ steps, NarrowingSettled settledExecutor st := by
    intro st hst
    obtain ⟨hkept, hcur⟩ := of_decide_eq_true (List.all_eq_true.mp hall st hst)
    refine ⟨fun q scored hq => ?_, fun hk q => by rw [survivors, survivors, hcur hk]⟩
    rcases hkept with hempty | hsame
    · rw [hempty] at hq
      cases hq
    · rw [survivors, survivors, hsame]
  have hgiven : (settledExecutor.runState.toOption.bind fun s =>
      (s.prepareQuestion (Sample.choice "q" ["billing", "refund", "login"]) none).bind
        (s.lexicalHandoff (Sample.choice "q" ["billing", "refund", "login"]))).isSome = true := by
    decide +kernel
  obtain ⟨index, hgiven⟩ := Option.isSome_iff_exists.mp hgiven
  rw [hrun] at hgiven
  obtain ⟨narrowed, hp, hindex⟩ := Option.bind_eq_some_iff.mp
    ((Option.bind_some final _).symm.trans hgiven)
  exact ⟨final, steps, narrowed, index, ht, hp, hindex, handoff_fresh ht hsettled final
    (Or.inr (Or.inl rfl)) _ none narrowed index hp (fun _ _ _ hc => by cases hc) hindex⟩

/-- Rules and filter run once more after the lexical scores. -/
def refilteredExecutor : Executor :=
  narrowingExecutor [Sample.node "in" .normalize [], Sample.node "rules" .rule ["in"],
    Sample.node "filter" .filter ["rules"], Sample.node "scores" .lexical ["filter"],
    Sample.node "rules2" .rule ["scores"], Sample.node "filter2" .filter ["rules2"],
    Sample.node "judge" .choice ["filter2"], Sample.node "out" .output ["judge"]]

/-- The deciding node is handed an index that was not built from its candidates. -/
theorem handoff_stale :
    (refilteredExecutor.steps.toOption.getD []).any (fun st =>
      st.node.kind = .choice &&
        match st.snapshot.prepareQuestion (Sample.choice "q" ["billing", "refund", "login"])
          none with
        | some (.choice narrowed) =>
          (st.snapshot.lexicalHandoff (Sample.choice "q" ["billing", "refund", "login"])
            (.choice narrowed)).any fun index =>
              index ≠ Lexical.Bm25Index.new (narrowed.candidates.map Candidate.description)
        | _ => false) = true ∧
    refilteredExecutor.runState.toOption.isSome = true := by
  decide +kernel

end Sample

end OpenCodifier.Executor
