import OpenCodifier.Engine.Handoff
set_option autoImplicit false

namespace OpenCodifier.Executor

section Prunes

def prunes (s : RunState) (q : QuestionId) : List CandidateId :=
  (s.prunedLexically.get? q).getD [] ++ (s.prunedSemantically.get? q).getD []

def prunedBy (q : QuestionId) : NodeOutput → List CandidateId
  | .scored scores => (scores.filter fun scored => scored.questionId = q).flatMap fun scored =>
      scored.pruned
  | .retrieved prunes => (prunes.filter fun prune => prune.1 = q).flatMap fun prune => prune.2.1
  | _ => []

theorem mem_inPlay {s : RunState} {choice : ChoiceQuestion} {c : Candidate} :
    c ∈ s.candidatesInPlay choice ↔
      c ∈ s.baseCandidates choice ∧ c.id ∉ prunes s choice.id := by
  simp [RunState.candidatesInPlay, RunState.unpruned, prunes]

theorem mem_prunes_scored (scores : List LexicalScores) (s : RunState) {q : QuestionId}
    {c : CandidateId} : c ∈ prunes (scores.foldl mergeScored s) q ↔
      c ∈ prunes s q ∨ c ∈ prunedBy q (.scored scores) := by
  induction scores generalizing s with
  | nil => simp [prunedBy]
  | cons scored scores ih =>
    rw [List.foldl_cons, ih]
    simp only [prunes, mergeScored, List.mem_append, mem_extendPruned, prunedBy, List.filter_cons]
    by_cases hq : scored.questionId = q
    · simp only [hq, true_and, decide_true, if_true, List.flatMap_cons, List.mem_append]
      tauto
    · simp [hq, Ne.symm hq]

theorem mem_prunes_retrieved (dropped : List (QuestionId × List CandidateId × List CandidateId))
    (s : RunState) {q : QuestionId} {c : CandidateId} :
    c ∈ prunes (dropped.foldl mergeRetrieved s) q ↔
      c ∈ prunes s q ∨ c ∈ prunedBy q (.retrieved dropped) := by
  induction dropped generalizing s with
  | nil => simp [prunedBy]
  | cons prune dropped ih =>
    rw [List.foldl_cons, ih]
    simp only [prunes, mergeRetrieved, List.mem_append, mem_extendPruned, prunedBy,
      List.filter_cons]
    by_cases hq : prune.1 = q
    · simp only [hq, true_and, decide_true, if_true, List.flatMap_cons, List.mem_append]
      tauto
    · simp [hq, Ne.symm hq]

end Prunes

section Runs

variable [RustStd] {ex : Executor}

theorem mem_prunes_merge {s : RunState} {spec : NodeSpec} {e : NodeExecution} {q : QuestionId}
    {c : CandidateId} : c ∈ prunes (ex.mergeExecution s spec e) q ↔
      c ∈ prunes s q ∨ c ∈ prunedBy q e.output := by
  obtain ⟨output, entries⟩ := e
  rw [mergeExecution]
  cases output with
  | scored scores => exact mem_prunes_scored _ _
  | retrieved dropped => exact mem_prunes_retrieved _ _
  | branched fired =>
    have hkept : prunes (ex.merge { s with trace := s.trace ++ entries } spec (.branched fired)) q =
        prunes s q := merge_branched (fun s => prunes s q) (fun _ _ => rfl) fired
    simp [prunedBy, hkept]
  | _ => simp [prunedBy, prunes, merge]

section Keeps

omit [RustStd] in
theorem prune_keeps {scored : LexicalScores} (hempty : scored.pruned = [])
    (hne : scored.scores ≠ []) (hn : (scored.scores.map Prod.fst).Nodup) (keep : Nat) :
    ∃ e ∈ scored.scores, e.1 ∉ (scored.prune keep).pruned := by
  obtain ⟨first, hfirst⟩ := List.exists_mem_of_ne_nil _ hne
  unfold LexicalScores.prune
  split
  · exact ⟨first, hfirst, by simp [hempty]⟩
  · split
    · exact ⟨first, hfirst, by simp [hempty]⟩
    · rename_i last hlast
      have hmem := List.mem_of_getElem? hlast
      refine ⟨last, hmem, fun hpruned => ?_⟩
      obtain ⟨e, he, heq⟩ := List.mem_map.mp hpruned
      obtain ⟨he, hworse⟩ := List.mem_filter.mp he
      cases List.inj_on_of_nodup_map hn he hmem heq
      simp at hworse

/-- A lexical node keeps a candidate of every question that it scores. -/
theorem scoreQuestion_keeps {s : RunState} {choice : ChoiceQuestion} {scored : LexicalScores}
    (h : ex.scoreQuestion s choice = some scored) :
    ∃ c ∈ s.baseCandidates choice, c.id ∉ scored.pruned := by
  unfold scoreQuestion at h
  obtain ⟨outcome, ho, h⟩ := Option.bind_eq_some_iff.mp h
  obtain ⟨narrowed, hn, h⟩ := Option.bind_eq_some_iff.mp h
  cases h
  have hcandidates := (outcome.narrowedQuestion_some hn).2.2
  have hbase : s.baseCandidates choice = outcome.surviving := by
    rw [RunState.baseCandidates, ho]
  have hunique : (outcome.surviving.map Candidate.id).Nodup := hcandidates ▸ narrowed.unique
  have hsurviving : outcome.surviving ≠ [] := hcandidates ▸ narrowed.candidates_ne
  generalize LexicalClassifier.queryFor s.state (.choice choice) = query
  rw [hbase]
  set scored := LexicalScores.score narrowed outcome.surviving query with hscored
  have hids : (scored.scores.map Prod.fst).Perm (outcome.surviving.map Candidate.id) := by
    rw [hscored, LexicalScores.score]
    refine ((List.perm_insertionSort _ _).map _).trans (List.Perm.of_eq ?_)
    rw [List.map_fst_zip]
    rw [Lexical.Bm25Index.scoreAll_length, Lexical.Bm25Index.len_new, List.length_map,
      List.length_map]
  have hpruned : scored.pruned = [] := rfl
  have hne : scored.scores ≠ [] := by
    intro hnil
    rw [hnil] at hids
    exact hsurviving (List.map_eq_nil_iff.mp (List.nil_perm.mp hids))
  have hkept : ∃ e ∈ scored.scores, e.1 ∉ (ex.pruneScores scored).pruned := by
    unfold pruneScores
    split
    · exact prune_keeps hpruned hne (hids.nodup_iff.mpr hunique) _
    · obtain ⟨e, he⟩ := List.exists_mem_of_ne_nil _ hne
      exact ⟨e, he, by simp [hpruned]⟩
  obtain ⟨e, he, hnot⟩ := hkept
  obtain ⟨c, hc, hid⟩ := List.mem_map.mp (hids.mem_iff.mp (List.mem_map_of_mem he))
  exact ⟨c, hc, hid ▸ hnot⟩

omit [RustStd] in
theorem retrieveQuestion_id {s : RunState} {id : NodeId} {spec : NodeSpec} {choice : ChoiceQuestion}
    {r : (QuestionId × List CandidateId × List CandidateId) × List TraceEntry}
    (h : retrieveQuestion s id spec choice = .ok r) : r.1.1 = choice.id := by
  unfold retrieveQuestion at h
  dsimp only at h
  split at h
  · cases h
  · cases h
    rfl

omit [RustStd] in
/-- A retrieve node keeps a candidate of every question that has one in play. -/
theorem retrieveQuestion_keeps {s : RunState} {id : NodeId} {spec : NodeSpec}
    {choice : ChoiceQuestion}
    {r : (QuestionId × List CandidateId × List CandidateId) × List TraceEntry}
    (htop : spec.topN ≠ some 0) (h : retrieveQuestion s id spec choice = .ok r)
    (hplay : s.candidatesInPlay choice ≠ []) :
    ∃ c ∈ s.candidatesInPlay choice, c.id ∉ r.1.2.1 := by
  unfold retrieveQuestion at h
  dsimp only at h
  split at h
  · cases h
  · rename_i scores hscores
    cases h
    set ranked := scores.filter fun e =>
      e.1 ∈ (s.candidatesInPlay choice).map Candidate.id with hranked
    by_cases hnone : ranked = []
    · obtain ⟨c, hc⟩ := List.exists_mem_of_ne_nil _ hplay
      exact ⟨c, hc, by simp [hnone]⟩
    · have htopN : spec.topN.getD 1 ≠ 0 := by
        cases hn : spec.topN with
        | none => simp
        | some n =>
          rw [hn] at htop
          simpa using htop
      obtain ⟨e, he, hsub⟩ : ∃ e ∈ retrieveKept (spec.topN.getD 1) (spec.floor.getD 0) ranked,
          e ∈ ranked := by
        unfold retrieveKept
        dsimp only
        split
        · obtain ⟨e, rest, hcons⟩ := List.exists_cons_of_ne_nil hnone
          exact ⟨e, by simp [hcons], by simp [hcons]⟩
        · rename_i habove
          obtain ⟨e, rest, hcons⟩ := List.exists_cons_of_ne_nil habove
          have hmem : e ∈ ranked.filter fun e => spec.floor.getD 0 ≤ e.2 := by simp [hcons]
          refine ⟨e, ?_, (List.mem_filter.mp hmem).1⟩
          obtain ⟨n, hn⟩ := Nat.exists_eq_succ_of_ne_zero htopN
          rw [hcons, hn]
          exact List.mem_cons_self
      have hin : e.1 ∈ (s.candidatesInPlay choice).map Candidate.id := by
        simpa using (List.mem_filter.mp hsub).2
      obtain ⟨c, hc, hid⟩ := List.mem_map.mp hin
      refine ⟨c, hc, fun hdropped => ?_⟩
      obtain ⟨e', he', heq⟩ := List.mem_map.mp hdropped
      have hno := (List.mem_filter.mp he').2
      have hkeptId := List.mem_map_of_mem (f := Prod.fst) he
      rw [← hid, ← heq] at hkeptId
      simp [hkeptId] at hno

end Keeps

section Merges

variable {st : MergeStep}

theorem base_merge {snap s : RunState} {spec : NodeSpec} {e : NodeExecution}
    (he : Executed ex snap spec e) (hk : spec.kind ≠ .filter) (choice : ChoiceQuestion) :
    (ex.mergeExecution s spec e).baseCandidates choice = s.baseCandidates choice := by
  rw [RunState.baseCandidates, RunState.baseCandidates, mergeExecution_narrowing he hk]

theorem mem_prunedBy_lexical {s : RunState} {id : NodeId} {q : QuestionId} {c : CandidateId}
    (h : c ∈ prunedBy q (ex.scoreLexical s id).output) :
    ∃ other ∈ choiceQuestions ex.request, other.id = q ∧
      ∃ scored, ex.scoreQuestion s other = some scored ∧ c ∈ scored.pruned := by
  obtain ⟨scored, hscored, hc⟩ := List.mem_flatMap.mp h
  obtain ⟨hmem, hq⟩ := List.mem_filter.mp hscored
  obtain ⟨other, hother, hsome⟩ := List.mem_filterMap.mp hmem
  exact ⟨other, hother, (scoreQuestion_some hsome).1.symm.trans (of_decide_eq_true hq), scored,
    hsome, hc⟩

theorem mem_prunedBy_retrieve {s : RunState} {id : NodeId} {spec : NodeSpec} {e : NodeExecution}
    (he : ex.retrieve s id spec = .ok e) {q : QuestionId} {c : CandidateId}
    (h : c ∈ prunedBy q e.output) :
    ∃ other ∈ choiceQuestions ex.request, other.id = q ∧
      ∃ r, retrieveQuestion s id spec other = .ok r ∧ c ∈ r.1.2.1 := by
  obtain ⟨results, hresults, he⟩ := Result.bind_ok.mp he
  cases he
  obtain ⟨prune, hprune, hc⟩ := List.mem_flatMap.mp h
  obtain ⟨hmem, hq⟩ := List.mem_filter.mp hprune
  obtain ⟨r, hr, rfl⟩ := List.mem_map.mp hmem
  obtain ⟨other, hother, hok⟩ := Result.mem_of_mapM_ok hresults hr
  exact ⟨other, hother, (retrieveQuestion_id hok).symm.trans (of_decide_eq_true hq), r, hok, hc⟩

theorem retrieve_of_executed {s : RunState} {spec : NodeSpec} {e : NodeExecution}
    (h : Executed ex s spec e) (hk : spec.kind = .retrieve) :
    ex.retrieve s spec.id spec = .ok e := by
  cases h with
  | retrieve _ h => exact h
  | decide hd _ => simp [hk] at hd
  | _ hd => simp [hk] at hd

theorem prunedBy_other {s : RunState} {spec : NodeSpec} {e : NodeExecution}
    (he : Executed ex s spec e) (hl : spec.kind ≠ .lexical) (hr : spec.kind ≠ .retrieve)
    (q : QuestionId) : prunedBy q e.output = [] := by
  cases he with
  | lexical h => exact absurd h hl
  | retrieve h _ => exact absurd h hr
  | embedding _ h =>
    obtain ⟨scores, ho⟩ := scoreSemantic_output h
    rw [ho]
    rfl
  | rerank _ h =>
    obtain ⟨orders, ho⟩ := rerank_output h
    rw [ho]
    rfl
  | decide _ h =>
    obtain ⟨ds, focus, ho, -⟩ := mem_decided h
    rw [ho]
    rfl
  | threshold _ h =>
    obtain ⟨resolutions, -, h⟩ := Result.bind_ok.mp h
    cases h
    rfl
  | _ => rfl

/-- The candidates of a question that a pruning node reads: a lexical node scores what the filter
left, whatever is pruned. -/
def readBy (s : RunState) (kind : NodeKind) (choice : ChoiceQuestion) : List Candidate :=
  match kind with
  | .lexical => s.baseCandidates choice
  | _ => s.candidatesInPlay choice

/-- A prune that is merged into a question that is as the node read it, and no other question has
its id. -/
def Undisturbed (ex : Executor) (st : MergeStep) (choice : ChoiceQuestion) : Prop :=
  st.before.candidatesInPlay choice = readBy st.snapshot st.node.kind choice ∧
    ∀ other ∈ choiceQuestions ex.request, other.id = choice.id → other = choice

/-- Stages that narrow the same question without reading each other agree on a candidate: a filter
leaves one that is not pruned, and a prune of a question that has changed leaves one in play. -/
structure StagesAgree (ex : Executor) (st : MergeStep) : Prop where
  filter : st.node.kind = .filter → ∀ choice ∈ choiceQuestions ex.request,
    prunes st.before choice.id ≠ [] → (ex.machine.after st).baseCandidates choice ≠ [] →
    ∃ c ∈ (ex.machine.after st).baseCandidates choice, c.id ∉ prunes st.before choice.id
  prune : st.node.kind = .lexical ∨ st.node.kind = .retrieve →
    ∀ choice ∈ choiceQuestions ex.request, ¬ Undisturbed ex st choice →
    st.before.candidatesInPlay choice ≠ [] →
    ∃ c ∈ st.before.candidatesInPlay choice, c.id ∉ prunedBy choice.id st.output.output

/-- A merge that rivals no other: a filter finds nothing pruned yet, and a prune finds the questions
as its node read them. -/
structure Unrivalled (ex : Executor) (st : MergeStep) : Prop where
  filter : st.node.kind = .filter → ∀ choice ∈ choiceQuestions ex.request,
    prunes st.before choice.id = []
  prune : st.node.kind = .lexical ∨ st.node.kind = .retrieve →
    ∀ choice ∈ choiceQuestions ex.request, Undisturbed ex st choice

theorem stagesAgree_of_unrivalled (h : Unrivalled ex st) : StagesAgree ex st where
  filter hk choice hchoice hne := absurd (h.filter hk choice hchoice) hne
  prune hk choice hchoice hnot := absurd (h.prune hk choice hchoice) hnot

/-- Every choice question that the rules leave a candidate has one in play. -/
def InPlay (ex : Executor) (s : RunState) : Prop :=
  ∀ choice ∈ choiceQuestions ex.request, s.baseCandidates choice ≠ [] →
    s.candidatesInPlay choice ≠ []

theorem topN_ne_zero {spec : NodeSpec} (h : spec.validate = .ok ()) (hk : spec.kind = .retrieve) :
    spec.topN ≠ some 0 := by
  intro hzero
  obtain ⟨-, h⟩ := Result.bind_unit_ok.mp h
  obtain ⟨-, h⟩ := Result.bind_unit_ok.mp h
  obtain ⟨h, -⟩ := Result.bind_unit_ok.mp h
  rw [NodeSpec.validateRetrieve, if_pos hk, if_pos (.inl hzero)] at h
  cases h

/-- A prune of a question that is as the node read it leaves a candidate in play. -/
theorem undisturbed_keeps (hp : ex.machine.Produces st.snapshot st.node st.output)
    (hk : st.node.kind = .lexical ∨ st.node.kind = .retrieve) {choice : ChoiceQuestion}
    (hu : Undisturbed ex st choice) (hplay : st.before.candidatesInPlay choice ≠ []) :
    ∃ c ∈ st.before.candidatesInPlay choice, c.id ∉ prunedBy choice.id st.output.output := by
  have he := executed_of_produces hp
  obtain ⟨hread, hunique⟩ := hu
  obtain ⟨first, hfirst⟩ := List.exists_mem_of_ne_nil _ hplay
  rw [hread] at hplay hfirst ⊢
  rcases hk with hk | hk
  · rw [hk] at hplay hfirst ⊢
    rw [lexical_of_executed he hk]
    cases hs : ex.scoreQuestion st.snapshot choice with
    | none =>
      refine ⟨first, hfirst, fun hpruned => ?_⟩
      obtain ⟨other, hother, hid, scored, hscored, -⟩ := mem_prunedBy_lexical hpruned
      rw [hunique other hother hid, hs] at hscored
      cases hscored
    | some scored =>
      obtain ⟨c, hc, hkept⟩ := scoreQuestion_keeps hs
      refine ⟨c, hc, fun hpruned => hkept ?_⟩
      obtain ⟨other, hother, hid, scored', hscored, hmem⟩ := mem_prunedBy_lexical hpruned
      rw [hunique other hother hid, hs] at hscored
      cases hscored
      exact hmem
  · rw [hk] at hplay hfirst ⊢
    have hretrieve := retrieve_of_executed he hk
    have htop := topN_ne_zero (ex.config.graph.nodes_valid st.node hp.1) hk
    cases hr : retrieveQuestion st.snapshot st.node.id st.node choice with
    | error error =>
      refine ⟨first, hfirst, fun hpruned => ?_⟩
      obtain ⟨other, hother, hid, r, hok, -⟩ := mem_prunedBy_retrieve hretrieve hpruned
      rw [hunique other hother hid, hr] at hok
      cases hok
    | ok r =>
      obtain ⟨c, hc, hkept⟩ := retrieveQuestion_keeps htop hr hplay
      refine ⟨c, hc, fun hpruned => hkept ?_⟩
      obtain ⟨other, hother, hid, r', hok, hmem⟩ := mem_prunedBy_retrieve hretrieve hpruned
      rw [hunique other hother hid, hr] at hok
      cases hok
      exact hmem

/-- What is in play after a merge is what its survivors, the earlier prunes and its own prunes
leave. -/
theorem mem_inPlay_after {choice : ChoiceQuestion} {c : Candidate} :
    c ∈ (ex.machine.after st).candidatesInPlay choice ↔
      c ∈ (ex.machine.after st).baseCandidates choice ∧ c.id ∉ prunes st.before choice.id ∧
        c.id ∉ prunedBy choice.id st.output.output := by
  have hprunes : c.id ∈ prunes (ex.machine.after st) choice.id ↔ c.id ∈ prunes st.before choice.id ∨
      c.id ∈ prunedBy choice.id st.output.output := mem_prunes_merge
  rw [mem_inPlay, hprunes, not_or]

theorem inPlay_after (hp : ex.machine.Produces st.snapshot st.node st.output)
    (hagree : StagesAgree ex st) (hbefore : InPlay ex st.before) :
    InPlay ex (ex.machine.after st) := by
  intro choice hchoice hbase
  have he := executed_of_produces hp
  by_cases hf : st.node.kind = .filter
  · have hnone := prunedBy_other he (by simp [hf]) (by simp [hf]) choice.id
    obtain ⟨c, hc, hkept⟩ : ∃ c ∈ (ex.machine.after st).baseCandidates choice,
        c.id ∉ prunes st.before choice.id := by
      by_cases hprunes : prunes st.before choice.id = []
      · obtain ⟨c, hc⟩ := List.exists_mem_of_ne_nil _ hbase
        exact ⟨c, hc, by simp [hprunes]⟩
      · exact hagree.filter hf choice hchoice hprunes hbase
    exact List.ne_nil_of_mem (mem_inPlay_after.mpr ⟨hc, hkept, by simp [hnone]⟩)
  · have hsame : (ex.machine.after st).baseCandidates choice = st.before.baseCandidates choice :=
      base_merge he hf choice
    rw [hsame] at hbase
    have hplay := hbefore choice hchoice hbase
    obtain ⟨c, hc, hkept⟩ : ∃ c ∈ st.before.candidatesInPlay choice,
        c.id ∉ prunedBy choice.id st.output.output := by
      by_cases hk : st.node.kind = .lexical ∨ st.node.kind = .retrieve
      · by_cases hu : Undisturbed ex st choice
        · exact undisturbed_keeps hp hk hu hplay
        · exact hagree.prune hk choice hchoice hu hplay
      · obtain ⟨c, hc⟩ := List.exists_mem_of_ne_nil _ hplay
        rw [not_or] at hk
        exact ⟨c, hc, by simp [prunedBy_other he hk.1 hk.2]⟩
    obtain ⟨hcbase, hunpruned⟩ := mem_inPlay.mp hc
    exact List.ne_nil_of_mem (mem_inPlay_after.mpr ⟨hsame ▸ hcbase, hunpruned, hkept⟩)

theorem stagesAgree_of_inPlay (hp : ex.machine.Produces st.snapshot st.node st.output)
    (hafter : InPlay ex (ex.machine.after st)) : StagesAgree ex st := by
  have he := executed_of_produces hp
  refine ⟨fun _ choice hchoice _ hbase => ?_, fun hk choice hchoice _ hplay => ?_⟩
  · obtain ⟨c, hc⟩ := List.exists_mem_of_ne_nil _ (hafter choice hchoice hbase)
    obtain ⟨hcbase, hunpruned, -⟩ := mem_inPlay_after.mp hc
    exact ⟨c, hcbase, hunpruned⟩
  · have hf : st.node.kind ≠ .filter := by
      rcases hk with hk | hk <;> simp [hk]
    have hsame : (ex.machine.after st).baseCandidates choice = st.before.baseCandidates choice :=
      base_merge he hf choice
    obtain ⟨first, hfirst⟩ := List.exists_mem_of_ne_nil _ hplay
    have hbase := List.ne_nil_of_mem (mem_inPlay.mp hfirst).1
    obtain ⟨c, hc⟩ := List.exists_mem_of_ne_nil _ (hafter choice hchoice (hsame ▸ hbase))
    obtain ⟨hcbase, hunpruned, hkept⟩ := mem_inPlay_after.mp hc
    exact ⟨c, mem_inPlay.mpr ⟨hsame ▸ hcbase, hunpruned⟩, hkept⟩

end Merges

section Prepared

def FilteredApart (s : RunState) : Prop :=
  ∀ q outcome, s.narrowing.get? q = some outcome → (outcome.surviving.map Candidate.id).Nodup

theorem filteredApart_after {st : MergeStep}
    (hp : ex.machine.Produces st.snapshot st.node st.output) (hbefore : FilteredApart st.before) :
    FilteredApart (ex.machine.after st) := by
  intro q outcome ho
  rcases narrowing_after hp ho with ⟨choice, -, -, rfl⟩ | hold
  · rw [filterQuestion, NarrowingOutcome.apply_surviving]
    exact (List.filter_sublist.map _).nodup choice.unique
  · exact hbefore q outcome hold

omit [RustStd] in
theorem base_apart {s : RunState} (hapart : FilteredApart s) (choice : ChoiceQuestion) :
    ((s.baseCandidates choice).map Candidate.id).Nodup := by
  rw [RunState.baseCandidates]
  cases ho : s.narrowing.get? choice.id with
  | none => exact choice.unique
  | some outcome => exact hapart _ _ ho

omit [RustStd] in
theorem narrowedChoice_eq {s : RunState} (hapart : FilteredApart s) {choice : ChoiceQuestion}
    (hbase : s.baseCandidates choice ≠ []) : s.narrowedChoice choice =
      some ⟨choice.id, choice.text, s.baseCandidates choice, choice.text_ne, hbase,
        base_apart hapart choice⟩ := by
  have hunique := base_apart hapart choice
  rw [RunState.narrowedChoice]
  cases ho : s.narrowing.get? choice.id with
  | none => simp [RunState.baseCandidates, ho]
  | some outcome =>
    have hsurviving : s.baseCandidates choice = outcome.surviving := by
      rw [RunState.baseCandidates, ho]
    have hfed : outcome.isStarved = false := by
      rw [NarrowingOutcome.isStarved, outcome.after_eq, decide_eq_false_iff_not]
      exact fun hzero => hbase (hsurviving.trans (List.length_eq_zero_iff.mp hzero))
    rw [hsurviving] at hbase hunique
    simp only [hfed, Bool.false_eq_true, if_false, NarrowingOutcome.narrowedQuestion, hsurviving]
    rw [ChoiceQuestion.new_self ⟨choice.id, choice.text, outcome.surviving, choice.text_ne, hbase,
      hunique⟩]
    rfl

omit [RustStd] in
theorem prepareQuestion_eq {s : RunState} (hapart : FilteredApart s) {choice : ChoiceQuestion}
    (hplay : s.candidatesInPlay choice ≠ []) (abstain : Option AbstainCandidate) :
    s.prepareQuestion (.choice choice) abstain =
      (RunState.withAbstain abstain (s.reorder choice.id (s.candidatesInPlay choice))).bind
        fun candidates => ((ChoiceQuestion.new choice.id.text choice.text candidates).toOption).map
          .choice := by
  obtain ⟨c, hc⟩ := List.exists_mem_of_ne_nil _ hplay
  rw [RunState.prepareQuestion, narrowedChoice_eq hapart (List.ne_nil_of_mem (mem_inPlay.mp hc).1)]
  have hkept : (s.baseCandidates choice).filter (fun c => s.unpruned choice.id c.id) =
      s.candidatesInPlay choice := rfl
  simp only [Option.bind_eq_bind, Option.bind_some, hkept, if_neg hplay]
  congr 1
  funext candidates
  cases (ChoiceQuestion.new choice.id.text choice.text candidates).toOption <;> rfl

omit [RustStd] in
theorem reorder_perm (s : RunState) (q : QuestionId) (candidates : List Candidate) :
    (s.reorder q candidates).Perm candidates := by
  unfold RunState.reorder
  split
  · exact List.perm_insertionSort _ _
  · exact List.Perm.refl _

omit [RustStd] in
theorem inPlay_apart {s : RunState} (hapart : FilteredApart s) (choice : ChoiceQuestion) :
    ((s.candidatesInPlay choice).map Candidate.id).Nodup :=
  (List.filter_sublist.map _).nodup (base_apart hapart choice)

omit [RustStd] in
theorem prepareQuestion_isSome {s : RunState} (hapart : FilteredApart s) {choice : ChoiceQuestion}
    (hplay : s.candidatesInPlay choice ≠ []) :
    (s.prepareQuestion (.choice choice) none).isSome = true := by
  have hperm := reorder_perm s choice.id (s.candidatesInPlay choice)
  have hne : s.reorder choice.id (s.candidatesInPlay choice) ≠ [] := fun hnil =>
    hplay (List.perm_nil.mp (hnil ▸ hperm.symm))
  have hnew := ChoiceQuestion.new_self ⟨choice.id, choice.text, _, choice.text_ne, hne,
    (hperm.map _).nodup_iff.mpr (inPlay_apart hapart choice)⟩
  rw [prepareQuestion_eq hapart hplay, RunState.withAbstain, Option.bind_some, hnew]
  rfl

end Prepared

/-- In every run, also one that fails later, every choice question that the rules leave a candidate
keeps one in play in every state exactly when at every merge the stages agree, which they do when no
merge rivals another. A question with a candidate in play is prepared for its deciding node. -/
theorem inPlay_iff {steps : List MergeStep} {snap cur : RunState}
    (h : Waves.Trace ex.machine steps snap cur) :
    ((∀ st ∈ steps, StagesAgree ex st) ↔
      InPlay ex snap ∧ InPlay ex cur ∧ ∀ st ∈ steps, InPlay ex st.snapshot ∧
        InPlay ex st.before ∧ InPlay ex (ex.machine.after st)) ∧
    ((∀ st ∈ steps, Unrivalled ex st) → ∀ st ∈ steps, StagesAgree ex st) ∧
    ∀ s, (s = snap ∨ s = cur ∨ ∃ st ∈ steps, s = st.snapshot ∨ s = st.before) →
      ∀ choice, s.candidatesInPlay choice ≠ [] →
        (s.prepareQuestion (.choice choice) none).isSome = true := by
  have hstart : InPlay ex ex.machine.start := by
    intro choice _ hbase
    obtain ⟨c, hc⟩ := List.exists_mem_of_ne_nil _ hbase
    exact List.ne_nil_of_mem (mem_inPlay.mpr ⟨hc, by simp [prunes, machine, initialState,
      OrdMap.get?, OrdMap.empty]⟩)
  have hapart : FilteredApart ex.machine.start := fun _ _ ho => by cases ho
  refine ⟨⟨fun hagree => ?_, fun hall st hst =>
    stagesAgree_of_inPlay (h.of_mem hst).1 (hall.2.2 st hst).2.2⟩,
    fun hall st hst => stagesAgree_of_unrivalled (hall st hst),
    fun s hs choice hplay => prepareQuestion_isSome ?_ hplay⟩
  · have hmerge : ∀ st ∈ steps, ex.machine.Produces st.snapshot st.node st.output →
        InPlay ex st.snapshot → InPlay ex st.before → InPlay ex (ex.machine.after st) :=
      fun st hst hp _ hb => inPlay_after hp (hagree st hst) hb
    obtain ⟨hsnap, hcur⟩ := h.invariant (InPlay ex) hstart hmerge
    refine ⟨hsnap, hcur, fun st hst => ?_⟩
    obtain ⟨hsnapshot, hbefore⟩ := h.invariant_step (InPlay ex) hstart hmerge hst
    exact ⟨hsnapshot, hbefore, inPlay_after (h.of_mem hst).1 (hagree st hst) hbefore⟩
  · exact h.invariant_states FilteredApart hapart
      (fun _ _ hp _ hb => filteredApart_after hp hb) hs

end Runs

section Sample

/-- A library for runs over two candidates: the only logarithm they read is that of two. -/
abbrev pairStd : RustStd := { plainStd with ln := fun x => if x = 2 then 693147 / 1000000 else 0 }

attribute [local instance] pairStd

instance (ex : Executor) (s : RunState) : Decidable (InPlay ex s) :=
  inferInstanceAs (Decidable (∀ choice ∈ choiceQuestions ex.request, _))

def rankingGraph : DecisionGraph :=
  (DecisionGraph.new 1 [Sample.node "in" .normalize [], Sample.node "filter" .filter ["in"],
    Sample.node "embed" .embedding ["filter"], Sample.node "scores" .lexical ["embed"],
    { Sample.node "best" .retrieve ["embed"] with topN := some 1 },
    Sample.node "judge" .choice ["scores", "best"],
    Sample.node "out" .output ["judge"]]).toOption.get (by decide +kernel)

/-- A lexical and a retrieve node in one wave, each keeping one of two candidates; the embeddings
favour one text. -/
def rankingExecutor (favoured : String) : Executor where
  config := {
    graph := rankingGraph
    rules := ⟨[], by simp⟩
    safeMode := false
    lexicalPruneLimit := some 1
    embedding := some ⟨"axes", fun texts => .ok (texts.map fun text =>
      if text = "ticket" ∨ text = "other" then if text = favoured then [1, 0] else [0, 1]
      else [1, 0])⟩ }
  classifier := LexicalClassifier.classifier "lexical"
  verifier := none
  fallbacks := []
  request := Sample.request [Sample.choice "q" ["ticket", "other"]] .defaults
  key := "sample"
  guard := fun _ => .ok ()

/-- Both stages keep the candidate that the state names. -/
theorem inPlay_favoured :
    ∃ steps final, Waves.Trace (rankingExecutor "ticket").machine steps final final ∧
      ∀ st ∈ steps, StagesAgree (rankingExecutor "ticket") st := by
  obtain ⟨final, hrun⟩ := Result.ok_of_isSome
    (by decide +kernel : (rankingExecutor "ticket").runState.toOption.isSome = true)
  obtain ⟨steps, hsteps, ht⟩ := runState_trace hrun
  have hfinal : ((rankingExecutor "ticket").runState.toOption.all fun s =>
      InPlay (rankingExecutor "ticket") s) = true := by decide +kernel
  have hall : (((rankingExecutor "ticket").steps.toOption.getD []).all fun st =>
      InPlay (rankingExecutor "ticket") st.snapshot ∧ InPlay (rankingExecutor "ticket") st.before ∧
        InPlay (rankingExecutor "ticket") ((rankingExecutor "ticket").machine.after st)) = true := by
    decide +kernel
  rw [hrun] at hfinal
  rw [hsteps] at hall
  have hplay : InPlay (rankingExecutor "ticket") final := of_decide_eq_true hfinal
  exact ⟨steps, final, ht, (inPlay_iff ht).1.mpr ⟨hplay, hplay,
    fun st hst => of_decide_eq_true (List.all_eq_true.mp hall st hst)⟩⟩

/-- Each stage drops the candidate that the other keeps. -/
theorem rivals_starve : ∃ final, (rankingExecutor "other").runState = .ok final ∧
    ¬ InPlay (rankingExecutor "other") final := by
  obtain ⟨final, hrun⟩ := Result.ok_of_isSome
    (by decide +kernel : (rankingExecutor "other").runState.toOption.isSome = true)
  have hstarved : ((rankingExecutor "other").runState.toOption.all fun s =>
      ¬ InPlay (rankingExecutor "other") s) = true := by decide +kernel
  rw [hrun] at hstarved
  exact ⟨final, hrun, of_decide_eq_true hstarved⟩

end Sample

end OpenCodifier.Executor
