import OpenCodifier.Engine.Effects
set_option autoImplicit false

namespace OpenCodifier

abbrev Downstream (nodes : List NodeSpec) : NodeId → NodeId → Prop :=
  Relation.TransGen fun a b => b ∈ dependentsIn nodes a

namespace Executor

section Folds

theorem foldl_mergeScored_skipped (scores : List LexicalScores) (s : RunState) :
    (scores.foldl mergeScored s).skipped = s.skipped := by
  induction scores generalizing s with
  | nil => rfl
  | cons x scores ih => exact ih _

theorem foldl_mergeRetrieved_skipped
    (prunes : List (QuestionId × List CandidateId × List CandidateId)) (s : RunState) :
    (prunes.foldl mergeRetrieved s).skipped = s.skipped := by
  induction prunes generalizing s with
  | nil => rfl
  | cons x prunes ih => exact ih _

end Folds

variable [RustStd] {ex : Executor} {s : RunState}

def SkipClosed (ex : Executor) (s : RunState) : Prop :=
  ∀ a ∈ s.skipped, ∀ b ∈ dependentsIn ex.config.graph.nodes a, b ∈ s.skipped

theorem dependent_known (g : DecisionGraph) {a b : NodeId} (h : b ∈ dependentsIn g.nodes a) :
    b ∈ nodeIds g.nodes := by
  obtain ⟨n, hn, _, rfl⟩ := mem_dependentsIn.mp h
  exact mem_nodeIds.mpr ⟨n, hn, rfl⟩

theorem markSkipped_skipped (hc : SkipClosed ex s) {id : NodeId}
    (hid : id ∈ nodeIds ex.config.graph.nodes) :
    SkipClosed ex (ex.markSkipped s id) ∧ ∀ x, x ∈ (ex.markSkipped s id).skipped ↔
      x ∈ s.skipped ∨
        Relation.ReflTransGen (fun a b => b ∈ dependentsIn ex.config.graph.nodes a) id x := by
  have hU : ∀ a ∈ (nodeIds ex.config.graph.nodes).toFinset,
      ∀ b ∈ dependentsIn ex.config.graph.nodes a,
        b ∈ (nodeIds ex.config.graph.nodes).toFinset := by
    intro a _ b hb
    simpa using dependent_known ex.config.graph hb
  have hfuel : Worklist.work (dependentsIn ex.config.graph.nodes)
      (nodeIds ex.config.graph.nodes).toFinset [id] s.skipped ≤
        traversalFuel ex.config.graph.nodes := by
    unfold Worklist.work traversalFuel
    rw [← List.sum_toFinset _ ex.config.graph.ids_nodup, List.length_singleton]
    have := Finset.sum_le_sum_of_subset (f := fun k =>
      (dependentsIn ex.config.graph.nodes k).length)
      (Finset.filter_subset (· ∉ s.skipped) (nodeIds ex.config.graph.nodes).toFinset)
    omega
  obtain ⟨h₁, h₂⟩ := Worklist.explore_of_closed _ hU _ [id] s.skipped (by simpa using hid) hfuel hc
  refine ⟨h₁, fun x => (h₂ x).trans ?_⟩
  simp

theorem foldl_markSkipped_skipped (hc : SkipClosed ex s) {ids : List NodeId}
    (hids : ∀ id ∈ ids, id ∈ nodeIds ex.config.graph.nodes) :
    SkipClosed ex (ids.foldl ex.markSkipped s) ∧ ∀ x, x ∈ (ids.foldl ex.markSkipped s).skipped ↔
      x ∈ s.skipped ∨ ∃ id ∈ ids,
        Relation.ReflTransGen (fun a b => b ∈ dependentsIn ex.config.graph.nodes a) id x := by
  induction ids generalizing s with
  | nil => simpa using hc
  | cons id ids ih =>
    obtain ⟨h₁, h₂⟩ := markSkipped_skipped hc (hids id List.mem_cons_self)
    obtain ⟨h₃, h₄⟩ := ih h₁ fun id' hid' => hids id' (List.mem_cons_of_mem _ hid')
    refine ⟨h₃, fun x => (h₄ x).trans ?_⟩
    simp [h₂, or_assoc]

/-- Only a branch that does not fire skips, and it skips what comes after it. -/
theorem mergeExecution_skipped (hc : SkipClosed ex s) (spec : NodeSpec) (e : NodeExecution) :
    SkipClosed ex (ex.mergeExecution s spec e) ∧ ∀ x, x ∈ (ex.mergeExecution s spec e).skipped ↔
      x ∈ s.skipped ∨
        e.output = .branched false ∧ Downstream ex.config.graph.nodes spec.id x := by
  obtain ⟨out, entries⟩ := e
  have hsame : ∀ m : RunState, m.skipped = s.skipped → out ≠ .branched false →
      SkipClosed ex m ∧ ∀ x, x ∈ m.skipped ↔ x ∈ s.skipped ∨
        out = .branched false ∧ Downstream ex.config.graph.nodes spec.id x := by
    intro m hm hne
    refine ⟨?_, fun x => by simp [hm, hne]⟩
    unfold SkipClosed
    rw [hm]
    exact hc
  cases out with
  | scored scores => exact hsame _ (foldl_mergeScored_skipped scores _) (by simp)
  | retrieved prunes => exact hsame _ (foldl_mergeRetrieved_skipped prunes _) (by simp)
  | branched fired =>
    cases fired with
    | true => exact hsame _ rfl (by simp)
    | false =>
      have hc' : SkipClosed ex { s with trace := s.trace ++ entries } := hc
      have hids : ∀ id ∈ ex.config.graph.dependentsOf spec.id,
          id ∈ nodeIds ex.config.graph.nodes := fun id hid => dependent_known _ hid
      obtain ⟨h₁, h₂⟩ := foldl_markSkipped_skipped hc' hids
      refine ⟨h₁, fun x => (h₂ x).trans ?_⟩
      simp [DecisionGraph.dependentsOf, Downstream, Relation.TransGen.head'_iff]
  | _ => exact hsame _ rfl (by simp)

theorem mem_runnable_iff {w : List NodeId} {n : NodeSpec} :
    n ∈ ex.runnable s w ↔ n ∈ ex.config.graph.nodes ∧ n.id ∈ w ∧ n.id ∉ s.skipped := by
  simp only [runnable, List.mem_filter, List.mem_filterMap, decide_eq_true_eq]
  constructor
  · intro h
    obtain ⟨⟨id, hid, hn⟩, hs⟩ := h
    obtain ⟨hmem, rfl⟩ := findNode_some hn
    exact ⟨hmem, hid, hs⟩
  · intro h
    obtain ⟨hn, hid, hs⟩ := h
    exact ⟨⟨n.id, hid, findNode_mem ex.config.graph.ids_nodup hn⟩, hs⟩

theorem mergeResults_skipped {results : List (NodeSpec × EngineResult NodeExecution)}
    (hc : SkipClosed ex s) {flag : Bool} {out : RunState × Bool}
    (hm : ex.mergeResults (s, flag) results = .ok out) :
    SkipClosed ex out.1 ∧ ∀ x, x ∈ out.1.skipped ↔ x ∈ s.skipped ∨
      ∃ r ∈ results, (∃ e, r.2 = .ok e ∧ e.output = .branched false) ∧
        Downstream ex.config.graph.nodes r.1.id x := by
  induction results generalizing s flag with
  | nil =>
    cases hm
    exact ⟨hc, by simp⟩
  | cons r results ih =>
    obtain ⟨spec, result⟩ := r
    obtain ⟨e, he, hm⟩ := Result.bind_ok.mp hm
    obtain ⟨h₁, h₂⟩ := mergeExecution_skipped hc spec e
    obtain ⟨h₃, h₄⟩ := ih h₁ hm
    refine ⟨h₃, fun x => (h₄ x).trans ?_⟩
    rw [h₂]
    cases he
    simp [or_assoc]

theorem executed_branched_iff {spec : NodeSpec} {e : NodeExecution} (h : Executed ex s spec e) :
    e.output = .branched false ↔ spec.kind = .branch ∧ branchFires s spec = false := by
  cases h with
  | branch hk => simp [hk]
  | embedding hk h =>
    obtain ⟨_, ho⟩ := scoreSemantic_output h
    simp [ho, hk]
  | retrieve hk h =>
    obtain ⟨_, ho⟩ := retrieve_output h
    simp [ho, hk]
  | rerank hk h =>
    obtain ⟨_, ho⟩ := rerank_output h
    simp [ho, hk]
  | decide hk h =>
    obtain ⟨_, _, ho, _⟩ := mem_decided h
    rcases hk with hk | hk | hk <;> simp [ho, hk]
  | threshold hk h =>
    obtain ⟨_, _, h⟩ := Result.bind_ok.mp h
    cases h
    simp [hk]
  | normalize hk => simp [hk]
  | rule hk => simp [hk]
  | cache hk => simp [hk]
  | filter hk => simp [hk, filterCandidates]
  | lexical hk => simp [hk, scoreLexical]
  | output hk => simp [hk]

theorem execute_branched_iff (hg : ∀ p, ex.guard p = .ok ()) (spec : NodeSpec) :
    (∃ e, ex.execute s spec = .ok e ∧ e.output = .branched false) ↔
      spec.kind = .branch ∧ branchFires s spec = false := by
  constructor
  · intro h
    obtain ⟨e, he, ho⟩ := h
    exact (executed_branched_iff (executed_of_execute he)).mp ho
  · intro h
    obtain ⟨hk, hf⟩ := h
    refine ⟨⟨.branched false, [.new spec.id.text [("fired", .boolean false)]]⟩, ?_, rfl⟩
    unfold execute
    rw [hg, hk, hf]
    rfl

end Executor

end OpenCodifier
