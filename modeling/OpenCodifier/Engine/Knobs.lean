import OpenCodifier.Engine.Sample
set_option autoImplicit false

namespace OpenCodifier

inductive Knob where
  | threshold
  | when'
  | topN
  | floor
  | reranker
  deriving DecidableEq

def Knob.owner : Knob → NodeKind
  | .threshold => .threshold
  | .when' => .branch
  | .topN => .retrieve
  | .floor => .retrieve
  | .reranker => .rerank

namespace NodeSpec

def declares (n : NodeSpec) : Knob → Bool
  | .threshold => n.threshold.isSome
  | .when' => n.when'.isSome
  | .topN => n.topN.isSome
  | .floor => n.floor.isSome
  | .reranker => n.reranker.isSome

def without (n : NodeSpec) : Knob → NodeSpec
  | .threshold => { n with threshold := none }
  | .when' => { n with when' := none }
  | .topN => { n with topN := none }
  | .floor => { n with floor := none }
  | .reranker => { n with reranker := none }

@[simp]
theorem without_id (n : NodeSpec) (k : Knob) : (n.without k).id = n.id := by cases k <;> rfl

@[simp]
theorem without_kind (n : NodeSpec) (k : Knob) : (n.without k).kind = n.kind := by cases k <;> rfl

/-- The knobs a node may carry: a threshold and a reranker exactly on their
kinds, the others on their kinds only. -/
structure OnlyItsKnobs (n : NodeSpec) : Prop where
  threshold : n.declares .threshold = true ↔ n.kind = .threshold
  when' : n.declares .when' = true → n.kind = .branch
  topN : n.declares .topN = true → n.kind = .retrieve
  floor : n.declares .floor = true → n.kind = .retrieve
  reranker : n.declares .reranker = true ↔ n.kind = .rerank

section Accepted

variable {n : NodeSpec}

theorem validateThreshold_ok [RustStd] (h : n.validateThreshold = .ok ()) :
    (n.declares .threshold = true ↔ n.kind = .threshold) ∧
      (n.declares .when' = true → n.kind = .branch ∨ n.kind = .threshold) := by
  unfold validateThreshold at h
  split at h
  · rename_i hk
    split at h
    · cases h
    · rename_i ht
      simp [declares, hk, ht]
  · rename_i hk
    split at h
    · cases h
    · rename_i ht
      simp [declares, hk, ht]
  · rename_i ht hb
    split at h
    · cases h
    · rename_i hnone
      simp only [Bool.or_eq_true, not_or, Bool.not_eq_true] at hnone
      have hk : n.kind ≠ .threshold := ht
      simp [declares, hnone, hk]

theorem validateKnobs_ok (h : n.validateKnobs = .ok ()) :
    (n.declares .topN = true → n.kind = .retrieve) ∧
      (n.declares .floor = true → n.kind = .retrieve) ∧
        (n.declares .reranker = true → n.kind = .rerank ∨ n.kind = .retrieve) := by
  unfold validateKnobs at h
  split at h
  · split at h
    · rename_i hk
      rcases hk with hk | ⟨hk, htop, hfloor⟩
      · simp [hk]
      · simp [declares, hk, htop, hfloor]
    · cases h
  · rename_i hnone
    simp only [Bool.or_eq_true, not_or, Bool.not_eq_true] at hnone
    simp [declares, hnone]

theorem validateRerank_ok (h : n.validateRerank = .ok ()) (hk : n.kind = .rerank) :
    n.declares .reranker = true := by
  unfold validateRerank at h
  rw [if_pos hk] at h
  split at h
  · rename_i hr
    rcases hr with hr | hr <;> simp [declares, hr]
  · cases h

/-- An accepted node carries only its kind's knobs, but for a condition on a
threshold node and a reranker on a retrieve node, which no check refuses. -/
theorem onlyItsKnobs_iff [RustStd] (h : n.validate = .ok ()) :
    n.OnlyItsKnobs ↔
      (n.kind = .threshold → n.when' = none) ∧ (n.kind = .retrieve → n.reranker = none) := by
  simp only [validate, Result.bind_unit_ok] at h
  obtain ⟨hthreshold, hknobs, -, hrerank, -⟩ := h
  obtain ⟨ht, hw⟩ := validateThreshold_ok hthreshold
  obtain ⟨htop, hfloor, hr⟩ := validateKnobs_ok hknobs
  constructor
  · intro hn
    constructor
    · intro hk
      cases hwhen : n.when' with
      | none => rfl
      | some c => cases hk.symm.trans (hn.when' (by simp [declares, hwhen]))
    · intro hk
      cases hrer : n.reranker with
      | none => rfl
      | some r => cases hk.symm.trans (hn.reranker.mp (by simp [declares, hrer]))
  · rintro ⟨hcond, hret⟩
    refine ⟨ht, fun hd => ?_, htop, hfloor, fun hd => ?_, validateRerank_ok hrerank⟩
    · rcases hw hd with hk | hk
      · exact hk
      · simp [declares, hcond hk] at hd
    · rcases hr hd with hk | hk
      · exact hk
      · simp [declares, hret hk] at hd

end Accepted

end NodeSpec

namespace Executor

variable [RustStd]

/-- No node of the kind runs differently for the knob. -/
def Ignores (kind : NodeKind) (k : Knob) : Prop :=
  ∀ (ex : Executor) (s : RunState) (n : NodeSpec), n.kind = kind →
    ex.execute s (n.without k) = ex.execute s n

theorem ignores_of_ne {kind : NodeKind} {k : Knob} (h : kind ≠ k.owner) : Ignores kind k := by
  rintro ex s n rfl
  simp only [execute, NodeSpec.without_id, NodeSpec.without_kind]
  cases hk : n.kind with
  | retrieve => cases k <;> first | rfl | exact absurd hk h
  | rerank => cases k <;> first | rfl | exact absurd hk h
  | branch => cases k <;> first | rfl | exact absurd hk h
  | _ => rfl

/-- The gate reads the policies of the deciding rungs, never the node's own scalar. -/
theorem ignores_threshold (kind : NodeKind) : Ignores kind .threshold := by
  rintro ex s n rfl
  simp only [execute, NodeSpec.without_id, NodeSpec.without_kind]
  cases n.kind <;> rfl

theorem no_rule_invalid : ∀ r ∈ ([] : List Rule), r.validate = .ok () := by simp

/-- A run of one choice question, which tells the knobs that are read apart. -/
def probe (g : DecisionGraph) : Executor where
  config := { graph := g, rules := ⟨[], no_rule_invalid⟩ }
  classifier := MockClassifier.classifier "mock" OrdMap.empty
  verifier := none
  fallbacks := []
  request := Sample.request [Sample.choice "area" ["billing"]] .defaults
  key := "probe"
  guard := fun _ => .ok ()

/-- The scores a run has when its embedding node found no candidate to score. -/
def probeState (g : DecisionGraph) : RunState :=
  { initialState (probe g).request with semantic := OrdMap.empty.insert (Sample.ident "area") [] }

def probeNode (kind : NodeKind) : NodeSpec := { id := Sample.ident "probe", kind }

theorem branch_reads_when (g : DecisionGraph) : ¬ Ignores .branch .when' := by
  intro h
  have heq := h (probe g) (probeState g)
    { probeNode .branch with when' := some (.factExists "urgent") } rfl
  cases heq

theorem rerank_reads_reranker (g : DecisionGraph) : ¬ Ignores .rerank .reranker := by
  intro h
  have heq := h (probe g) (probeState g) { probeNode .rerank with reranker := some "lexical" } rfl
  cases heq

theorem retrieve_probe (g : DecisionGraph) (n : NodeSpec) (hn : n.kind = .retrieve) :
    (probe g).execute (probeState g) n =
      .ok ⟨.retrieved [(Sample.ident "area", [], [])], [.new n.id.text
        [("question", .text "area"), ("kept", .integer 0), ("dropped", .integer 0),
          ("top_n", .integer (n.topN.getD 1)), ("floor", .float (n.floor.getD 0)),
          ("order", .text "")]]⟩ := by
  simp only [execute, hn]
  rfl

theorem retrieve_reads_topN (g : DecisionGraph) : ¬ Ignores .retrieve .topN := by
  intro h
  have heq := h (probe g) (probeState g) { probeNode .retrieve with topN := some 2 } rfl
  rw [retrieve_probe g _ rfl, retrieve_probe g _ rfl] at heq
  simp only [Except.ok.injEq, NodeExecution.mk.injEq, List.cons.injEq, TraceEntry.new,
    TraceEntry.mk.injEq] at heq
  have hread := congrArg (fun m => m.get? "top_n") heq.2.1.2
  exact absurd hread (by decide)

theorem retrieve_reads_floor (g : DecisionGraph) : ¬ Ignores .retrieve .floor := by
  intro h
  have heq := h (probe g) (probeState g) { probeNode .retrieve with floor := some 1 } rfl
  rw [retrieve_probe g _ rfl, retrieve_probe g _ rfl] at heq
  simp only [Except.ok.injEq, NodeExecution.mk.injEq, List.cons.injEq, TraceEntry.new,
    TraceEntry.mk.injEq] at heq
  have hread := congrArg (fun m => m.get? "floor") heq.2.1.2
  exact absurd hread (by decide)

/-- The knobs that change nothing at a kind: those of other kinds, and the
scalar of a threshold node, which is checked and never read. -/
theorem ignores_iff (g : DecisionGraph) (kind : NodeKind) (k : Knob) :
    Ignores kind k ↔ k = .threshold ∨ kind ≠ k.owner := by
  constructor
  · intro h
    by_cases hk : kind = k.owner
    · subst hk
      cases k with
      | threshold => exact .inl rfl
      | when' => exact absurd h (branch_reads_when g)
      | topN => exact absurd h (retrieve_reads_topN g)
      | floor => exact absurd h (retrieve_reads_floor g)
      | reranker => exact absurd h (rerank_reads_reranker g)
    · exact .inr hk
  · rintro (rfl | hk)
    · exact ignores_threshold kind
    · exact ignores_of_ne hk

end Executor

section Construction

theorem NodeSpec.OnlyItsKnobs.kind_eq_owner {n : NodeSpec} (h : n.OnlyItsKnobs) {k : Knob}
    (hd : n.declares k = true) : n.kind = k.owner := by
  cases k with
  | threshold => exact h.threshold.mp hd
  | when' => exact h.when' hd
  | topN => exact h.topN hd
  | floor => exact h.floor hd
  | reranker => exact h.reranker.mp hd

/-- An accepted graph carries on each node only the knobs of its kind if and only if no threshold node
declares a condition and no retrieve node a reranker. All of them are read at run time as well if and
only if it has no threshold node at all, whose scalar is not read. -/
theorem onlyItsKnobs_of_new_iff [RustStd] {version : Nat} {nodes : List NodeSpec}
    {g : DecisionGraph} (h : DecisionGraph.new version nodes = .ok g) :
    ((∀ n ∈ g.nodes, n.OnlyItsKnobs) ↔
      ∀ n ∈ nodes, (n.kind = .threshold → n.when' = none) ∧
        (n.kind = .retrieve → n.reranker = none)) ∧
    ((∀ n ∈ g.nodes, n.OnlyItsKnobs ∧
        ∀ k, n.declares k = true → ¬ Executor.Ignores n.kind k) ↔
      ∀ n ∈ nodes, n.kind ≠ .threshold ∧ (n.kind = .retrieve → n.reranker = none)) := by
  have hmem : ∀ n, n ∈ g.nodes ↔ n ∈ nodes := by
    intro n
    rw [(DecisionGraph.new_ok h).2, List.mem_insertionSort]
  have honly : ∀ n ∈ g.nodes, n.OnlyItsKnobs ↔
      (n.kind = .threshold → n.when' = none) ∧ (n.kind = .retrieve → n.reranker = none) :=
    fun n hn => NodeSpec.onlyItsKnobs_iff (g.nodes_valid n hn)
  refine ⟨⟨fun hall n hn => ?_, fun hcond n hn => ?_⟩, ⟨fun hall n hn => ?_, fun hcond n hn => ?_⟩⟩
  · exact (honly n ((hmem n).mpr hn)).mp (hall n ((hmem n).mpr hn))
  · exact (honly n hn).mpr (hcond n ((hmem n).mp hn))
  · obtain ⟨hits, hread⟩ := hall n ((hmem n).mpr hn)
    refine ⟨fun hkind => ?_, ((honly n ((hmem n).mpr hn)).mp hits).2⟩
    exact hread .threshold (hits.threshold.mpr hkind) (Executor.ignores_threshold n.kind)
  · obtain ⟨hkind, hret⟩ := hcond n ((hmem n).mp hn)
    have hits := (honly n hn).mpr ⟨fun h => absurd h hkind, hret⟩
    refine ⟨hits, fun k hd hignores => ?_⟩
    rcases (Executor.ignores_iff g n.kind k).mp hignores with rfl | hother
    · exact hkind (hits.threshold.mp hd)
    · exact hother (hits.kind_eq_owner hd)

attribute [local instance] plainStd

def Sample.readNodes : List NodeSpec :=
  [node "in" .normalize [], node "embed" .embedding ["in"],
    { node "keep" .retrieve ["embed"] with topN := some 3, floor := some (1 / 10) },
    { node "rank" .rerank ["keep"] with reranker := some "lexical" },
    { node "urgent" .branch ["rank"] with when' := some (.factExists "urgent") },
    node "judge" .choice ["urgent"], node "out" .output ["judge"]]

/-- Knobs that the checks let through on kinds that do not read them. -/
def Sample.strayNodes : List NodeSpec :=
  [node "in" .normalize [], node "embed" .embedding ["in"],
    { node "keep" .retrieve ["embed"] with topN := some 3, reranker := some "lexical" },
    node "judge" .choice ["keep"],
    { node "gate" .threshold ["judge"] with when' := some (.factExists "urgent") },
    node "out" .output ["gate"]]

theorem onlyItsKnobs_of_new_read :
    ∃ g, DecisionGraph.new 1 Sample.readNodes = .ok g ∧
      ∀ n ∈ g.nodes, n.OnlyItsKnobs ∧
        ∀ k, n.declares k = true → ¬ Executor.Ignores n.kind k := by
  have hsome : (DecisionGraph.new 1 Sample.readNodes).toOption.isSome = true := by decide +kernel
  cases h : DecisionGraph.new 1 Sample.readNodes with
  | error e => simp [h, Except.toOption] at hsome
  | ok g => exact ⟨g, rfl, (onlyItsKnobs_of_new_iff h).2.mpr (by decide)⟩

theorem knobs_off_their_kind :
    ∃ g, DecisionGraph.new 1 Sample.strayNodes = .ok g ∧
      (∃ n ∈ g.nodes, n.kind = .threshold ∧ n.declares .when' = true ∧
        ¬ n.OnlyItsKnobs ∧ Executor.Ignores n.kind .when') ∧
      (∃ n ∈ g.nodes, n.kind = .retrieve ∧ n.declares .reranker = true ∧
        ¬ n.OnlyItsKnobs ∧ Executor.Ignores n.kind .reranker) ∧
      ∃ n ∈ g.nodes, n.declares .threshold = true ∧ Executor.Ignores n.kind .threshold := by
  have hsome : (DecisionGraph.new 1 Sample.strayNodes).toOption.isSome = true := by
    decide +kernel
  cases h : DecisionGraph.new 1 Sample.strayNodes with
  | error e => simp [h, Except.toOption] at hsome
  | ok g =>
    have hmem : ∀ n ∈ Sample.strayNodes, n ∈ g.nodes := by
      intro n hn
      rwa [(DecisionGraph.new_ok h).2, List.mem_insertionSort]
    have hgate := hmem _ (List.get_mem Sample.strayNodes ⟨4, by decide⟩)
    have hkeep := hmem _ (List.get_mem Sample.strayNodes ⟨2, by decide⟩)
    refine ⟨g, rfl, ⟨_, hgate, rfl, rfl, fun hn => ?_, ?_⟩, ⟨_, hkeep, rfl, rfl, fun hn => ?_, ?_⟩,
      ⟨_, hgate, rfl, Executor.ignores_threshold _⟩⟩
    · cases hn.when' rfl
    · exact Executor.ignores_of_ne (by decide)
    · cases hn.reranker.mp rfl
    · exact Executor.ignores_of_ne (by decide)

end Construction

end OpenCodifier
