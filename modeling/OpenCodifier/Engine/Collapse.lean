import OpenCodifier.Engine.Rebuild
set_option autoImplicit false

namespace OpenCodifier

variable [RustStd]

/-- One graph is another with nodes dropped or merged into survivors: the survivors keep
their specs, and what a represented node depends on is carried onto what its survivor
reads. -/
structure Collapse (g g' : DecisionGraph) (σ : NodeId → NodeId) : Prop where
  survivor : ∀ n ∈ g.nodes, ∃ m ∈ g.nodes, m.id = σ n.id ∧ m.kind = n.kind ∧ m.when' = n.when'
  fixed : ∀ id ∈ nodeIds g'.nodes, σ id = id
  nodes : g'.nodes = (g.nodes.filter fun n => n.id ∈ nodeIds g'.nodes).map (mergedSpec σ)
  reads : ∀ n ∈ g.nodes, σ n.id ∈ nodeIds g'.nodes →
    ∀ x, x ∈ depsOf g'.nodes (σ n.id) ↔ ∃ d ∈ n.dependsOn, σ d = x

variable {g g' : DecisionGraph} {σ : NodeId → NodeId}

section Optimized

theorem optimize_nodes (h : optimize g = .ok g') (hσ : SurvivorMap g.nodes σ) :
    g'.nodes = eliminateDead g.output (mergeCommon g.nodes) := by
  rw [(DecisionGraph.new_ok h).2]
  exact ((List.pairwise_map.mp (optimized_sorted hσ)).imp le_of_lt).insertionSort_eq

theorem optimize_nothingDangles (h : optimize g = .ok g') (hσ : SurvivorMap g.nodes σ) :
    NothingDangles g σ := by
  have hw := g'.wellFormed
  rw [optimize_nodes h hσ] at hw
  exact (optimized_wellFormed_iff hσ).mp hw

theorem mem_optimizedIds (h : optimize g = .ok g') (hσ : SurvivorMap g.nodes σ) {n : NodeSpec}
    (hn : n ∈ g.nodes) : n.id ∈ nodeIds g'.nodes ↔ Stays g σ n := by
  rw [optimize_nodes h hσ, mem_nodeIds]
  constructor
  · intro hm
    obtain ⟨m', hm', hid⟩ := hm
    obtain ⟨m, hm, hst, rfl⟩ := (mem_optimized hσ).mp hm'
    rw [← node_ext_id g.ids_nodup hm hn hid]
    exact hst
  · intro hst
    exact ⟨mergedSpec σ n, (mem_optimized hσ).mpr ⟨n, hn, hst, rfl⟩, rfl⟩

theorem reads_survivor (hσ : SurvivorMap g.nodes σ) {m n : NodeSpec} (hm : m ∈ g.nodes)
    (hn : n ∈ g.nodes) (hid : m.id = σ n.id) :
    m.kind = n.kind ∧ m.when' = n.when' ∧
      ∀ x, x ∈ m.dependsOn.map (readDep σ m) ↔ x ∈ n.dependsOn.map (readDep σ n) := by
  obtain ⟨e, he, heid, _, hint, _⟩ := hσ.earliest n hn
  obtain rfl := node_ext_id g.ids_nodup he hm (heid.trans hid.symm)
  cases hint with
  | inl h =>
    subst h
    simp
  | inr h =>
    obtain ⟨_, _, hkey⟩ := h
    exact ⟨congrArg Key.kind hkey, congrArg Key.when' hkey, key_readSpec_dependencies hkey⟩

theorem optimize_collapse (h : optimize g = .ok g') : ∃ σ, Collapse g g' σ := by
  obtain ⟨σ, hσ⟩ := exists_survivorMap g.nodes g.wellFormed.sorted
  have hids := fun {n} (hn : n ∈ g.nodes) => mem_optimizedIds h hσ hn
  have hknown := (depsKnown_iff hσ).mpr (optimize_nothingDangles h hσ)
  have hnodes := optimize_nodes h hσ
  refine ⟨σ, ?_, ?_, ?_, ?_⟩
  · intro n hn
    obtain ⟨m, hm, hid, _⟩ := hσ.earliest n hn
    obtain ⟨hk, hw, _⟩ := reads_survivor hσ hm hn hid
    exact ⟨m, hm, hid, hk, hw⟩
  · intro id hid
    rw [hnodes] at hid
    obtain ⟨m', hm', rfl⟩ := mem_nodeIds.mp hid
    obtain ⟨m, hm, hst, rfl⟩ := (mem_optimized hσ).mp hm'
    have hfix : σ m.id = m.id := stays_survives hσ hm hst
    exact hfix
  · have hfilter : eliminateDead g.output (mergeCommon g.nodes) =
        (g.nodes.filter fun n => n.id ∈ nodeIds g'.nodes).map (mergedSpec σ) := by
      unfold eliminateDead
      rw [mergeCommon_eq hσ g.wellFormed.sorted, List.filter_map, List.filter_filter]
      congr 1
      refine List.filter_congr fun n hn => ?_
      rw [Bool.eq_iff_iff, Bool.and_eq_true, decide_eq_true_eq, decide_eq_true_eq, hids hn,
        ← mergeCommon_eq hσ g.wellFormed.sorted]
      simp only [Function.comp_apply, Bool.or_eq_true, decide_eq_true_eq]
      rw [liveNodes_iff hσ]
      constructor
      · intro hk
        exact hk.1
      · intro hst
        exact ⟨hst, stays_survives hσ hn hst⟩
    rw [← hfilter]
    exact hnodes
  · intro n hn hk x
    obtain ⟨m, hm, hid, _⟩ := hσ.earliest n hn
    obtain ⟨_, _, hread⟩ := reads_survivor hσ hm hn hid
    rw [← hid] at hk ⊢
    have hst := (hids hm).mp hk
    have hmem : mergedSpec σ m ∈ g'.nodes := by
      rw [hnodes]
      exact (mem_optimized hσ).mpr ⟨m, hm, hst, rfl⟩
    have hdeps : depsOf g'.nodes m.id = (mergedSpec σ m).dependsOn := depsOf_mem g'.ids_nodup hmem
    have hsame : ∀ d ∈ n.dependsOn, readDep σ n d = σ d := by
      intro d hd
      obtain ⟨k, hk, hkid, hkst⟩ := hknown m hm hst _ ((hread _).mpr (List.mem_map_of_mem hd))
      have hfix := stays_survives hσ hk hkst
      rw [hkid] at hfix
      unfold readDep at hfix ⊢
      split
      · rfl
      · rename_i hlt
        rw [if_neg hlt] at hfix
        exact hfix.symm
    rw [hdeps]
    simp only [mergedSpec, mem_dedupe, List.not_mem_nil, not_false_eq_true, and_true]
    rw [hread, List.mem_map]
    constructor
    · intro hx
      obtain ⟨d, hd, rfl⟩ := hx
      exact ⟨d, hd, (hsame d hd).symm⟩
    · intro hx
      obtain ⟨d, hd, rfl⟩ := hx
      exact ⟨d, hd, hsame d hd⟩

end Optimized

namespace Collapse

/-- A node whose survivor stays. -/
def Represented (g g' : DecisionGraph) (σ : NodeId → NodeId) (id : NodeId) : Prop :=
  id ∈ nodeIds g.nodes ∧ σ id ∈ nodeIds g'.nodes

theorem keptIds (h : Collapse g g' σ) :
    nodeIds g'.nodes = (nodeIds g.nodes).filter (· ∈ nodeIds g'.nodes) := by
  have hids : nodeIds g'.nodes =
      nodeIds ((g.nodes.filter fun n => n.id ∈ nodeIds g'.nodes).map (mergedSpec σ)) :=
    congrArg nodeIds h.nodes
  refine hids.trans ?_
  simp only [nodeIds, List.map_map, List.filter_map]
  rfl

theorem kept_mem (h : Collapse g g' σ) {id : NodeId} (hid : id ∈ nodeIds g'.nodes) :
    id ∈ nodeIds g.nodes := by
  rw [h.keptIds] at hid
  exact List.mem_of_mem_filter hid

theorem represented_kept (h : Collapse g g' σ) {id : NodeId} (hid : id ∈ nodeIds g'.nodes) :
    Represented g g' σ id := by
  refine ⟨h.kept_mem hid, ?_⟩
  rw [h.fixed id hid]
  exact hid

theorem reads_depsOf (h : Collapse g g' σ) {id : NodeId} (hid : Represented g g' σ id)
    (x : NodeId) : x ∈ depsOf g'.nodes (σ id) ↔ ∃ d ∈ depsOf g.nodes id, σ d = x := by
  obtain ⟨hmem, hk⟩ := hid
  obtain ⟨n, hn, rfl⟩ := mem_nodeIds.mp hmem
  rw [depsOf_mem g.ids_nodup hn]
  exact h.reads n hn hk x

theorem depsOf_known (g : DecisionGraph) {id d : NodeId} (hid : id ∈ nodeIds g.nodes)
    (hd : d ∈ depsOf g.nodes id) : d ∈ nodeIds g.nodes := by
  obtain ⟨n, hn, rfl⟩ := mem_nodeIds.mp hid
  rw [depsOf_mem g.ids_nodup hn] at hd
  exact g.wellFormed.deps_known n hn d hd

theorem represented_dep (h : Collapse g g' σ) {id d : NodeId} (hid : Represented g g' σ id)
    (hd : d ∈ depsOf g.nodes id) : Represented g g' σ d :=
  ⟨depsOf_known g hid.1 hd, depsOf_known g' hid.2 ((h.reads_depsOf hid _).mpr ⟨d, hd, rfl⟩)⟩

theorem level_iff (h : Collapse g g' σ) {id : NodeId} (hid : Represented g g' σ id) (k : Nat) :
    id ∈ Kahn.level (nodeIds g.nodes) (depsOf g.nodes) k ↔
      σ id ∈ Kahn.level (nodeIds g.nodes) (depsOf g.nodes) k := by
  have hsurv := h.represented_kept hid.2
  have hbelow : ∀ j, Kahn.Below (depsOf g.nodes) j (σ id) = Kahn.Below (depsOf g.nodes) j id := by
    intro j
    have h₁ := Kahn.below_image (fun _ hn _ hd => h.represented_dep hn hd)
      (fun _ hn => h.reads_depsOf hn) j hid
    have h₂ := Kahn.below_image (fun _ hn _ hd => h.represented_dep hn hd)
      (fun _ hn => h.reads_depsOf hn) j hsurv
    rw [h.fixed _ hid.2] at h₂
    rw [← h₁, h₂]
  simp [Kahn.mem_level, hbelow, hid.1, hsurv.1]

/-- The waves of the collapsed graph are the waves of the original with the dropped nodes
taken out; a represented node and its survivor run in the same wave. -/
theorem waves (h : Collapse g g' σ) :
    (∃ k, g.waves.map (List.filter (· ∈ nodeIds g'.nodes)) = g'.waves ++ List.replicate k []) ∧
    ∀ w ∈ g.waves, w.Pairwise (· < ·) ∧ (∀ id ∈ w, id ∈ nodeIds g.nodes) ∧
      ∀ id, Represented g g' σ id → (id ∈ w ↔ σ id ∈ w) := by
  have hdeps := fun (n : NodeId) (hn : n ∈ nodeIds g.nodes) d hd => depsOf_known g hn (d := d) hd
  have hdeps' := fun (n : NodeId) (hn : n ∈ nodeIds g'.nodes) d hd => depsOf_known g' hn (d := d) hd
  refine ⟨?_, fun w hw => ?_⟩
  · refine Kahn.layers_image g.wellFormed.sorted hdeps hdeps'
      (fun _ hn _ hd => h.represented_dep hn hd) (fun _ hn => h.reads_depsOf hn) h.keptIds ?_
    intro id _ hk
    have hid := of_decide_eq_true hk
    exact ⟨h.represented_kept hid, h.fixed id hid⟩
  · obtain ⟨m, _, _, hl, _⟩ := Kahn.layers_spec g.wellFormed.sorted hdeps
    have hwaves : g.waves = (List.range m).map (Kahn.level (nodeIds g.nodes) (depsOf g.nodes)) := hl
    rw [hwaves] at hw
    obtain ⟨j, _, rfl⟩ := List.mem_map.mp hw
    refine ⟨g.wellFormed.sorted.filter _, fun id hid => List.mem_of_mem_filter hid, ?_⟩
    intro id hid
    exact h.level_iff hid j

end Collapse

end OpenCodifier
