import OpenCodifier.Lib.Layering
import OpenCodifier.Engine.GraphValid
set_option autoImplicit false

namespace OpenCodifier

def Requires (nodes : List NodeSpec) (a b : NodeId) : Prop :=
  ∃ n ∈ nodes, n.id = a ∧ b ∈ n.dependsOn

/-- The graphs `DecisionGraph.new` is meant to accept, whatever order the nodes come in. -/
structure Admissible [RustStd] (nodes : List NodeSpec) : Prop where
  knobs : ∀ n ∈ nodes, n.validate = .ok ()
  ids_unique : (nodeIds nodes).Nodup
  deps_once : ∀ n ∈ nodes, n.dependsOn.Nodup
  deps_known : ∀ n ∈ nodes, ∀ d ∈ n.dependsOn, d ∈ nodeIds nodes
  acyclic : ∀ id, ¬ Relation.TransGen (Requires nodes) id id
  one_root : ∃! n, n ∈ nodes ∧ n.dependsOn = []
  one_output : ∃! n, n ∈ nodes ∧ n.kind = .output
  output_deps : ∀ n ∈ nodes, n.kind = .output → n.dependsOn ≠ []
  output_terminal : ∀ n ∈ nodes, n.kind = .output → ∀ m ∈ nodes, n.id ∉ m.dependsOn

section Declarative

variable {nodes : List NodeSpec}

theorem requires_iff (h : (nodeIds nodes).Nodup) {a b : NodeId} :
    Requires nodes a b ↔ b ∈ depsOf nodes a := by
  constructor
  · intro hr
    obtain ⟨n, hn, rfl, hb⟩ := hr
    rwa [depsOf_mem h hn]
  · intro hb
    unfold depsOf at hb
    cases hf : findNode nodes a with
    | none => simp [hf] at hb
    | some n =>
      obtain ⟨hn, rfl⟩ := findNode_some hf
      exact ⟨n, hn, rfl, by simpa [hf] using hb⟩

theorem transGen_requires_iff (h : (nodeIds nodes).Nodup) {a b : NodeId} :
    Relation.TransGen (Requires nodes) a b ↔ Kahn.DependsOn (depsOf nodes) a b := by
  have heq : Requires nodes = fun a b => b ∈ depsOf nodes a := by
    funext a b
    exact propext (requires_iff h)
  rw [heq]

theorem mem_ids_of_requires {a b : NodeId} (h : Relation.TransGen (Requires nodes) a b) :
    a ∈ nodeIds nodes := by
  obtain ⟨c, hc, -⟩ := Relation.TransGen.head'_iff.mp h
  obtain ⟨n, hn, rfl, -⟩ := hc
  exact mem_nodeIds.mpr ⟨n, hn, rfl⟩

theorem depsOf_known (hn : (nodeIds nodes).Nodup)
    (hk : ∀ n ∈ nodes, ∀ d ∈ n.dependsOn, d ∈ nodeIds nodes) :
    ∀ id ∈ nodeIds nodes, ∀ d ∈ depsOf nodes id, d ∈ nodeIds nodes := by
  intro id hid d hd
  obtain ⟨n, hmem, rfl⟩ := mem_nodeIds.mp hid
  rw [depsOf_mem hn hmem] at hd
  exact hk n hmem d hd

/-- Over declared dependencies, a rank of the nodes is a proof that there is no cycle. -/
theorem exists_rank_iff (hn : (nodeIds nodes).Nodup)
    (hk : ∀ n ∈ nodes, ∀ d ∈ n.dependsOn, d ∈ nodeIds nodes) :
    (∃ rank : NodeId → Nat, ∀ n ∈ nodes, ∀ d ∈ n.dependsOn, rank d < rank n.id) ↔
      ∀ id, ¬ Relation.TransGen (Requires nodes) id id := by
  have hrank : ∀ rank : NodeId → Nat,
      (∀ n ∈ nodes, ∀ d ∈ n.dependsOn, rank d < rank n.id) ↔
        ∀ id ∈ nodeIds nodes, ∀ d ∈ depsOf nodes id, rank d < rank id := by
    intro rank
    constructor
    · intro h id hid d hd
      obtain ⟨n, hmem, rfl⟩ := mem_nodeIds.mp hid
      rw [depsOf_mem hn hmem] at hd
      exact h n hmem d hd
    · intro h n hmem d hd
      refine h n.id (mem_nodeIds.mpr ⟨n, hmem, rfl⟩) d ?_
      rwa [depsOf_mem hn hmem]
  rw [exists_congr hrank, Kahn.exists_rank_iff_acyclic (depsOf_known hn hk)]
  constructor
  · intro h id hc
    exact h id (mem_ids_of_requires hc) ((transGen_requires_iff hn).mp hc)
  · intro h id _ hc
    exact h id ((transGen_requires_iff hn).mpr hc)

theorem filter_eq_singleton_iff {p : NodeSpec → Prop} [DecidablePred p] (hn : nodes.Nodup) :
    (∃ n, nodes.filter (fun m => p m) = [n]) ↔ ∃! n, n ∈ nodes ∧ p n := by
  constructor
  · intro h
    obtain ⟨n, hf⟩ := h
    have hmem : ∀ m, m ∈ nodes ∧ p m ↔ m = n := by
      intro m
      rw [← List.mem_singleton, ← hf]
      simp
    exact ⟨n, (hmem n).mpr rfl, fun m hm => (hmem m).mp hm⟩
  · intro h
    obtain ⟨n, hin, huniq⟩ := h
    refine ⟨n, List.perm_singleton.mp ?_⟩
    refine (List.perm_ext_iff_of_nodup (hn.filter _) (List.nodup_singleton n)).mpr fun m => ?_
    simp only [List.mem_filter, decide_eq_true_eq, List.mem_singleton]
    constructor
    · exact huniq m
    · intro hm
      rw [hm]
      exact hin

end Declarative

section Sorted

variable {nodes nodes' : List NodeSpec}

theorem requires_congr (h : ∀ n, n ∈ nodes' ↔ n ∈ nodes) : Requires nodes' = Requires nodes := by
  funext a b
  simp only [Requires, h]

theorem wellFormed_iff [RustStd] (hp : nodes'.Perm nodes)
    (hs : (nodeIds nodes').Pairwise (· ≤ ·)) (hv : ∀ n ∈ nodes, n.validate = .ok ()) :
    WellFormed nodes' ↔ Admissible nodes := by
  have hmem : ∀ n, n ∈ nodes' ↔ n ∈ nodes := fun n => hp.mem_iff
  have hids : (nodeIds nodes').Perm (nodeIds nodes) := hp.map _
  have hid : ∀ id, id ∈ nodeIds nodes' ↔ id ∈ nodeIds nodes := fun id => hids.mem_iff
  have hfilter : ∀ {p : NodeSpec → Prop} [DecidablePred p], (nodeIds nodes').Nodup →
      ((∃ n, nodes'.filter (fun m => p m) = [n]) ↔ ∃! n, n ∈ nodes ∧ p n) := by
    intro p _ hn
    rw [filter_eq_singleton_iff (List.Nodup.of_map _ hn)]
    simp only [hmem]
  constructor
  · intro h
    have hn : (nodeIds nodes').Nodup := h.sorted.imp ne_of_lt
    have hacyclic := (exists_rank_iff hn h.deps_known).mp h.acyclic
    rw [requires_congr hmem] at hacyclic
    exact
      { knobs := hv
        ids_unique := hids.nodup_iff.mp hn
        deps_once := fun n hm => h.deps_nodup n ((hmem n).mpr hm)
        deps_known := fun n hm d hd => (hid d).mp (h.deps_known n ((hmem n).mpr hm) d hd)
        acyclic := hacyclic
        one_root := (hfilter hn).mp h.one_root
        one_output := (hfilter hn).mp h.one_output
        output_deps := fun n hm => h.output_deps n ((hmem n).mpr hm)
        output_terminal := fun n hm hk m hm' =>
          h.output_terminal n ((hmem n).mpr hm) hk m ((hmem m).mpr hm') }
  · intro h
    have hn : (nodeIds nodes').Nodup := hids.nodup_iff.mpr h.ids_unique
    have hknown : ∀ n ∈ nodes', ∀ d ∈ n.dependsOn, d ∈ nodeIds nodes' := fun n hm d hd =>
      (hid d).mpr (h.deps_known n ((hmem n).mp hm) d hd)
    have hacyclic := h.acyclic
    rw [← requires_congr hmem] at hacyclic
    exact
      { sorted := hs.imp₂ (fun _ _ hle hne => lt_of_le_of_ne hle hne) hn
        deps_nodup := fun n hm => h.deps_once n ((hmem n).mp hm)
        deps_known := hknown
        acyclic := (exists_rank_iff hn hknown).mpr hacyclic
        one_root := (hfilter hn).mpr h.one_root
        one_output := (hfilter hn).mpr h.one_output
        output_deps := fun n hm => h.output_deps n ((hmem n).mp hm)
        output_terminal := fun n hm hk m hm' =>
          h.output_terminal n ((hmem n).mp hm) hk m ((hmem m).mp hm') }

end Sorted

section Waves

variable [RustStd]

theorem DecisionGraph.waves_eq (g : DecisionGraph) :
    ∃ m, g.waves = (List.range m).map (Kahn.level (nodeIds g.nodes) (depsOf g.nodes)) ∧
      ∀ id ∈ nodeIds g.nodes, Kahn.Below (depsOf g.nodes) m id = true := by
  have hdeps := depsOf_known g.ids_nodup g.wellFormed.deps_known
  obtain ⟨m, hm, -, hl, -⟩ := Kahn.layers_spec g.wellFormed.sorted hdeps
  obtain ⟨rank, hrank⟩ := g.wellFormed.acyclic
  refine ⟨m, hl, fun id hid => ?_⟩
  refine Kahn.below_of_level_nil _ _ hm hdeps hid
    (Kahn.below_of_rank _ _ hdeps rank ?_ hid (Nat.lt_succ_self _))
  intro id hid d hd
  obtain ⟨n, hn, rfl⟩ := mem_nodeIds.mp hid
  rw [depsOf_mem g.ids_nodup hn] at hd
  exact hrank n hn d hd

/-- The public `waves`: nothing when a node could not be placed. -/
def DecisionGraph.placedWaves (g : DecisionGraph) : Option (List (List NodeId)) :=
  if (wavesFor g.nodes).2.isNone then some (wavesFor g.nodes).1 else none

theorem DecisionGraph.placedWaves_eq (g : DecisionGraph) : g.placedWaves = some g.waves := by
  have h := (wavesFor_acyclic_iff g.wellFormed.sorted g.wellFormed.deps_known).mpr
    g.wellFormed.acyclic
  simp [placedWaves, h, waves]

theorem DecisionGraph.waves_flatten_perm (g : DecisionGraph) :
    g.waves.flatten.Perm (nodeIds g.nodes) := by
  obtain ⟨m, hw, hm⟩ := g.waves_eq
  have hnodup : g.waves.flatten.Nodup := by
    rw [hw, List.nodup_flatten]
    constructor
    · intro wave hwave
      obtain ⟨k, -, rfl⟩ := List.mem_map.mp hwave
      exact Kahn.level_nodup _ _ g.ids_nodup k
    · rw [List.pairwise_map]
      refine List.pairwise_lt_range.imp fun hij => ?_
      intro id hi hj
      have := Kahn.level_disjoint _ _ hi hj
      omega
  refine (List.perm_ext_iff_of_nodup hnodup g.ids_nodup).mpr fun id => ?_
  rw [hw]
  simp only [List.mem_flatten, List.mem_map, List.mem_range, exists_exists_and_eq_and]
  constructor
  · intro h
    obtain ⟨k, -, hk⟩ := h
    exact ((Kahn.mem_level _ _).mp hk).1
  · intro hid
    have hb := hm id hid
    refine ⟨Kahn.height (depsOf g.nodes) id, ?_, ?_⟩
    · by_contra hle
      have hf := (Kahn.below_height hb).2
      rw [Kahn.below_le _ (by omega) hb] at hf
      cases hf
    · exact (Kahn.mem_level_iff_height _ _ hid hb).mpr rfl

theorem DecisionGraph.mem_wave_iff (g : DecisionGraph) (k : Nat) (id : NodeId) :
    (∃ wave, g.waves[k]? = some wave ∧ id ∈ wave) ↔
      id ∈ nodeIds g.nodes ∧ IsGreatest {l | Kahn.Chain (depsOf g.nodes) id l} k := by
  obtain ⟨m, hw, hm⟩ := g.waves_eq
  rw [← Kahn.mem_level_iff_longest]
  constructor
  · intro h
    obtain ⟨wave, hk, hid⟩ := h
    rw [hw, List.getElem?_map] at hk
    obtain ⟨j, hj, rfl⟩ := Option.map_eq_some_iff.mp hk
    obtain ⟨hlt, rfl⟩ := List.getElem?_eq_some_iff.mp hj
    simpa using hid
  · intro hid
    refine ⟨_, ?_, hid⟩
    obtain ⟨hmem, -, hf⟩ := (Kahn.mem_level _ _).mp hid
    have hlt : k < m := by
      by_contra hle
      rw [Kahn.below_le _ (by omega) (hm id hmem)] at hf
      cases hf
    rw [hw, List.getElem?_map, List.getElem?_range hlt]
    rfl

end Waves

section Counters

/-- `wavesFor` with counters that refuse to go below zero and a loop that tells when it
did not end. -/
def wavesForChecked (nodes : List NodeSpec) :
    Except (Kahn.Fault NodeId) (List (List NodeId) × Option String) := do
  let layers ← Kahn.layersChecked (nodeIds nodes) (depsOf nodes)
  let placed := (layers.1.map List.length).sum
  pure (layers.1,
    if placed = nodes.length then none
    else some (((nodes.find? fun n => (layers.2.get? n.id).any (0 < ·)).map
      fun n => n.id.text).getD ""))

theorem wavesForChecked_eq {nodes : List NodeSpec} (hs : (nodeIds nodes).Pairwise (· < ·))
    (hk : ∀ n ∈ nodes, ∀ d ∈ n.dependsOn, d ∈ nodeIds nodes) :
    wavesForChecked nodes = .ok (wavesFor nodes) := by
  unfold wavesForChecked
  rw [Kahn.layersChecked_eq hs (depsOf_known (hs.imp ne_of_lt) hk)]
  rfl

variable [RustStd]

/-- The checks `DecisionGraph.new` makes before it computes waves all pass. -/
structure ReachesWaves (nodes : List NodeSpec) : Prop where
  nonempty : nodes ≠ []
  valid : nodes.forM NodeSpec.validate = .ok ()
  unique : checkUnique (nodes.insertionSort NodeSpec.idOrder) = .ok ()
  deps : (nodes.insertionSort NodeSpec.idOrder).forM
    (fun n => checkDependencies (nodes.insertionSort NodeSpec.idOrder) n [] n.dependsOn) = .ok ()

omit [RustStd] in
theorem checkUnique_ok_iff {nodes : List NodeSpec} (hs : (nodeIds nodes).Pairwise (· ≤ ·)) :
    checkUnique nodes = .ok () ↔ (nodeIds nodes).Pairwise (· < ·) := by
  rw [← adjacentRepeat_none_iff hs]
  unfold checkUnique
  cases adjacentRepeat (nodeIds nodes) <;> simp

omit [RustStd] in
theorem deps_known_of_check {nodes : List NodeSpec}
    (h : nodes.forM (fun n => checkDependencies nodes n [] n.dependsOn) = .ok ()) :
    ∀ n ∈ nodes, ∀ d ∈ n.dependsOn, d ∈ nodeIds nodes := by
  intro n hn d hd
  have hok := (Result.forM_ok_iff _ _).mp h n hn
  exact (((checkDependencies_ok_iff n [] n.dependsOn).mp hok).2 d hd).2

end Counters

section Cycles

/-- A check that does not report a cycle. -/
def NoCycle (r : EngineResult Unit) : Prop := ∀ node, r ≠ .error (.cycle node)

theorem NoCycle.ok : NoCycle (.ok ()) := fun _ h => by cases h

theorem NoCycle.bind {x y : EngineResult Unit} (hx : NoCycle x) (hy : NoCycle y) :
    NoCycle (do x; y) := by
  intro node h
  cases x with
  | error e =>
    refine hx node ?_
    simpa [Bind.bind, Except.bind] using h
  | ok u => exact hy node h

theorem NoCycle.forM {α : Type} {f : α → EngineResult Unit} {l : List α}
    (h : ∀ a ∈ l, NoCycle (f a)) : NoCycle (l.forM f) := by
  induction l with
  | nil => exact .ok
  | cons a l ih =>
    exact (h a List.mem_cons_self).bind (ih fun b hb => h b (List.mem_cons_of_mem _ hb))

theorem NoCycle.ite {p : Prop} [Decidable p] {x y : EngineResult Unit} (hx : NoCycle x)
    (hy : NoCycle y) : NoCycle (if p then x else y) := by
  split
  · exact hx
  · exact hy

variable [RustStd]

theorem Condition.noCycle_validateFact (fact : String) : NoCycle (Condition.validateFact fact) :=
  .ite (fun _ h => by cases h) .ok

mutual

theorem Condition.noCycle_validate : ∀ c : Condition, NoCycle c.validate
  | .factEquals fact _ => noCycle_validateFact fact
  | .factExists fact => noCycle_validateFact fact
  | .factGt fact _ => noCycle_validateFact fact
  | .factGte fact _ => noCycle_validateFact fact
  | .factLt fact _ => noCycle_validateFact fact
  | .factLte fact _ => noCycle_validateFact fact
  | .factContains fact _ =>
    (noCycle_validateFact fact).bind (.ite (fun _ h => by cases h) .ok)
  | .listContains fact _ =>
    (noCycle_validateFact fact).bind (.ite (fun _ h => by cases h) .ok)
  | .all conditions => .ite (fun _ h => by cases h) (noCycle_validateAll conditions)
  | .any conditions => .ite (fun _ h => by cases h) (noCycle_validateAll conditions)
  | .not condition => noCycle_validate condition

theorem Condition.noCycle_validateAll : ∀ cs : List Condition, NoCycle (Condition.validateAll cs)
  | [] => .ok
  | c :: cs => (noCycle_validate c).bind (noCycle_validateAll cs)

end

theorem NodeSpec.noCycle_validate (n : NodeSpec) : NoCycle n.validate := by
  have hinvalid : ∀ reason, NoCycle (n.invalid reason) := fun _ _ h => by cases h
  have hthreshold : NoCycle n.validateThreshold := by
    unfold validateThreshold
    split
    · split
      · exact hinvalid _
      · exact .ite .ok (hinvalid _)
    · exact .ite (hinvalid _) .ok
    · exact .ite (hinvalid _) .ok
  have hretrieve : NoCycle n.validateRetrieve := by
    refine .ite (.ite (hinvalid _) ?_) .ok
    split
    · exact .ite .ok (hinvalid _)
    · exact .ok
  refine hthreshold.bind ((NoCycle.ite (.ite .ok (hinvalid _)) .ok).bind (hretrieve.bind
    ((NoCycle.ite (.ite .ok (hinvalid _)) .ok).bind ?_)))
  split
  · exact Condition.noCycle_validate _
  · exact .ok

omit [RustStd] in
theorem noCycle_checkDependencies (nodes : List NodeSpec) (n : NodeSpec)
    (seen deps : List NodeId) : NoCycle (checkDependencies nodes n seen deps) := by
  induction deps generalizing seen with
  | nil => exact .ok
  | cons d deps ih =>
    exact .ite (fun _ h => by cases h) (.ite (fun _ h => by cases h) (ih _))

omit [RustStd] in
theorem noCycle_checkUnique (nodes : List NodeSpec) : NoCycle (checkUnique nodes) := by
  unfold checkUnique
  split
  · intro node h
    cases h
  · exact .ok

omit [RustStd] in
theorem noCycle_checkOutput (nodes : List NodeSpec) : NoCycle (checkOutput nodes) := by
  unfold checkOutput
  split
  · exact fun _ h => by cases h
  · refine .ite (fun _ h => by cases h) ?_
    split
    · exact fun _ h => by cases h
    · exact .ok
  · exact fun _ h => by cases h

omit [RustStd] in
theorem noCycle_checkRoot {nodes : List NodeSpec} (hne : nodes ≠ [])
    (hk : ∀ n ∈ nodes, ∀ d ∈ n.dependsOn, d ∈ nodeIds nodes)
    (hrank : ∃ rank : NodeId → Nat, ∀ n ∈ nodes, ∀ d ∈ n.dependsOn, rank d < rank n.id) :
    NoCycle (checkRoot nodes) := by
  obtain ⟨rank, hrank⟩ := hrank
  have hroot : ∃ n ∈ nodes, n.dependsOn = [] := by
    obtain ⟨n, hn⟩ := List.exists_mem_of_ne_nil nodes hne
    induction hr : rank n.id using Nat.strong_induction_on generalizing n with
    | _ r ih =>
      cases hd : n.dependsOn with
      | nil => exact ⟨n, hn, hd⟩
      | cons d rest =>
        have hdn : d ∈ n.dependsOn := by simp [hd]
        obtain ⟨m, hm, rfl⟩ := mem_nodeIds.mp (hk n hn d hdn)
        exact ih (rank m.id) (hr ▸ hrank n hn m.id hdn) m hm rfl
  obtain ⟨n, hn, hd⟩ := hroot
  have hmem : n ∈ nodes.filter fun n => n.dependsOn = [] :=
    List.mem_filter.mpr ⟨hn, by simpa using hd⟩
  unfold checkRoot
  split
  · rename_i h
    rw [h] at hmem
    cases hmem
  · exact .ite (fun _ h => by cases h) .ok
  · exact fun _ h => by cases h

end Cycles

section Law

variable [RustStd]

omit [RustStd] in
theorem bind_unit_error {x y : EngineResult Unit} {e : EngineError} :
    (do x; y) = .error e ↔ x = .error e ∨ x = .ok () ∧ y = .error e := by
  cases x with
  | error e' => simp [Bind.bind, Except.bind]
  | ok u => simp [Bind.bind, Except.bind]

omit [RustStd] in
theorem checkAcyclic_ok_iff {nodes : List NodeSpec} :
    checkAcyclic nodes = .ok () ↔ (wavesFor nodes).2 = none := by
  unfold checkAcyclic
  cases (wavesFor nodes).2 <;> simp

omit [RustStd] in
/-- Of the structural checks only the wave computation reports a cycle. -/
theorem checkGraph_cycle_iff {nodes : List NodeSpec} (hne : nodes ≠ [])
    (hs : (nodeIds nodes).Pairwise (· ≤ ·)) {node : String} :
    checkGraph nodes = .error (.cycle node) ↔ checkUnique nodes = .ok () ∧
      nodes.forM (fun n => checkDependencies nodes n [] n.dependsOn) = .ok () ∧
      checkAcyclic nodes = .error (.cycle node) := by
  unfold checkGraph
  constructor
  · intro h
    obtain h | ⟨hu, h⟩ := bind_unit_error.mp h
    · exact absurd h (noCycle_checkUnique nodes node)
    obtain h | ⟨hd, h⟩ := bind_unit_error.mp h
    · exact absurd h (NoCycle.forM (fun n _ => noCycle_checkDependencies nodes n _ _) node)
    obtain h | ⟨ha, h⟩ := bind_unit_error.mp h
    · exact ⟨hu, hd, h⟩
    have hk := deps_known_of_check hd
    have hrank := (wavesFor_acyclic_iff ((checkUnique_ok_iff hs).mp hu) hk).mp
      (checkAcyclic_ok_iff.mp ha)
    obtain h | ⟨-, h⟩ := bind_unit_error.mp h
    · exact absurd h (noCycle_checkRoot hne hk hrank node)
    · exact absurd h (noCycle_checkOutput nodes node)
  · intro h
    obtain ⟨hu, hd, ha⟩ := h
    rw [bind_unit_error, bind_unit_error, bind_unit_error]
    exact Or.inr ⟨hu, Or.inr ⟨hd, Or.inl ha⟩⟩

theorem DecisionGraph.new_cycle_iff (version : Nat) (nodes : List NodeSpec) (node : String) :
    DecisionGraph.new version nodes = .error (.cycle node) ↔
      ReachesWaves nodes ∧
        checkAcyclic (nodes.insertionSort NodeSpec.idOrder) = .error (.cycle node) := by
  have hsorted := nodeIds_insertionSort_sorted nodes
  have hne' : nodes ≠ [] → nodes.insertionSort NodeSpec.idOrder ≠ [] := by
    intro hne h
    have hlen := (List.perm_insertionSort NodeSpec.idOrder nodes).length_eq
    rw [h] at hlen
    exact hne (List.eq_nil_of_length_eq_zero hlen.symm)
  constructor
  · intro h
    unfold DecisionGraph.new at h
    split at h
    · cases h
    · rename_i hne
      split at h
      · rename_i e he
        cases h
        exact absurd he (NoCycle.forM (fun n _ => n.noCycle_validate) node)
      · rename_i hv
        split at h
        · rename_i e he
          cases h
          obtain ⟨hu, hd, ha⟩ := (checkGraph_cycle_iff (hne' hne) hsorted).mp he
          exact ⟨⟨hne, hv, hu, hd⟩, ha⟩
        · cases h
  · intro h
    obtain ⟨⟨hne, hv, hu, hd⟩, ha⟩ := h
    have hg := (checkGraph_cycle_iff (hne' hne) hsorted).mpr ⟨hu, hd, ha⟩
    unfold DecisionGraph.new
    rw [if_neg hne]
    split
    · rename_i e he
      rw [hv] at he
      cases he
    · split
      · rename_i e he
        rw [hg] at he
        cases he
        rfl
      · rename_i hok
        rw [hg] at hok
        cases hok

omit [RustStd] in
theorem depsOf_perm {nodes nodes' : List NodeSpec} (hp : nodes'.Perm nodes)
    (hn : (nodeIds nodes').Nodup) : depsOf nodes' = depsOf nodes := by
  have hn' : (nodeIds nodes).Nodup := (hp.map NodeSpec.id).nodup_iff.mp hn
  funext a
  by_cases ha : a ∈ nodeIds nodes'
  · obtain ⟨n, hm, rfl⟩ := mem_nodeIds.mp ha
    rw [depsOf_mem hn hm, depsOf_mem hn' (hp.mem_iff.mp hm)]
  · have hnone : ∀ ns : List NodeSpec, a ∉ nodeIds ns → depsOf ns a = [] := by
      intro ns hns
      unfold depsOf
      cases hf : findNode ns a with
      | none => rfl
      | some n =>
        obtain ⟨hm, rfl⟩ := findNode_some hf
        exact absurd (mem_nodeIds.mpr ⟨n, hm, rfl⟩) hns
    have ha' : a ∉ nodeIds nodes := fun h => ha ((hp.map NodeSpec.id).mem_iff.mpr h)
    rw [hnone nodes' ha, hnone nodes ha']

/-- Where waves are computed they report a cycle exactly when there is one. -/
theorem checkAcyclic_cycle_iff {nodes : List NodeSpec} (h : ReachesWaves nodes) :
    (∃ node, checkAcyclic (nodes.insertionSort NodeSpec.idOrder) = .error (.cycle node)) ↔
      ∃ id, Relation.TransGen (Requires nodes) id id := by
  have hperm := List.perm_insertionSort NodeSpec.idOrder nodes
  have hlt := (checkUnique_ok_iff (nodeIds_insertionSort_sorted nodes)).mp h.unique
  have hk := deps_known_of_check h.deps
  have hiff := (wavesFor_acyclic_iff hlt hk).trans (exists_rank_iff (hlt.imp ne_of_lt) hk)
  rw [requires_congr fun n => hperm.mem_iff] at hiff
  have hcheck : (∃ node, checkAcyclic (nodes.insertionSort NodeSpec.idOrder) =
      .error (.cycle node)) ↔ ¬ (wavesFor (nodes.insertionSort NodeSpec.idOrder)).2 = none := by
    unfold checkAcyclic
    cases (wavesFor (nodes.insertionSort NodeSpec.idOrder)).2 <;> simp
  rw [hcheck, hiff]
  push Not
  rfl

/-- What construction accepts, what the waves of an accepted graph are, and that on every
list of nodes for which waves are computed no counter goes below zero, the loop ends and a
cycle is reported exactly when there is one. -/
theorem DecisionGraph.new_waves_law (version : Nat) (nodes : List NodeSpec) :
    ((∃ g, DecisionGraph.new version nodes = .ok g) ↔ Admissible nodes) ∧
    (∀ g, DecisionGraph.new version nodes = .ok g → ∃ waves, g.placedWaves = some waves ∧
      waves.flatten.Perm (nodeIds nodes) ∧ waves.flatten.Nodup ∧
      ∀ k id, (∃ wave, waves[k]? = some wave ∧ id ∈ wave) ↔
        id ∈ nodeIds nodes ∧ IsGreatest {l | Kahn.Chain (depsOf nodes) id l} k) ∧
    (ReachesWaves nodes → wavesForChecked (nodes.insertionSort NodeSpec.idOrder) =
      .ok (wavesFor (nodes.insertionSort NodeSpec.idOrder))) ∧
    ((∃ node, DecisionGraph.new version nodes = .error (.cycle node)) ↔
      ReachesWaves nodes ∧ ∃ id, Relation.TransGen (Requires nodes) id id) := by
  have hperm := List.perm_insertionSort NodeSpec.idOrder nodes
  have hids : (nodeIds (nodes.insertionSort NodeSpec.idOrder)).Perm (nodeIds nodes) := hperm.map _
  have hsorted := nodeIds_insertionSort_sorted nodes
  refine ⟨?_, fun g hg => ?_, fun h => ?_, ?_⟩
  · rw [DecisionGraph.new_isOk_iff]
    constructor
    · intro h
      obtain ⟨-, hv, hw⟩ := h
      exact (wellFormed_iff hperm hsorted hv).mp hw
    · intro h
      refine ⟨?_, h.knobs, (wellFormed_iff hperm hsorted h.knobs).mpr h⟩
      intro hnil
      obtain ⟨n, ⟨hn, -⟩, -⟩ := h.one_root
      simp [hnil] at hn
  · obtain ⟨-, hnodes⟩ := DecisionGraph.new_ok hg
    have hflat := g.waves_flatten_perm
    refine ⟨g.waves, g.placedWaves_eq, ?_, hflat.nodup_iff.mpr g.ids_nodup, fun k id => ?_⟩
    · rw [hnodes] at hflat
      exact hflat.trans hids
    · have hdeps : depsOf g.nodes = depsOf nodes := by
        rw [hnodes]
        exact depsOf_perm hperm (hnodes ▸ g.ids_nodup)
      rw [g.mem_wave_iff, hdeps, hnodes, hids.mem_iff]
  · have hlt := (checkUnique_ok_iff hsorted).mp h.unique
    exact wavesForChecked_eq hlt (deps_known_of_check h.deps)
  · constructor
    · intro h
      obtain ⟨node, h⟩ := h
      obtain ⟨hr, ha⟩ := (DecisionGraph.new_cycle_iff version nodes node).mp h
      exact ⟨hr, (checkAcyclic_cycle_iff hr).mp ⟨node, ha⟩⟩
    · intro h
      obtain ⟨hr, hc⟩ := h
      obtain ⟨node, ha⟩ := (checkAcyclic_cycle_iff hr).mpr hc
      exact ⟨node, (DecisionGraph.new_cycle_iff version nodes node).mpr ⟨hr, ha⟩⟩

end Law

end OpenCodifier
