import OpenCodifier.Lib.Result
import OpenCodifier.Engine.Graph
set_option autoImplicit false

namespace OpenCodifier

variable {nodes : List NodeSpec}

theorem adjacentRepeat_none_iff {l : List NodeId} (hs : l.Pairwise (· ≤ ·)) :
    adjacentRepeat l = none ↔ l.Pairwise (· < ·) := by
  induction l with
  | nil => simp [adjacentRepeat]
  | cons a l ih =>
    cases l with
    | nil => simp [adjacentRepeat]
    | cons b l =>
      have hab : a ≤ b := List.rel_of_pairwise_cons hs List.mem_cons_self
      simp only [adjacentRepeat]
      split
      · rename_i h
        subst h
        simp
      · rename_i h
        rw [ih hs.of_cons]
        constructor
        · intro hp
          refine List.pairwise_cons.mpr ⟨fun c hc => ?_, hp⟩
          have hlt : a < b := lt_of_le_of_ne hab h
          rcases List.mem_cons.mp hc with rfl | hc
          · exact hlt
          · exact hlt.trans (List.rel_of_pairwise_cons hp hc)
        · exact fun hp => hp.of_cons

theorem checkDependencies_ok_iff (node : NodeSpec) (seen deps : List NodeId) :
    checkDependencies nodes node seen deps = .ok () ↔
      deps.Nodup ∧ ∀ d ∈ deps, d ∉ seen ∧ d ∈ nodeIds nodes := by
  induction deps generalizing seen with
  | nil => simp [checkDependencies]
  | cons d deps ih =>
    simp only [checkDependencies]
    split
    · rename_i h
      simp [h]
    · rename_i hseen
      split
      · rename_i h
        simp [h]
      · rename_i hknown
        push Not at hknown
        rw [ih]
        constructor
        · rintro ⟨hn, hall⟩
          refine ⟨List.nodup_cons.mpr ⟨fun hd => ?_, hn⟩, fun e he => ?_⟩
          · exact (hall d hd).1 List.mem_cons_self
          · rcases List.mem_cons.mp he with rfl | he
            · exact ⟨hseen, hknown⟩
            · exact ⟨fun hm => (hall e he).1 (List.mem_cons_of_mem _ hm), (hall e he).2⟩
        · rintro ⟨hn, hall⟩
          rw [List.nodup_cons] at hn
          refine ⟨hn.2, fun e he => ⟨fun hm => ?_, (hall e (List.mem_cons_of_mem _ he)).2⟩⟩
          rcases List.mem_cons.mp hm with rfl | hm
          · exact hn.1 he
          · exact (hall e (List.mem_cons_of_mem _ he)).1 hm

theorem wavesFor_acyclic_iff (hs : (nodeIds nodes).Pairwise (· < ·))
    (hk : ∀ n ∈ nodes, ∀ d ∈ n.dependsOn, d ∈ nodeIds nodes) :
    (wavesFor nodes).2 = none ↔
      ∃ rank : NodeId → Nat, ∀ n ∈ nodes, ∀ d ∈ n.dependsOn, rank d < rank n.id := by
  have hnd : (nodeIds nodes).Nodup := hs.imp ne_of_lt
  have hdeps : ∀ id ∈ nodeIds nodes, ∀ d ∈ depsOf nodes id, d ∈ nodeIds nodes := by
    intro id hid d hd
    obtain ⟨n, hn, rfl⟩ := mem_nodeIds.mp hid
    rw [depsOf_mem hnd hn] at hd
    exact hk n hn d hd
  have hlen : nodes.length = (nodeIds nodes).length := by simp [nodeIds]
  have h := Kahn.layers_complete_iff hs hdeps
  simp only [wavesFor, hlen]
  constructor
  · intro hw
    split at hw
    · rename_i hp
      obtain ⟨rank, hrank⟩ := h.mp hp
      refine ⟨rank, fun n hn d hd => hrank n.id (mem_nodeIds.mpr ⟨n, hn, rfl⟩) d ?_⟩
      rwa [depsOf_mem hnd hn]
    · cases hw
  · rintro ⟨rank, hrank⟩
    rw [if_pos]
    refine h.mpr ⟨rank, fun id hid d hd => ?_⟩
    obtain ⟨n, hn, rfl⟩ := mem_nodeIds.mp hid
    rw [depsOf_mem hnd hn] at hd
    exact hrank n hn d hd

theorem mem_reachableFrom_iff (hs : (nodeIds nodes).Nodup) {root : NodeId}
    (hroot : root ∈ nodeIds nodes) (x : NodeId) :
    x ∈ reachableFrom nodes root ↔
      Relation.ReflTransGen (fun a b => b ∈ dependentsIn nodes a) root x := by
  have hU : ∀ a ∈ (nodeIds nodes).toFinset, ∀ b ∈ (dependentsIn nodes a).reverse,
      b ∈ (nodeIds nodes).toFinset := by
    intro a _ b hb
    rw [List.mem_reverse, mem_dependentsIn] at hb
    obtain ⟨n, hn, _, rfl⟩ := hb
    simpa using mem_nodeIds.mpr ⟨n, hn, rfl⟩
  have hfuel : Worklist.work (fun id => (dependentsIn nodes id).reverse)
      (nodeIds nodes).toFinset [root] [] ≤ traversalFuel nodes := by
    unfold Worklist.work traversalFuel
    simp only [List.length_singleton, List.not_mem_nil, not_false_eq_true, Finset.filter_true,
      List.length_reverse]
    rw [List.sum_toFinset _ hs]
  unfold reachableFrom
  rw [Worklist.mem_explore_iff _ hU _ [root] (by simpa using hroot) hfuel]
  simp

theorem reachable_of_rank {rank : NodeId → Nat}
    (hrank : ∀ n ∈ nodes, ∀ d ∈ n.dependsOn, rank d < rank n.id)
    (hk : ∀ n ∈ nodes, ∀ d ∈ n.dependsOn, d ∈ nodeIds nodes) {root : NodeSpec}
    (hroot : nodes.filter (fun n => n.dependsOn = []) = [root]) {n : NodeSpec} (hn : n ∈ nodes) :
    Relation.ReflTransGen (fun a b => b ∈ dependentsIn nodes a) root.id n.id := by
  induction hr : rank n.id using Nat.strong_induction_on generalizing n with
  | _ r ih =>
    cases hd : n.dependsOn with
    | nil =>
      have hm : n ∈ nodes.filter fun n => n.dependsOn = [] := List.mem_filter.mpr ⟨hn, by simp [hd]⟩
      rw [hroot, List.mem_singleton] at hm
      rw [hm]
    | cons d rest =>
      have hdn : d ∈ n.dependsOn := by simp [hd]
      obtain ⟨m, hm, rfl⟩ := mem_nodeIds.mp (hk n hn d hdn)
      have hlt := hrank n hn m.id hdn
      refine Relation.ReflTransGen.tail (ih (rank m.id) (hr ▸ hlt) hm rfl) ?_
      exact mem_dependentsIn.mpr ⟨n, hn, hdn, rfl⟩

theorem checkRoot_ok_iff (hs : (nodeIds nodes).Nodup) {rank : NodeId → Nat}
    (hrank : ∀ n ∈ nodes, ∀ d ∈ n.dependsOn, rank d < rank n.id)
    (hk : ∀ n ∈ nodes, ∀ d ∈ n.dependsOn, d ∈ nodeIds nodes) :
    checkRoot nodes = .ok () ↔ ∃ root, nodes.filter (fun n => n.dependsOn = []) = [root] := by
  unfold checkRoot
  split
  · rename_i h
    simp [h]
  · rename_i root h
    have hmem : root ∈ nodes.filter fun n => n.dependsOn = [] := by rw [h]; simp
    have hroot : root.id ∈ nodeIds nodes := mem_nodeIds.mpr ⟨root, List.mem_of_mem_filter hmem, rfl⟩
    have hperm : (reachableFrom nodes root.id).Perm (nodeIds nodes) := by
      refine (List.perm_ext_iff_of_nodup (Worklist.explore_nodup _ _ _ _ List.nodup_nil) hs).mpr
        fun x => ?_
      change x ∈ reachableFrom nodes root.id ↔ _
      rw [mem_reachableFrom_iff hs hroot]
      constructor
      · intro hx
        cases hx with
        | refl => exact hroot
        | tail _ hstep =>
          obtain ⟨n, hn, _, rfl⟩ := mem_dependentsIn.mp hstep
          exact mem_nodeIds.mpr ⟨n, hn, rfl⟩
      · intro hx
        obtain ⟨n, hn, rfl⟩ := mem_nodeIds.mp hx
        exact reachable_of_rank hrank hk h hn
    have hlen : (reachableFrom nodes root.id).length = nodes.length := by
      rw [hperm.length_eq]
      simp [nodeIds]
    simp [hlen, h]
  · rename_i roots h₀ h₁
    simp only [reduceCtorEq, false_iff, not_exists]
    exact fun root h => h₁ root h

theorem checkOutput_ok_iff :
    checkOutput nodes = .ok () ↔
      (∃ output, nodes.filter (fun n => n.kind = .output) = [output]) ∧
      (∀ n ∈ nodes, n.kind = .output → n.dependsOn ≠ []) ∧
      ∀ n ∈ nodes, n.kind = .output → ∀ m ∈ nodes, n.id ∉ m.dependsOn := by
  unfold checkOutput
  split
  · rename_i h
    simp [h]
  · rename_i output h
    have hiff : ∀ n, (n ∈ nodes ∧ n.kind = .output) ↔ n = output := by
      intro n
      have : n ∈ nodes.filter (fun n => n.kind = .output) ↔ n = output := by rw [h]; simp
      simpa using this
    have hout := (hiff output).mpr rfl
    split
    · rename_i hd
      simp only [reduceCtorEq, false_iff]
      exact fun hall => hall.2.1 output hout.1 hout.2 hd
    · rename_i hd
      split
      · rename_i m hm
        simp only [reduceCtorEq, false_iff]
        intro hall
        exact hall.2.2 output hout.1 hout.2 m (List.mem_of_find?_eq_some hm)
          (by simpa using List.find?_some hm)
      · rename_i hnone
        simp only [true_iff]
        refine ⟨⟨output, h⟩, fun n hn hk => ?_, fun n hn hk m hm => ?_⟩
        · rw [(hiff n).mp ⟨hn, hk⟩]
          exact hd
        · rw [(hiff n).mp ⟨hn, hk⟩]
          simpa using List.find?_eq_none.mp hnone m hm
  · rename_i outputs h₀ h₁
    simp only [reduceCtorEq, false_iff, not_and]
    exact fun hex => absurd hex (by rintro ⟨o, ho⟩; exact h₁ o ho)

/-- On nodes sorted by id the checks accept exactly the well-formed graphs. -/
theorem checkGraph_ok_iff (hs : (nodeIds nodes).Pairwise (· ≤ ·)) :
    checkGraph nodes = .ok () ↔ WellFormed nodes := by
  unfold checkGraph
  rw [Result.bind_unit_ok, Result.bind_unit_ok, Result.bind_unit_ok, Result.bind_unit_ok,
    Result.forM_ok_iff]
  have hrep : checkUnique nodes = .ok () ↔ (nodeIds nodes).Pairwise (· < ·) := by
    rw [← adjacentRepeat_none_iff hs]
    unfold checkUnique
    cases adjacentRepeat (nodeIds nodes) <;> simp
  have hwav : checkAcyclic nodes = .ok () ↔ (wavesFor nodes).2 = none := by
    unfold checkAcyclic
    cases (wavesFor nodes).2 <;> simp
  rw [hrep, hwav, checkOutput_ok_iff]
  constructor
  · rintro ⟨hlt, hdeps, hw, hroot, hone, hod, hot⟩
    have hdn : ∀ n ∈ nodes, n.dependsOn.Nodup := fun n hn =>
      ((checkDependencies_ok_iff n [] n.dependsOn).mp (hdeps n hn)).1
    have hdk : ∀ n ∈ nodes, ∀ d ∈ n.dependsOn, d ∈ nodeIds nodes := fun n hn d hd =>
      (((checkDependencies_ok_iff n [] n.dependsOn).mp (hdeps n hn)).2 d hd).2
    obtain ⟨rank, hrank⟩ := (wavesFor_acyclic_iff hlt hdk).mp hw
    exact ⟨hlt, hdn, hdk, ⟨rank, hrank⟩,
      (checkRoot_ok_iff (hlt.imp ne_of_lt) hrank hdk).mp hroot, hone, hod, hot⟩
  · intro h
    obtain ⟨rank, hrank⟩ := h.acyclic
    refine ⟨h.sorted, fun n hn => ?_, ?_, ?_, h.one_output, h.output_deps, h.output_terminal⟩
    · exact (checkDependencies_ok_iff n [] n.dependsOn).mpr
        ⟨h.deps_nodup n hn, fun d hd => ⟨by simp, h.deps_known n hn d hd⟩⟩
    · exact (wavesFor_acyclic_iff h.sorted h.deps_known).mpr ⟨rank, hrank⟩
    · exact (checkRoot_ok_iff (h.sorted.imp ne_of_lt) hrank h.deps_known).mpr h.one_root

theorem nodeIds_insertionSort_sorted (nodes : List NodeSpec) :
    (nodeIds (nodes.insertionSort NodeSpec.idOrder)).Pairwise (· ≤ ·) := by
  have htot : Std.Total NodeSpec.idOrder := ⟨fun a b => le_total a.id b.id⟩
  have htrans : IsTrans NodeSpec NodeSpec.idOrder := ⟨fun _ _ _ => le_trans⟩
  exact List.pairwise_map.mpr (List.pairwise_insertionSort NodeSpec.idOrder nodes)

/-- A validated decision graph: its nodes are sorted by id, every node passed
its own validation, and the structure is well formed. -/
structure DecisionGraph [RustStd] where
  version : Nat
  nodes : List NodeSpec
  nodes_valid : ∀ n ∈ nodes, n.validate = .ok ()
  wellFormed : WellFormed nodes

namespace DecisionGraph

variable [RustStd]

/-- Validation of every node in input order, then of the sorted graph. -/
def new (version : Nat) (nodes : List NodeSpec) : EngineResult DecisionGraph :=
  if nodes = [] then .error .missingOutput
  else match hv : nodes.forM NodeSpec.validate with
    | .error e => .error e
    | .ok () =>
      match hg : checkGraph (nodes.insertionSort NodeSpec.idOrder) with
      | .error e => .error e
      | .ok () => .ok {
          version
          nodes := nodes.insertionSort NodeSpec.idOrder
          nodes_valid := fun n hn =>
            (Result.forM_ok_iff _ _).mp hv n ((List.mem_insertionSort _).mp hn)
          wellFormed :=
            (checkGraph_ok_iff (nodeIds_insertionSort_sorted nodes)).mp hg }

def node (g : DecisionGraph) (id : NodeId) : Option NodeSpec := findNode g.nodes id

theorem output_isSome (g : DecisionGraph) :
    (g.nodes.find? fun n => n.kind = .output).isSome = true := by
  obtain ⟨output, h⟩ := g.wellFormed.one_output
  have hm : output ∈ g.nodes.filter fun n => n.kind = .output := by rw [h]; simp
  rw [List.mem_filter] at hm
  exact List.find?_isSome.mpr ⟨output, hm⟩

def output (g : DecisionGraph) : NodeSpec :=
  (g.nodes.find? fun n => n.kind = .output).get g.output_isSome

theorem output_mem (g : DecisionGraph) : g.output ∈ g.nodes :=
  List.mem_of_find?_eq_some (Option.some_get g.output_isSome).symm

theorem output_kind (g : DecisionGraph) : g.output.kind = .output := by
  have h := List.find?_some (Option.some_get g.output_isSome).symm
  exact of_decide_eq_true h

theorem eq_output (g : DecisionGraph) {n : NodeSpec} (hn : n ∈ g.nodes) (hk : n.kind = .output) :
    n = g.output := by
  obtain ⟨output, h⟩ := g.wellFormed.one_output
  have hiff : ∀ m, m ∈ g.nodes → m.kind = .output → m = output := by
    intro m hm hmk
    have : m ∈ g.nodes.filter fun n => n.kind = .output := List.mem_filter.mpr ⟨hm, by simpa⟩
    rw [h] at this
    simpa using this
  rw [hiff n hn hk, hiff _ g.output_mem g.output_kind]

def dependentsOf (g : DecisionGraph) (id : NodeId) : List NodeId := dependentsIn g.nodes id

def waves (g : DecisionGraph) : List (List NodeId) := (wavesFor g.nodes).1

theorem ids_nodup (g : DecisionGraph) : (nodeIds g.nodes).Nodup := g.wellFormed.sorted.imp ne_of_lt

/-- Construction succeeds exactly on non-empty lists of valid nodes that are
well formed once sorted. -/
theorem new_isOk_iff (version : Nat) (nodes : List NodeSpec) :
    (∃ g, new version nodes = .ok g) ↔
      nodes ≠ [] ∧ (∀ n ∈ nodes, n.validate = .ok ()) ∧
        WellFormed (nodes.insertionSort NodeSpec.idOrder) := by
  rw [← checkGraph_ok_iff (nodeIds_insertionSort_sorted nodes), ← Result.forM_ok_iff]
  unfold new
  split
  · rename_i h
    simp [h]
  · rename_i h
    split
    · rename_i e he
      simp [he]
    · rename_i hv
      split
      · rename_i e he
        simp [he]
      · rename_i hg
        simp [h, hv, hg]

theorem new_ok {version : Nat} {nodes : List NodeSpec} {g : DecisionGraph}
    (h : new version nodes = .ok g) :
    g.version = version ∧ g.nodes = nodes.insertionSort NodeSpec.idOrder := by
  unfold new at h
  split at h
  · cases h
  · split at h
    · cases h
    · split at h
      · cases h
      · cases h
        exact ⟨rfl, rfl⟩

end DecisionGraph

end OpenCodifier
