import OpenCodifier.Engine.Merge
import OpenCodifier.Engine.Sample
set_option autoImplicit false

namespace OpenCodifier

theorem filter_eq_singleton {α : Type} {p : α → Bool} {l : List α} {x : α} (hl : l.Nodup)
    (hx : x ∈ l) (hp : p x = true) (huniq : ∀ y ∈ l, p y = true → y = x) : l.filter p = [x] := by
  refine List.perm_singleton.mp ((List.perm_ext_iff_of_nodup (hl.filter _)
    (List.nodup_singleton x)).mpr fun y => ?_)
  rw [List.mem_filter, List.mem_singleton]
  constructor
  · rintro ⟨hy, hpy⟩
    exact huniq y hy hpy
  · rintro rfl
    exact ⟨hx, hp⟩

/-- Merging keeps heights: a survivor sits exactly as deep as what it replaces. -/
theorem below_survivor {nodes : List NodeSpec} {σ : NodeId → NodeId} (hσ : SurvivorMap nodes σ)
    (hs : (nodeIds nodes).Nodup) (k : Nat) (d : NodeId) :
    Kahn.Below (depsOf nodes) k (σ d) = Kahn.Below (depsOf nodes) k d := by
  induction k generalizing d with
  | zero => rfl
  | succ k ih =>
    by_cases hd : d ∈ nodeIds nodes
    · obtain ⟨n, hn, rfl⟩ := mem_nodeIds.mp hd
      obtain ⟨m, hm, hid, _, hint, _⟩ := hσ.earliest n hn
      have hread : ∀ a ∈ nodes, Kahn.Below (depsOf nodes) (k + 1) a.id = true ↔
          ∀ x ∈ a.dependsOn.map (readDep σ a), Kahn.Below (depsOf nodes) k x = true := by
        intro a ha
        have hdep : ∀ e, Kahn.Below (depsOf nodes) k (readDep σ a e) =
            Kahn.Below (depsOf nodes) k e := by
          intro e
          unfold readDep
          split
          · exact ih e
          · rfl
        rw [Kahn.below_succ, depsOf_mem hs ha, List.forall_mem_map]
        simp only [hdep]
      rw [← hid, Bool.eq_iff_iff]
      rcases hint with rfl | ⟨_, _, hkey⟩
      · rfl
      · rw [hread m hm, hread n hn]
        simp only [key_readSpec_dependencies hkey]
    · rw [hσ.outside d hd]

theorem height_survivor {nodes : List NodeSpec} {σ : NodeId → NodeId} (hσ : SurvivorMap nodes σ)
    (hs : (nodeIds nodes).Nodup) (d : NodeId) :
    Kahn.height (depsOf nodes) (σ d) = Kahn.height (depsOf nodes) d := by
  simp only [Kahn.height, below_survivor hσ hs]

section Rebuild

variable [RustStd]

/-- The liveness walk over the input graph: the output reads its own list as it is
declared, every other node what the merge left it, and only survivors are reached. -/
inductive LiveFrom (g : DecisionGraph) (σ : NodeId → NodeId) : NodeId → Prop
  | output : LiveFrom g σ g.output.id
  | declared {d : NodeId} (hd : d ∈ g.output.dependsOn) (hσ : σ d = d) : LiveFrom g σ d
  | read {n : NodeSpec} {d : NodeId} (hn : n ∈ g.nodes) (ho : n ≠ g.output)
      (hl : LiveFrom g σ n.id) (hd : d ∈ n.dependsOn.map (readDep σ n)) (hσ : σ d = d) :
      LiveFrom g σ d

/-- Dead-node elimination lets a node stay. -/
def Stays (g : DecisionGraph) (σ : NodeId → NodeId) (n : NodeSpec) : Prop :=
  n.kind = .cache ∨ LiveFrom g σ n.id

/-- What a graph must avoid for the two passes to leave no dangling dependency. -/
structure NothingDangles (g : DecisionGraph) (σ : NodeId → NodeId) : Prop where
  /-- No node that stays depends on a duplicate that sorts after it. -/
  no_later_duplicate : ∀ n ∈ g.nodes, Stays g σ n → ∀ d ∈ n.dependsOn, n.id < d → σ d = d
  /-- The survivor of what the output depends on is itself live. -/
  output_survivors : ∀ d ∈ g.output.dependsOn, d < g.output.id → LiveFrom g σ (σ d)
  /-- A cache node that is not live reads only nodes that stay. -/
  dead_caches : ∀ c ∈ g.nodes, c.kind = .cache → ¬ LiveFrom g σ c.id →
    ∀ d ∈ c.dependsOn.map (readDep σ c), ∃ m ∈ g.nodes, m.id = d ∧ Stays g σ m

variable {g : DecisionGraph} {σ : NodeId → NodeId}

theorem liveFrom_survives (hσ : SurvivorMap g.nodes σ) {d : NodeId} (h : LiveFrom g σ d) :
    σ d = d := by
  cases h with
  | output =>
    exact hσ.impure g.output_mem (by simp [NodeSpec.isPure, g.output_kind])
  | declared _ h => exact h
  | read _ _ _ _ h => exact h

theorem stays_survives (hσ : SurvivorMap g.nodes σ) {n : NodeSpec} (hn : n ∈ g.nodes)
    (h : Stays g σ n) : σ n.id = n.id := by
  rcases h with hk | hl
  · exact hσ.impure hn (by simp [NodeSpec.isPure, hk])
  · exact liveFrom_survives hσ hl

theorem readDep_mem (hσ : SurvivorMap g.nodes σ) {n : NodeSpec} (hn : n ∈ g.nodes) {x : NodeId}
    (hx : x ∈ n.dependsOn.map (readDep σ n)) : x ∈ nodeIds g.nodes := by
  obtain ⟨d, hd, rfl⟩ := List.mem_map.mp hx
  have hk := g.wellFormed.deps_known n hn d hd
  unfold readDep
  split
  · exact (hσ.mem hk).1
  · exact hk

theorem mem_mergedIds (hσ : SurvivorMap g.nodes σ) {d : NodeId} :
    d ∈ nodeIds (mergeCommon g.nodes) ↔ d ∈ nodeIds g.nodes ∧ σ d = d := by
  rw [mergeCommon_eq hσ g.wellFormed.sorted]
  simp only [nodeIds, List.map_map, List.mem_map, List.mem_filter, decide_eq_true_eq,
    Function.comp_apply]
  constructor
  · rintro ⟨n, ⟨hn, h⟩, rfl⟩
    exact ⟨⟨n, hn, rfl⟩, h⟩
  · rintro ⟨⟨n, hn, rfl⟩, h⟩
    exact ⟨n, ⟨hn, h⟩, rfl⟩

theorem mergedIds_nodup (hσ : SurvivorMap g.nodes σ) : (nodeIds (mergeCommon g.nodes)).Nodup := by
  have h : nodeIds (mergeCommon g.nodes) = nodeIds (g.nodes.filter fun n => σ n.id = n.id) := by
    rw [mergeCommon_eq hσ g.wellFormed.sorted, nodeIds, List.map_map]
    rfl
  rw [h]
  exact (List.filter_sublist.map _).nodup g.ids_nodup

theorem depsOf_merged (hσ : SurvivorMap g.nodes σ) {n : NodeSpec} (hn : n ∈ g.nodes)
    (h : σ n.id = n.id) :
    depsOf (mergeCommon g.nodes) n.id = dedupe [] (n.dependsOn.map (readDep σ n)) := by
  have hm : mergedSpec σ n ∈ mergeCommon g.nodes := by
    rw [mergeCommon_eq hσ g.wellFormed.sorted]
    exact List.mem_map_of_mem (List.mem_filter.mpr ⟨hn, by simpa using h⟩)
  exact depsOf_mem (mergedIds_nodup hσ) hm

theorem liveNodes_iff (hσ : SurvivorMap g.nodes σ) (x : NodeId) :
    x ∈ liveNodes g.output (mergeCommon g.nodes) ↔ LiveFrom g σ x := by
  have hout : g.output.id ∈ nodeIds (mergeCommon g.nodes) :=
    (mem_mergedIds hσ).mpr ⟨mem_nodeIds.mpr ⟨_, g.output_mem, rfl⟩, liveFrom_survives hσ .output⟩
  have hU : ∀ a ∈ (nodeIds (mergeCommon g.nodes)).toFinset,
      ∀ b ∈ liveParents g.output (mergeCommon g.nodes) a,
        b ∈ (nodeIds (mergeCommon g.nodes)).toFinset := by
    intro a _ b hb
    rw [liveParents, List.mem_reverse, List.mem_filter, decide_eq_true_eq] at hb
    exact List.mem_toFinset.mpr hb.2
  have hfuel : Worklist.work (liveParents g.output (mergeCommon g.nodes))
      (nodeIds (mergeCommon g.nodes)).toFinset [g.output.id] [] ≤
        liveFuel g.output (mergeCommon g.nodes) := by
    unfold Worklist.work liveFuel
    simp only [List.length_singleton, List.not_mem_nil, not_false_eq_true, Finset.filter_true]
    rw [List.sum_toFinset _ (mergedIds_nodup hσ)]
    omega
  unfold liveNodes
  rw [Worklist.mem_explore_iff _ hU _ _ (by simpa using hout) hfuel]
  simp only [List.mem_singleton, exists_eq_left]
  constructor
  · intro h
    induction h with
    | refl => exact .output
    | tail _ hstep ih =>
      rename_i a b _
      rw [liveParents, List.mem_reverse, List.mem_filter, decide_eq_true_eq, mem_mergedIds hσ] at hstep
      obtain ⟨hb, hbn, hbσ⟩ := hstep
      split at hb
      · exact .declared hb hbσ
      · rename_i ha
        have haσ := liveFrom_survives hσ ih
        by_cases ham : a ∈ nodeIds g.nodes
        · obtain ⟨n, hn, rfl⟩ := mem_nodeIds.mp ham
          rw [depsOf_merged hσ hn haσ, mem_dedupe] at hb
          exact .read hn (fun h => ha (congrArg NodeSpec.id h)) ih hb.1 hbσ
        · have hnone : findNode (mergeCommon g.nodes) a = none := by
            refine List.find?_eq_none.mpr fun m hm hma => ham ?_
            exact ((mem_mergedIds hσ).mp (mem_nodeIds.mpr ⟨m, hm, of_decide_eq_true hma⟩)).1
          simp [depsOf, hnone] at hb
  · intro h
    induction h with
    | output => exact .refl
    | declared hd hσd =>
      refine .tail .refl ?_
      rw [liveParents, List.mem_reverse, List.mem_filter, decide_eq_true_eq, mem_mergedIds hσ]
      simp only [if_true]
      exact ⟨hd, g.wellFormed.deps_known _ g.output_mem _ hd, hσd⟩
    | read hn ho hl hd hσd ih =>
      rename_i n d
      refine .tail ih ?_
      rw [liveParents, List.mem_reverse, List.mem_filter, decide_eq_true_eq, mem_mergedIds hσ,
        if_neg fun h => ho (node_ext_id g.ids_nodup hn g.output_mem h),
        depsOf_merged hσ hn (liveFrom_survives hσ hl), mem_dedupe]
      exact ⟨⟨hd, by simp⟩, readDep_mem hσ hn hd, hσd⟩

theorem mem_optimized (hσ : SurvivorMap g.nodes σ) {m : NodeSpec} :
    m ∈ eliminateDead g.output (mergeCommon g.nodes) ↔
      ∃ n ∈ g.nodes, Stays g σ n ∧ mergedSpec σ n = m := by
  unfold eliminateDead
  rw [List.mem_filter, mergeCommon_eq hσ g.wellFormed.sorted, List.mem_map]
  simp only [List.mem_filter, decide_eq_true_eq, Bool.or_eq_true]
  rw [← mergeCommon_eq hσ g.wellFormed.sorted, liveNodes_iff hσ]
  constructor
  · rintro ⟨⟨n, ⟨hn, _⟩, rfl⟩, hkeep⟩
    exact ⟨n, hn, hkeep, rfl⟩
  · rintro ⟨n, hn, hkeep, rfl⟩
    exact ⟨⟨n, ⟨hn, stays_survives hσ hn hkeep⟩, rfl⟩, hkeep⟩

theorem optimized_sorted (hσ : SurvivorMap g.nodes σ) :
    (nodeIds (eliminateDead g.output (mergeCommon g.nodes))).Pairwise (· < ·) := by
  have hsub : (nodeIds (mergeCommon g.nodes)).Sublist (nodeIds g.nodes) := by
    rw [mergeCommon_eq hσ g.wellFormed.sorted, nodeIds, List.map_map]
    exact List.filter_sublist.map NodeSpec.id
  exact (g.wellFormed.sorted.sublist hsub).sublist (List.filter_sublist.map NodeSpec.id)

/-- Every dependency the passes leave names a node they keep exactly when nothing dangles. -/
theorem depsKnown_iff (hσ : SurvivorMap g.nodes σ) :
    (∀ n ∈ g.nodes, Stays g σ n → ∀ x ∈ n.dependsOn.map (readDep σ n),
      ∃ m ∈ g.nodes, m.id = x ∧ Stays g σ m) ↔ NothingDangles g σ := by
  obtain ⟨rank, hrank⟩ := g.wellFormed.acyclic
  have hne : ∀ n ∈ g.nodes, ∀ d ∈ n.dependsOn, d ≠ n.id := by
    rintro n hn d hd rfl
    exact lt_irrefl _ (hrank n hn _ hd)
  constructor
  · intro h
    refine ⟨fun n hn hst d hd hlt => ?_, fun d hd hlt => ?_, fun c hc hk _ => h c hc (Or.inl hk)⟩
    · obtain ⟨m, hm, rfl, hmst⟩ := h n hn hst d
        (List.mem_map.mpr ⟨d, hd, by rw [readDep, if_neg (not_lt.mpr hlt.le)]⟩)
      exact stays_survives hσ hm hmst
    · obtain ⟨m, hm, hid, hmst⟩ := h _ g.output_mem (Or.inr .output) (σ d)
        (List.mem_map.mpr ⟨d, hd, by rw [readDep, if_pos hlt]⟩)
      rcases hmst with hk | hl
      · obtain ⟨n, hn, rfl⟩ := mem_nodeIds.mp (g.wellFormed.deps_known _ g.output_mem _ hd)
        by_cases hmn : m = n
        · subst hmn
          rw [← hid]
          exact .declared hd hid.symm
        · have hp := hσ.isPure g.ids_nodup hm hn hid.symm hmn
          simp [NodeSpec.isPure, hk] at hp
      · exact hid ▸ hl
  · intro h n hn hst x hx
    have hlive : ∀ y, LiveFrom g σ y → y ∈ nodeIds g.nodes →
        ∃ m ∈ g.nodes, m.id = y ∧ Stays g σ m := by
      intro y hy hyn
      obtain ⟨m, hm, rfl⟩ := mem_nodeIds.mp hyn
      exact ⟨m, hm, rfl, Or.inr hy⟩
    by_cases hl : LiveFrom g σ n.id
    · have hxn := readDep_mem hσ hn hx
      obtain ⟨d, hd, rfl⟩ := List.mem_map.mp hx
      rcases lt_or_gt_of_ne (hne n hn d hd) with hlt | hlt
      · have hread : readDep σ n d = σ d := by rw [readDep, if_pos hlt]
        refine hlive _ ?_ hxn
        by_cases ho : n = g.output
        · subst ho
          rw [hread]
          exact h.output_survivors d hd hlt
        · exact .read hn ho hl hx (by rw [hread, hσ.idempotent])
      · have hread : readDep σ n d = d := by rw [readDep, if_neg (not_lt.mpr hlt.le)]
        have hσd := h.no_later_duplicate n hn hst d hd hlt
        refine hlive _ ?_ hxn
        by_cases ho : n = g.output
        · subst ho
          rw [hread]
          exact .declared hd hσd
        · exact .read hn ho hl hx (by rw [hread, hσd])
    · rcases hst with hk | hl'
      · exact h.dead_caches n hn hk hl x hx
      · exact absurd hl' hl

theorem height_read_lt (hσ : SurvivorMap g.nodes σ) {n : NodeSpec} (hn : n ∈ g.nodes) {x : NodeId}
    (hx : x ∈ n.dependsOn.map (readDep σ n)) :
    Kahn.height (depsOf g.nodes) x < Kahn.height (depsOf g.nodes) n.id := by
  obtain ⟨rank, hrank⟩ := g.wellFormed.acyclic
  obtain ⟨d, hd, rfl⟩ := List.mem_map.mp hx
  have hsame : Kahn.height (depsOf g.nodes) (readDep σ n d) = Kahn.height (depsOf g.nodes) d := by
    unfold readDep
    split
    · exact height_survivor hσ g.ids_nodup d
    · rfl
  have hbelow : Kahn.Below (depsOf g.nodes) (rank n.id + 1) n.id = true := by
    refine Kahn.below_of_rank (nodeIds g.nodes) _ ?_ _ ?_ (mem_nodeIds.mpr ⟨n, hn, rfl⟩)
      (Nat.lt_succ_self _)
    · intro a ha e he
      obtain ⟨m, hm, rfl⟩ := mem_nodeIds.mp ha
      rw [depsOf_mem g.ids_nodup hm] at he
      exact g.wellFormed.deps_known m hm e he
    · intro a ha e he
      obtain ⟨m, hm, rfl⟩ := mem_nodeIds.mp ha
      rw [depsOf_mem g.ids_nodup hm] at he
      exact hrank m hm e he
  rw [hsame]
  refine Kahn.height_lt hbelow ?_
  rwa [depsOf_mem g.ids_nodup hn]

theorem exists_root_stays (hσ : SurvivorMap g.nodes σ) (h : NothingDangles g σ) {n : NodeSpec}
    (hn : n ∈ g.nodes) (hst : Stays g σ n) :
    ∃ r ∈ g.nodes, Stays g σ r ∧ r.dependsOn = [] := by
  induction hr : Kahn.height (depsOf g.nodes) n.id using Nat.strong_induction_on generalizing n with
  | _ r ih =>
    cases hd : n.dependsOn with
    | nil => exact ⟨n, hn, hst, hd⟩
    | cons d rest =>
      have hx : readDep σ n d ∈ n.dependsOn.map (readDep σ n) := List.mem_map_of_mem (by simp [hd])
      obtain ⟨m, hm, hid, hmst⟩ := (depsKnown_iff hσ).mpr h n hn hst _ hx
      have hlt := height_read_lt hσ hn hx
      rw [← hid, hr] at hlt
      exact ih _ hlt hm hmst rfl

/-- The kept nodes are well formed exactly when nothing dangles: the merge keeps the
heights, the one root, the one output and its place at the end. -/
theorem optimized_wellFormed_iff (hσ : SurvivorMap g.nodes σ) :
    WellFormed (eliminateDead g.output (mergeCommon g.nodes)) ↔ NothingDangles g σ := by
  have hsorted := optimized_sorted hσ
  have hnodup : (eliminateDead g.output (mergeCommon g.nodes)).Nodup :=
    List.Nodup.of_map NodeSpec.id (hsorted.imp ne_of_lt)
  have hdeps : ∀ n : NodeSpec, ∀ x,
      x ∈ (mergedSpec σ n).dependsOn ↔ x ∈ n.dependsOn.map (readDep σ n) := by
    intro n x
    simp [mergedSpec, mem_dedupe]
  have hempty : ∀ n : NodeSpec, (mergedSpec σ n).dependsOn = [] ↔ n.dependsOn = [] := by
    intro n
    rw [List.eq_nil_iff_forall_not_mem]
    simp only [hdeps]
    rw [← List.eq_nil_iff_forall_not_mem, List.map_eq_nil_iff]
  have houtput : mergedSpec σ g.output ∈ eliminateDead g.output (mergeCommon g.nodes) :=
    (mem_optimized hσ).mpr ⟨_, g.output_mem, Or.inr .output, rfl⟩
  have hkind : ∀ m ∈ eliminateDead g.output (mergeCommon g.nodes), m.kind = .output →
      m = mergedSpec σ g.output := by
    intro m hm hk
    obtain ⟨n, hn, _, rfl⟩ := (mem_optimized hσ).mp hm
    rw [g.eq_output hn hk]
  rw [← depsKnown_iff hσ]
  constructor
  · intro h n hn hst x hx
    have hk := h.deps_known _ ((mem_optimized hσ).mpr ⟨n, hn, hst, rfl⟩) x ((hdeps n x).mpr hx)
    obtain ⟨m', hm', rfl⟩ := mem_nodeIds.mp hk
    obtain ⟨m, hm, hmst, rfl⟩ := (mem_optimized hσ).mp hm'
    exact ⟨m, hm, rfl, hmst⟩
  · intro h
    have hsafe := (depsKnown_iff hσ).mp h
    obtain ⟨root, hroot⟩ := g.wellFormed.one_root
    have hrootuniq : ∀ n ∈ g.nodes, n.dependsOn = [] → n = root := by
      intro n hn hnil
      have : n ∈ g.nodes.filter fun n => n.dependsOn = [] := List.mem_filter.mpr ⟨hn, by simpa⟩
      rw [hroot] at this
      simpa using this
    obtain ⟨r, hr, hrst, hrnil⟩ := exists_root_stays hσ hsafe g.output_mem (Or.inr .output)
    refine ⟨hsorted, ?_, ?_, ⟨Kahn.height (depsOf g.nodes), ?_⟩, ⟨mergedSpec σ r, ?_⟩,
      ⟨mergedSpec σ g.output, ?_⟩, ?_, ?_⟩
    · intro m hm
      obtain ⟨n, _, _, rfl⟩ := (mem_optimized hσ).mp hm
      exact dedupe_nodup _ _
    · intro m hm x hx
      obtain ⟨n, hn, hst, rfl⟩ := (mem_optimized hσ).mp hm
      obtain ⟨k, hk, rfl, hkst⟩ := h n hn hst x ((hdeps n x).mp hx)
      exact mem_nodeIds.mpr ⟨mergedSpec σ k, (mem_optimized hσ).mpr ⟨k, hk, hkst, rfl⟩, rfl⟩
    · intro m hm x hx
      obtain ⟨n, hn, _, rfl⟩ := (mem_optimized hσ).mp hm
      exact height_read_lt hσ hn ((hdeps n x).mp hx)
    · refine filter_eq_singleton hnodup ((mem_optimized hσ).mpr ⟨r, hr, hrst, rfl⟩) ?_ ?_
      · simpa [hempty] using hrnil
      · intro m hm hnil
        obtain ⟨n, hn, _, rfl⟩ := (mem_optimized hσ).mp hm
        rw [decide_eq_true_eq, hempty] at hnil
        rw [hrootuniq n hn hnil, hrootuniq r hr hrnil]
    · exact filter_eq_singleton hnodup houtput (decide_eq_true g.output_kind)
        fun m hm hk => hkind m hm (by simpa using hk)
    · intro m hm hk
      rw [hkind m hm hk, Ne, hempty]
      exact g.wellFormed.output_deps _ g.output_mem g.output_kind
    · intro m hm hk m' hm' hx
      rw [hkind m hm hk] at hx
      obtain ⟨n, hn, _, rfl⟩ := (mem_optimized hσ).mp hm'
      obtain ⟨d, hd, hread⟩ := List.mem_map.mp ((hdeps n _).mp hx)
      have hterm : g.output.id ∉ n.dependsOn :=
        g.wellFormed.output_terminal _ g.output_mem g.output_kind n hn
      change readDep σ n d = g.output.id at hread
      obtain ⟨e, he, rfl⟩ := mem_nodeIds.mp (g.wellFormed.deps_known n hn d hd)
      have hne : g.output ≠ e := fun heq => hterm (heq ▸ hd)
      unfold readDep at hread
      split at hread
      · have hp := hσ.isPure g.ids_nodup g.output_mem he hread hne
        simp [NodeSpec.isPure, g.output_kind] at hp
      · exact hterm (hread ▸ hd)

/-- Optimization rebuilds a graph exactly when nothing dangles; the version is the
input's. -/
theorem optimize_ok_iff (g : DecisionGraph) :
    (∃ g', optimize g = .ok g' ∧ g'.version = g.version) ↔
      ∃ σ, SurvivorMap g.nodes σ ∧ NothingDangles g σ := by
  have hnew : ∀ σ, SurvivorMap g.nodes σ →
      ((∃ g', optimize g = .ok g') ↔ NothingDangles g σ) := by
    intro σ hσ
    unfold optimize
    have hle : (eliminateDead g.output (mergeCommon g.nodes)).Pairwise NodeSpec.idOrder :=
      (List.pairwise_map.mp (optimized_sorted hσ)).imp le_of_lt
    rw [DecisionGraph.new_isOk_iff, hle.insertionSort_eq, optimized_wellFormed_iff hσ]
    have hout : mergedSpec σ g.output ∈ eliminateDead g.output (mergeCommon g.nodes) :=
      (mem_optimized hσ).mpr ⟨_, g.output_mem, Or.inr .output, rfl⟩
    refine ⟨fun h => h.2.2, fun h => ⟨List.ne_nil_of_mem hout, fun m hm => ?_, h⟩⟩
    obtain ⟨n, hn, _, rfl⟩ := (mem_optimized hσ).mp hm
    exact g.nodes_valid n hn
  constructor
  · rintro ⟨g', hg', _⟩
    obtain ⟨σ, hσ⟩ := exists_survivorMap g.nodes g.wellFormed.sorted
    exact ⟨σ, hσ, (hnew σ hσ).mp ⟨g', hg'⟩⟩
  · rintro ⟨σ, hσ, h⟩
    obtain ⟨g', hg'⟩ := (hnew σ hσ).mpr h
    exact ⟨g', hg', (DecisionGraph.new_ok hg').1⟩

end Rebuild

section Samples

attribute [local instance] plainStd

open Sample

/-- The choice node sorts before both lexical nodes and reads the second. -/
def laterDuplicate : DecisionGraph :=
  graph [node "in" .normalize [], node "lex-a" .lexical ["in"], node "lex-b" .lexical ["in"],
    node "choice" .choice ["lex-b"], node "gate" .threshold ["choice", "lex-a"],
    node "out" .output ["gate"]]

/-- The choice node still names the merged duplicate, so the rebuild is refused. -/
theorem optimize_laterDuplicate :
    ¬ ∃ g', optimize laterDuplicate = .ok g' ∧ g'.version = laterDuplicate.version := by
  rintro ⟨g', h, _⟩
  have hnone : (optimize laterDuplicate).toOption.isSome = false := by decide +kernel
  rw [h] at hnone
  cases hnone

end Samples

end OpenCodifier
