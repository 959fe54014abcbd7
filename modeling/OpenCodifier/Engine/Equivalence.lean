import OpenCodifier.Engine.Agree
import OpenCodifier.Engine.Collapse
import OpenCodifier.Engine.Skips
set_option autoImplicit false

namespace OpenCodifier.Executor

section Runs

variable [RustStd]

/-- One merge a run attempts: the snapshot the node read, the state its result was to be
merged into, the node and its result. -/
structure Attempt where
  snapshot : RunState
  before : RunState
  node : NodeSpec
  result : EngineResult NodeExecution

section Attempts

variable (ex : Executor)

/-- The merges attempted for the results of one wave, up to the first failure. -/
def mergeAttempts (snapshot s : RunState) :
    List (NodeSpec × EngineResult NodeExecution) → List Attempt
  | [] => []
  | (spec, result) :: rest =>
    ⟨snapshot, s, spec, result⟩ ::
      match result with
      | .ok execution => mergeAttempts snapshot (ex.mergeExecution s spec execution) rest
      | .error _ => []

def attemptsFrom (s : RunState) : List (List NodeId) → List Attempt
  | [] => []
  | wave :: rest =>
    match ex.guard (.wave wave) with
    | .error _ => []
    | .ok () =>
      if wave.all (· ∈ s.skipped) then attemptsFrom s rest
      else
        ex.mergeAttempts s s (ex.waveResults s wave) ++
          match ex.runWave s wave with
          | .ok (next, false) => attemptsFrom next rest
          | _ => []

/-- Every merge a run attempts, in order, whether or not the run returns. -/
def attempts : List Attempt :=
  ex.attemptsFrom (initialState ex.request) ex.config.graph.waves

/-- The node succeeds and what it produces is already in the run state. -/
def Attempt.Quiet (a : Attempt) : Prop :=
  ∃ e, a.result = .ok e ∧ Agree ex (ex.mergeExecution a.before a.node e) a.before

end Attempts

section Waves

variable {ex : Executor} {s : RunState}

theorem waveResults_eq {w : List NodeId} (hw : w.Pairwise (· < ·)) :
    ex.waveResults s w = (ex.runnable s w).map fun spec => (spec, ex.execute s spec) := by
  have hnodes : (w.filterMap ex.config.graph.node).Pairwise fun a b => a.id ≤ b.id := by
    rw [List.pairwise_filterMap]
    refine hw.imp ?_
    intro a b hab m hm n hn
    rw [(findNode_some hm).2, (findNode_some hn).2]
    exact hab.le
  have hsorted : ((ex.runnable s w).map fun spec => (spec, ex.execute s spec)).Pairwise
      resultOrder := List.pairwise_map.mpr (hnodes.filter _)
  exact hsorted.insertionSort_eq

end Waves

variable {ex : Executor} {g' : DecisionGraph} {σ : NodeId → NodeId}

theorem walkRungs_withGraph (s : RunState) (id : NodeId) (q : QuestionId) (policy : DecisionPolicy)
    (decidedBy : String × NodeKind) (rungs : List (Rung × Nat)) (w : Walk) :
    (ex.withGraph g').walkRungs s id q policy decidedBy rungs w =
      ex.walkRungs s id q policy decidedBy rungs w := by
  induction rungs generalizing w with
  | nil => rfl
  | cons e rungs ih =>
    simp only [walkRungs, ih]
    rfl

theorem resolveThreshold_withGraph (s : RunState) (id : NodeId) :
    (ex.withGraph g').resolveThreshold s id = ex.resolveThreshold s id := by
  have hone : (ex.withGraph g').resolveOne s id = ex.resolveOne s id := by
    funext entry
    unfold resolveOne walk
    rw [walkRungs_withGraph]
    rfl
  unfold resolveThreshold
  rw [hone]

/-- Execution reads no dependency list and no other node of the graph. -/
theorem execute_mergedSpec (s : RunState) (n : NodeSpec) :
    (ex.withGraph g').execute s (mergedSpec σ n) = ex.execute s n := by
  unfold execute
  rw [resolveThreshold_withGraph]
  rfl

/-- Runs of a graph and of its collapse, between two waves: nothing that is read differs,
and a represented node is skipped exactly when its survivor is. -/
structure Sim (ex : Executor) (g' : DecisionGraph) (σ : NodeId → NodeId) (s s' : RunState) :
    Prop where
  agree : Agree ex s s'
  closed : SkipClosed ex s
  closed' : SkipClosed (ex.withGraph g') s'
  skips : ∀ id, Collapse.Represented ex.config.graph g' σ id →
    (id ∈ s.skipped ↔ σ id ∈ s'.skipped)

section Simulation

variable {s s' : RunState} (hc : Collapse ex.config.graph g' σ)
include hc

theorem node_collapse {id : NodeId} (hid : id ∈ nodeIds g'.nodes) :
    g'.node id = (ex.config.graph.node id).map (mergedSpec σ) := by
  obtain ⟨n, hn, rfl⟩ := mem_nodeIds.mp (hc.kept_mem hid)
  have hm : mergedSpec σ n ∈ g'.nodes := by
    rw [hc.nodes]
    exact List.mem_map_of_mem (List.mem_filter.mpr ⟨hn, decide_eq_true hid⟩)
  have h₁ : ex.config.graph.node n.id = some n := findNode_mem ex.config.graph.ids_nodup hn
  have h₂ : g'.node (mergedSpec σ n).id = some (mergedSpec σ n) := findNode_mem g'.ids_nodup hm
  rw [h₁]
  exact h₂

theorem runnable_collapse (hsim : Sim ex g' σ s s') (w : List NodeId) :
    (ex.withGraph g').runnable s' (w.filter (· ∈ nodeIds g'.nodes)) =
      ((ex.runnable s w).filter fun n => n.id ∈ nodeIds g'.nodes).map (mergedSpec σ) := by
  have hskip : ∀ id ∈ nodeIds g'.nodes, (id ∈ s.skipped ↔ id ∈ s'.skipped) := by
    intro id hid
    have h := hsim.skips id (hc.represented_kept hid)
    rwa [hc.fixed id hid] at h
  induction w with
  | nil => rfl
  | cons id w ih =>
    unfold runnable at ih ⊢
    by_cases hid : id ∈ nodeIds g'.nodes
    · have hnode : (ex.withGraph g').config.graph.node id =
          (ex.config.graph.node id).map (mergedSpec σ) := node_collapse hc hid
      rw [List.filter_cons_of_pos (by simpa using hid), List.filterMap_cons, List.filterMap_cons,
        hnode]
      cases hn : ex.config.graph.node id with
      | none => exact ih
      | some n =>
        obtain ⟨_, rfl⟩ := findNode_some hn
        by_cases hs : n.id ∈ s.skipped
        · have hs' : (mergedSpec σ n).id ∈ s'.skipped := (hskip n.id hid).mp hs
          rw [List.filter_cons_of_neg (by simpa using hs)]
          simp only [Option.map_some]
          rw [List.filter_cons_of_neg (by simpa using hs')]
          exact ih
        · have hs' : (mergedSpec σ n).id ∉ s'.skipped := fun h => hs ((hskip n.id hid).mpr h)
          rw [List.filter_cons_of_pos (by simpa using hs)]
          simp only [Option.map_some]
          rw [List.filter_cons_of_pos (by simpa using hs'),
            List.filter_cons_of_pos (by simpa using hid), List.map_cons, ih]
    · rw [List.filter_cons_of_neg (by simpa using hid), List.filterMap_cons]
      rw [ih]
      cases hn : ex.config.graph.node id with
      | none => rfl
      | some n =>
        obtain ⟨_, rfl⟩ := findNode_some hn
        by_cases hs : n.id ∈ s.skipped
        · simp [hs]
        · simp [hs, hid]

theorem kept_of_output {n : NodeSpec} (hn : n ∈ ex.config.graph.nodes) (hk : n.kind = .output) :
    n.id ∈ nodeIds g'.nodes := by
  have hout := g'.output_mem
  rw [hc.nodes] at hout
  obtain ⟨m, hm, hmo⟩ := List.mem_map.mp hout
  obtain ⟨hm, hmk⟩ := List.mem_filter.mp hm
  have hmkind : m.kind = .output := by
    have h := g'.output_kind
    rw [← hmo] at h
    exact h
  rw [ex.config.graph.eq_output hn hk, ← ex.config.graph.eq_output hm hmkind]
  exact of_decide_eq_true hmk

/-- The merges of one wave, with and without the dropped nodes. -/
theorem mergeResults_collapse (flag : Bool) (hg : ∀ p, ex.guard p = .ok ()) (hs : Agree ex s s')
    {specs : List NodeSpec} (hspecs : ∀ n ∈ specs, n ∈ ex.config.graph.nodes) {m m' : RunState}
    (hm : Agree ex m m')
    (hquiet : ∀ a ∈ ex.mergeAttempts s m (specs.map fun n => (n, ex.execute s n)),
      a.node.id ∉ nodeIds g'.nodes → a.Quiet ex) :
    Result.Rel (fun o o' => Agree ex o.1 o'.1 ∧ o.2 = o'.2)
      (ex.mergeResults (m, flag) (specs.map fun n => (n, ex.execute s n)))
      ((ex.withGraph g').mergeResults (m', flag)
        (((specs.filter fun n => n.id ∈ nodeIds g'.nodes).map (mergedSpec σ)).map fun n =>
          (n, (ex.withGraph g').execute s' n))) := by
  induction specs generalizing m m' flag with
  | nil => exact .ok ⟨hm, rfl⟩
  | cons n specs ih =>
    have hrest : ∀ k ∈ specs, k ∈ ex.config.graph.nodes := fun k hk =>
      hspecs k (List.mem_cons_of_mem _ hk)
    by_cases hid : n.id ∈ nodeIds g'.nodes
    · rw [List.filter_cons_of_pos (by simpa using hid), List.map_cons, List.map_cons, List.map_cons]
      have hexec := execute_agree hg hs n
      simp only [List.map_cons, mergeAttempts] at hquiet
      rw [mergeResults, mergeResults, execute_mergedSpec]
      cases he : ex.execute s n with
      | error e =>
        rw [he] at hexec
        generalize ex.execute s' n = y at hexec
        cases hexec
        exact .error e
      | ok e =>
        rw [he] at hexec hquiet
        generalize ex.execute s' n = y at hexec
        cases hexec with
        | ok ho =>
          refine ih _ hrest (mergeExecution_agree g' hm n (mergedSpec σ n) ho) ?_
          intro a ha
          exact hquiet a (List.mem_cons_of_mem _ ha)
    · rw [List.filter_cons_of_neg (by simpa using hid)]
      simp only [List.map_cons, mergeAttempts] at hquiet ⊢
      obtain ⟨e, he, hq⟩ := hquiet _ List.mem_cons_self hid
      change ex.execute s n = .ok e at he
      rw [he] at hquiet ⊢
      have hkind : n.kind ≠ .output := fun hk =>
        hid (kept_of_output hc (hspecs n List.mem_cons_self) hk)
      have hflag : (flag || decide (n.kind = .output)) = flag := by simp [hkind]
      rw [mergeResults]
      change Result.Rel _ (ex.mergeResults (ex.mergeExecution m n e,
        flag || decide (n.kind = .output)) _) _
      rw [hflag]
      refine ih _ hrest (hq.trans hm) ?_
      intro a ha
      exact hquiet a (List.mem_cons_of_mem _ ha)

section Paths

omit hc in
theorem mem_dependentsIn_iff (g : DecisionGraph) {a b : NodeId} (hb : b ∈ nodeIds g.nodes) :
    b ∈ dependentsIn g.nodes a ↔ a ∈ depsOf g.nodes b := by
  rw [mem_dependentsIn]
  obtain ⟨n, hn, rfl⟩ := mem_nodeIds.mp hb
  rw [depsOf_mem g.ids_nodup hn]
  constructor
  · intro h
    obtain ⟨m, hm, ha, hid⟩ := h
    rwa [node_ext_id g.ids_nodup hm hn hid] at ha
  · intro ha
    exact ⟨n, hn, ha, rfl⟩

theorem downstream_image {a b : NodeId} (h : Downstream ex.config.graph.nodes a b)
    (hb : Collapse.Represented ex.config.graph g' σ b) :
    Collapse.Represented ex.config.graph g' σ a ∧ Downstream g'.nodes (σ a) (σ b) := by
  have hedge : ∀ {c d : NodeId}, d ∈ dependentsIn ex.config.graph.nodes c →
      Collapse.Represented ex.config.graph g' σ d →
        Collapse.Represented ex.config.graph g' σ c ∧ σ d ∈ dependentsIn g'.nodes (σ c) := by
    intro c d hd hrep
    rw [mem_dependentsIn_iff _ hrep.1] at hd
    refine ⟨hc.represented_dep hrep hd, ?_⟩
    rw [mem_dependentsIn_iff _ hrep.2]
    exact (hc.reads_depsOf hrep _).mpr ⟨c, hd, rfl⟩
  induction h with
  | single hstep =>
    obtain ⟨ha, hs⟩ := hedge hstep hb
    exact ⟨ha, .single hs⟩
  | tail _ hstep ih =>
    obtain ⟨hmid, hs⟩ := hedge hstep hb
    obtain ⟨ha, hpath⟩ := ih hmid
    exact ⟨ha, hpath.tail hs⟩

theorem downstream_lift {x y : NodeId} (h : Downstream g'.nodes x y) {b : NodeId}
    (hb : Collapse.Represented ex.config.graph g' σ b) (hy : σ b = y) :
    ∃ a, Collapse.Represented ex.config.graph g' σ a ∧ σ a = x ∧
      Downstream ex.config.graph.nodes a b := by
  have hedge : ∀ {z w : NodeId}, w ∈ dependentsIn g'.nodes z → ∀ b,
      Collapse.Represented ex.config.graph g' σ b → σ b = w →
        ∃ d, Collapse.Represented ex.config.graph g' σ d ∧ σ d = z ∧
          b ∈ dependentsIn ex.config.graph.nodes d := by
    intro z w hw b hrep hbw
    subst hbw
    rw [mem_dependentsIn_iff _ hrep.2] at hw
    obtain ⟨d, hd, hdz⟩ := (hc.reads_depsOf hrep z).mp hw
    exact ⟨d, hc.represented_dep hrep hd, hdz, (mem_dependentsIn_iff _ hrep.1).mpr hd⟩
  induction h generalizing b with
  | single hstep =>
    obtain ⟨d, hd, hdx, hdb⟩ := hedge hstep b hb hy
    exact ⟨d, hd, hdx, .single hdb⟩
  | tail _ hstep ih =>
    obtain ⟨d, hd, hdy, hdb⟩ := hedge hstep b hb hy
    obtain ⟨a, ha, hax, hpath⟩ := ih hd hdy
    exact ⟨a, ha, hax, hpath.tail hdb⟩

end Paths

/-- A wave of the run in which represented nodes and their survivors sit together. -/
structure WaveOf (ex : Executor) (g' : DecisionGraph) (σ : NodeId → NodeId) (w : List NodeId) :
    Prop where
  sorted : w.Pairwise (· < ·)
  together : ∀ id, Collapse.Represented ex.config.graph g' σ id → (id ∈ w ↔ σ id ∈ w)

omit hc in
theorem runWave_skipped (hg : ∀ p, ex.guard p = .ok ()) (hclosed : SkipClosed ex s)
    {w : List NodeId} (hw : w.Pairwise (· < ·)) {out : RunState × Bool}
    (hr : ex.runWave s w = .ok out) :
    SkipClosed ex out.1 ∧ ∀ x, x ∈ out.1.skipped ↔ x ∈ s.skipped ∨
      ∃ n ∈ ex.runnable s w, (n.kind = .branch ∧ branchFires s n = false) ∧
        Downstream ex.config.graph.nodes n.id x := by
  have hresults : ex.mergeResults (s, false) (ex.waveResults s w) = .ok out := hr
  rw [waveResults_eq hw] at hresults
  obtain ⟨h₁, h₂⟩ := mergeResults_skipped hclosed hresults
  refine ⟨h₁, fun x => (h₂ x).trans ?_⟩
  simp only [List.mem_map, ← execute_branched_iff hg]
  constructor
  · intro h
    rcases h with h | ⟨r, ⟨n, hn, rfl⟩, hb, hd⟩
    · exact Or.inl h
    · exact Or.inr ⟨n, hn, hb, hd⟩
  · intro h
    rcases h with h | ⟨n, hn, hb, hd⟩
    · exact Or.inl h
    · exact Or.inr ⟨_, ⟨n, hn, rfl⟩, hb, hd⟩

/-- What a wave's branches skip, on either graph. -/
theorem branchSkips_collapse (hsim : Sim ex g' σ s s') {w : List NodeId}
    (hw : WaveOf ex g' σ w) {id : NodeId} (hid : Collapse.Represented ex.config.graph g' σ id) :
    (∃ n ∈ ex.runnable s w, (n.kind = .branch ∧ branchFires s n = false) ∧
      Downstream ex.config.graph.nodes n.id id) ↔
    ∃ n ∈ ((ex.runnable s w).filter fun n => n.id ∈ nodeIds g'.nodes).map (mergedSpec σ),
      (n.kind = .branch ∧ branchFires s' n = false) ∧ Downstream g'.nodes n.id (σ id) := by
  have hfires : ∀ m n : NodeSpec, m.when' = n.when' → branchFires s m = branchFires s' n := by
    intro m n h
    simp only [branchFires, h, hsim.agree.state]
  constructor
  · intro h
    obtain ⟨n, hn, ⟨hk, hf⟩, hpath⟩ := h
    obtain ⟨hmem, hnw, hns⟩ := mem_runnable_iff.mp hn
    obtain ⟨hrep, hpath'⟩ := downstream_image hc hpath hid
    obtain ⟨m, hm, hmid, hmk, hmw⟩ := hc.survivor n hmem
    have hkept : m.id ∈ nodeIds g'.nodes := hmid ▸ hrep.2
    have hskip : m.id ∉ s.skipped := by
      rw [hsim.skips m.id (hc.represented_kept hkept), hc.fixed m.id hkept, hmid,
        ← hsim.skips n.id hrep]
      exact hns
    have hmrun : m ∈ ex.runnable s w :=
      mem_runnable_iff.mpr ⟨hm, hmid ▸ (hw.together n.id hrep).mp hnw, hskip⟩
    refine ⟨mergedSpec σ m, List.mem_map_of_mem (List.mem_filter.mpr
      ⟨hmrun, decide_eq_true hkept⟩), ⟨hmk.trans hk, ?_⟩, ?_⟩
    · rw [← hfires n (mergedSpec σ m) hmw.symm]
      exact hf
    · rw [← hmid] at hpath'
      exact hpath'
  · intro h
    obtain ⟨n', hn', ⟨hk, hf⟩, hpath⟩ := h
    obtain ⟨m, hm, rfl⟩ := List.mem_map.mp hn'
    obtain ⟨hmrun, hkept⟩ := List.mem_filter.mp hm
    have hkept := of_decide_eq_true hkept
    obtain ⟨hmem, hmw, hms⟩ := mem_runnable_iff.mp hmrun
    obtain ⟨a, ha, hax, hpath'⟩ := downstream_lift hc hpath hid rfl
    change σ a = m.id at hax
    obtain ⟨n, hn, rfl⟩ := mem_nodeIds.mp ha.1
    obtain ⟨e, he, heid, hek, hew⟩ := hc.survivor n hn
    obtain rfl := node_ext_id ex.config.graph.ids_nodup he hmem (heid.trans hax)
    have hskip : n.id ∉ s.skipped := by
      rw [hsim.skips n.id ha, hax, ← hc.fixed e.id hkept,
        ← hsim.skips e.id (hc.represented_kept hkept)]
      exact hms
    have hnw : n.id ∈ w := (hw.together n.id ha).mpr (hax ▸ hmw)
    refine ⟨n, mem_runnable_iff.mpr ⟨hn, hnw, hskip⟩, ⟨hek.symm.trans hk, ?_⟩, hpath'⟩
    rw [hfires n (mergedSpec σ e) hew.symm]
    exact hf

theorem runWave_collapse (hg : ∀ p, ex.guard p = .ok ()) (hsim : Sim ex g' σ s s')
    {w : List NodeId} (hw : WaveOf ex g' σ w)
    (hquiet : ∀ a ∈ ex.mergeAttempts s s (ex.waveResults s w),
      a.node.id ∉ nodeIds g'.nodes → a.Quiet ex) :
    Result.Rel (fun o o' => Sim ex g' σ o.1 o'.1 ∧ o.2 = o'.2) (ex.runWave s w)
      ((ex.withGraph g').runWave s' (w.filter (· ∈ nodeIds g'.nodes))) := by
  have hw' := hw.sorted.filter (· ∈ nodeIds g'.nodes)
  have hrun := runnable_collapse hc hsim w
  rw [waveResults_eq hw.sorted] at hquiet
  have hmerge := mergeResults_collapse hc false hg hsim.agree
    (fun n hn => (mem_runnable_iff.mp hn).1) hsim.agree hquiet
  rw [← hrun, ← waveResults_eq hw.sorted, ← waveResults_eq hw'] at hmerge
  change Result.Rel _ (ex.runWave s w) ((ex.withGraph g').runWave s' _) at hmerge
  cases hr : ex.runWave s w with
  | error e =>
    rw [hr] at hmerge
    generalize (ex.withGraph g').runWave s' (w.filter (· ∈ nodeIds g'.nodes)) = y at hmerge
    cases hmerge
    exact .error e
  | ok o =>
    rw [hr] at hmerge
    cases hr' : (ex.withGraph g').runWave s' (w.filter (· ∈ nodeIds g'.nodes)) with
    | error e =>
      rw [hr'] at hmerge
      cases hmerge
    | ok o' =>
      rw [hr'] at hmerge
      cases hmerge with
      | ok hok =>
        obtain ⟨hagree, hflag⟩ := hok
        obtain ⟨hcl, hsk⟩ := runWave_skipped hg hsim.closed hw.sorted hr
        have hg' : ∀ p, (ex.withGraph g').guard p = .ok () := hg
        obtain ⟨hcl', hsk'⟩ := runWave_skipped hg' hsim.closed' hw' hr'
        refine .ok ⟨⟨hagree, hcl, hcl', fun id hid => ?_⟩, hflag⟩
        rw [hsk, hsk', hsim.skips id hid, hrun]
        exact or_congr_right (branchSkips_collapse hc hsim hw hid)

omit hc in
theorem runWave_of_allSkipped {w : List NodeId} (hw : w.Pairwise (· < ·))
    (h : w.all (· ∈ s.skipped) = true) : ex.runWave s w = .ok (s, false) := by
  have hnil : ex.runnable s w = [] := by
    rw [List.eq_nil_iff_forall_not_mem]
    intro n hn
    obtain ⟨_, hnw, hns⟩ := mem_runnable_iff.mp hn
    exact hns (of_decide_eq_true (List.all_eq_true.mp h n.id hnw))
  change ex.mergeResults (s, false) (ex.waveResults s w) = .ok (s, false)
  rw [waveResults_eq hw, hnil]
  rfl

omit hc in
theorem runWaves_append_nil (hg : ∀ p, ex.guard p = .ok ()) (waves : List (List NodeId)) (k : Nat)
    (s : RunState) :
    ex.runWaves s (waves ++ List.replicate k []) = ex.runWaves s waves := by
  induction waves generalizing s with
  | nil =>
    induction k with
    | zero => rfl
    | succ k ih =>
      rw [List.nil_append] at ih ⊢
      rw [List.replicate_succ, ← ih]
      simp only [runWaves, hg]
      rfl
  | cons w waves ih =>
    simp only [List.cons_append, runWaves, ih]

/-- Whole runs keep the simulation. -/
theorem runWaves_collapse (hg : ∀ p, ex.guard p = .ok ()) {waves : List (List NodeId)}
    (hwaves : ∀ w ∈ waves, WaveOf ex g' σ w) (hsim : Sim ex g' σ s s')
    (hquiet : ∀ a ∈ ex.attemptsFrom s waves, a.node.id ∉ nodeIds g'.nodes → a.Quiet ex) :
    Result.Rel (Agree ex) (ex.runWaves s waves) ((ex.withGraph g').runWaves s'
      (waves.map (List.filter (· ∈ nodeIds g'.nodes)))) := by
  induction waves generalizing s s' with
  | nil => exact .ok hsim.agree
  | cons w waves ih =>
    have hw := hwaves w List.mem_cons_self
    have hrest : ∀ v ∈ waves, WaveOf ex g' σ v := fun v hv => hwaves v (List.mem_cons_of_mem _ hv)
    have hg' : ∀ p, (ex.withGraph g').guard p = .ok () := hg
    have hskip : ∀ id ∈ w, id ∈ nodeIds g'.nodes → (id ∈ s.skipped ↔ id ∈ s'.skipped) := by
      intro id _ hid
      have h := hsim.skips id (hc.represented_kept hid)
      rwa [hc.fixed id hid] at h
    rw [List.map_cons, runWaves, runWaves, hg, hg']
    simp only [attemptsFrom, hg] at hquiet
    change Result.Rel _ (if _ then _ else _) (if _ then _ else _)
    by_cases hall : w.all (· ∈ s.skipped) = true
    · have hall' : (w.filter (· ∈ nodeIds g'.nodes)).all (· ∈ s'.skipped) = true := by
        rw [List.all_eq_true] at hall ⊢
        intro id hid
        rw [List.mem_filter, decide_eq_true_eq] at hid
        exact decide_eq_true ((hskip id hid.1 hid.2).mp (of_decide_eq_true (hall id hid.1)))
      rw [if_pos hall] at hquiet ⊢
      rw [if_pos hall']
      exact ih hrest hsim hquiet
    · rw [if_neg hall] at hquiet ⊢
      have hwave := runWave_collapse hc hg hsim hw
        fun a ha => hquiet a (List.mem_append_left _ ha)
      have hlater : ∀ o, ex.runWave s w = .ok o → o.2 = false →
          ∀ a ∈ ex.attemptsFrom o.1 waves, a.node.id ∉ nodeIds g'.nodes → a.Quiet ex := by
        intro o ho hf a ha
        refine hquiet a (List.mem_append_right _ ?_)
        obtain ⟨next, flag⟩ := o
        cases hf
        rw [ho]
        exact ha
      by_cases hall' : (w.filter (· ∈ nodeIds g'.nodes)).all (· ∈ s'.skipped) = true
      · rw [if_pos hall']
        rw [runWave_of_allSkipped (hw.sorted.filter _) hall'] at hwave
        cases ho : ex.runWave s w with
        | error e =>
          rw [ho] at hwave
          cases hwave
        | ok o =>
          rw [ho] at hwave
          cases hwave with
          | ok h =>
            obtain ⟨hsim', hflag⟩ := h
            change Result.Rel _ (if o.2 then _ else _) _
            rw [if_neg (by simp [hflag])]
            exact ih hrest hsim' (hlater o ho hflag)
      · rw [if_neg hall']
        cases ho : ex.runWave s w with
        | error e =>
          rw [ho] at hwave
          generalize (ex.withGraph g').runWave s' (w.filter (· ∈ nodeIds g'.nodes)) = y at hwave
          cases hwave
          exact .error e
        | ok o =>
          rw [ho] at hwave
          cases ho' : (ex.withGraph g').runWave s' (w.filter (· ∈ nodeIds g'.nodes)) with
          | error e =>
            rw [ho'] at hwave
            cases hwave
          | ok o' =>
            rw [ho'] at hwave
            cases hwave with
            | ok h =>
              obtain ⟨hsim', hflag⟩ := h
              change Result.Rel _ (if o.2 then _ else _) (if o'.2 then _ else _)
              rw [← hflag]
              by_cases hf : o.2 = true
              · rw [if_pos hf, if_pos hf]
                exact .ok hsim'.agree
              · rw [if_neg hf, if_neg hf]
                exact ih hrest hsim' (hlater o ho (by simpa using hf))

end Simulation

/-- When every dropped node the run attempts is quiet, the optimized graph decides as the
original does. -/
theorem optimize_same_verdict (ex : Executor) {g' : DecisionGraph}
    (hopt : optimize ex.config.graph = .ok g') (hguard : ∀ p, ex.guard p = .ok ())
    (hquiet : ∀ a ∈ ex.attempts, a.node.id ∉ nodeIds g'.nodes → a.Quiet ex) :
    GraphOutcome.verdict <$> (ex.withGraph g').run = GraphOutcome.verdict <$> ex.run := by
  obtain ⟨σ, hc⟩ := optimize_collapse hopt
  obtain ⟨⟨k, hmap⟩, hall⟩ := hc.waves
  have hsim : Sim ex g' σ (initialState ex.request) (initialState ex.request) :=
    ⟨.refl ex _, by simp [SkipClosed, initialState], by simp [SkipClosed, initialState],
      by simp [initialState]⟩
  have hrun := runWaves_collapse hc hguard
    (fun w hw => ⟨(hall w hw).1, (hall w hw).2.2⟩) hsim hquiet
  have hguard' : ∀ p, (ex.withGraph g').guard p = .ok () := hguard
  rw [hmap, runWaves_append_nil hguard'] at hrun
  have hverdict : Result.Rel (fun o o' => o.verdict = o'.verdict) ex.run (ex.withGraph g').run :=
    hrun.bind fun s s' h => .ok (assemble_agree g' h)
  exact (hverdict.map_eq fun _ _ h => h).symm

/-- A test for quiet attempts: no field that is read changes. -/
def Attempt.unchanged (ex : Executor) (a : Attempt) : Bool :=
  match a.result with
  | .error _ => false
  | .ok e =>
    let after := ex.mergeExecution a.before a.node e
    after.state = a.before.state && after.rules = a.before.rules &&
      after.narrowing = a.before.narrowing && after.lexical = a.before.lexical &&
      after.prunedLexically = a.before.prunedLexically && after.semantic = a.before.semantic &&
      after.prunedSemantically = a.before.prunedSemantically &&
      after.reranked = a.before.reranked && after.decisions = a.before.decisions

theorem Attempt.quiet_of_unchanged {ex : Executor} {a : Attempt} (h : a.unchanged ex = true) :
    a.Quiet ex := by
  unfold Attempt.unchanged at h
  cases hr : a.result with
  | error e => simp [hr] at h
  | ok e =>
    simp only [hr, Bool.and_eq_true, decide_eq_true_eq] at h
    obtain ⟨⟨⟨⟨⟨⟨⟨⟨hst, hru⟩, hn⟩, hl⟩, hpl⟩, hse⟩, hps⟩, hrr⟩, hd⟩ := h
    exact ⟨e, hr, .of_fields hst hru hn hl hpl hse hps hrr hd⟩

end Runs

section Samples

attribute [local instance] plainStd

open Sample hiding request executor

def optimized (g : DecisionGraph)
    (h : (optimize g).toOption.isSome = true := by decide +kernel) : DecisionGraph :=
  (optimize g).toOption.get h

theorem optimize_eq_optimized (g : DecisionGraph) (h : (optimize g).toOption.isSome = true) :
    optimize g = .ok (optimized g h) :=
  Result.toOption_eq_some.mp (Option.some_get h).symm

/-- Two lexical nodes that score the same candidates; the second is merged away. -/
def twinLexical : Executor :=
  Sample.executor (graph [node "in" .normalize [], node "keep" .filter ["in"],
      node "a-lex" .lexical ["keep"], node "b-lex" .lexical ["keep"],
      node "judge" .choice ["a-lex"], node "y-gate" .threshold ["judge", "b-lex"],
      node "z-out" .output ["y-gate"]])
    (Sample.request [choice "q" ["a", "b"]] .defaults)
    (scripted "primary" "q" mostly) none []

def twinLexicalOptimized : DecisionGraph := optimized twinLexical.config.graph

theorem optimize_same_verdict_twinLexical :
    twinLexicalOptimized.nodes.length < twinLexical.config.graph.nodes.length ∧
    GraphOutcome.verdict <$> (twinLexical.withGraph twinLexicalOptimized).run =
      GraphOutcome.verdict <$> twinLexical.run := by
  have hquiet : ∀ a ∈ twinLexical.attempts, a.node.id ∉ nodeIds twinLexicalOptimized.nodes →
      a.unchanged twinLexical = true := by decide +kernel
  exact ⟨by decide +kernel, optimize_same_verdict twinLexical (optimize_eq_optimized _ _)
    (fun _ => rfl) fun a ha hd => Attempt.quiet_of_unchanged (hquiet a ha hd)⟩

/-- The Boolean question is decided by a node with no path to the output. -/
def deadJudge : Executor :=
  Sample.executor (graph [node "in" .normalize [], node "judge" .choice ["in"],
      node "flag" .boolean ["in"], node "gate" .threshold ["judge"], node "out" .output ["gate"]])
    (Sample.request [choice "q" ["a", "b"], boolean "b"] .defaults)
    (scripted "primary" "q" certain) none []

def deadJudgeOptimized : DecisionGraph := optimized deadJudge.config.graph

/-- Without that node the Boolean question gets no answer. -/
theorem optimize_drops_decision : optimize deadJudge.config.graph = .ok deadJudgeOptimized ∧
    GraphOutcome.verdict <$> (deadJudge.withGraph deadJudgeOptimized).run ≠
      GraphOutcome.verdict <$> deadJudge.run := by
  refine ⟨optimize_eq_optimized _ _, fun h => ?_⟩
  have hdiffer : (GraphOutcome.verdict <$>
      (deadJudge.withGraph deadJudgeOptimized).run).toOption ≠
        (GraphOutcome.verdict <$> deadJudge.run).toOption := by decide +kernel
  exact hdiffer (congrArg Except.toOption h)

end Samples

end OpenCodifier.Executor
