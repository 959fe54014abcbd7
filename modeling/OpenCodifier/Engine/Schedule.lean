import OpenCodifier.Engine.GraphLaw
import OpenCodifier.Engine.Skips
import OpenCodifier.Engine.Sample
set_option autoImplicit false

namespace OpenCodifier.Executor

section Runs

variable [RustStd]

/-- What a run does, in order: it runs every node of a wave that is not skipped, then it
merges what they produced. -/
inductive Event where
  | ran (node : NodeSpec)
  | merged (step : MergeStep)

namespace Event

def node : Event → NodeSpec
  | ran node => node
  | merged step => step.node

def ranNode : Event → Option NodeSpec
  | ran node => some node
  | merged _ => none

def mergedStep : Event → Option MergeStep
  | ran _ => none
  | merged step => some step

def mergedNode (e : Event) : Option NodeSpec := e.mergedStep.map fun step => step.node

end Event

section Events

variable (ex : Executor)

def waveEvents (s : RunState) (wave : List NodeId) (now : List MergeStep) : List Event :=
  (ex.runnable s wave).map Event.ran ++ now.map Event.merged

def eventsFrom (s : RunState) : List (List NodeId) → EngineResult (List Event)
  | [] => .ok []
  | wave :: rest => do
    ex.guard (.wave wave)
    if wave.all (· ∈ s.skipped) then eventsFrom s rest
    else
      let r ← ex.runWave s wave
      let now ← ex.mergeSteps s s (ex.waveResults s wave)
      if r.2 then pure (ex.waveEvents s wave now)
      else
        let later ← eventsFrom r.1 rest
        pure (ex.waveEvents s wave now ++ later)

def events : EngineResult (List Event) :=
  ex.eventsFrom (initialState ex.request) ex.config.graph.waves

end Events

theorem eventsFrom_of_steps {ex : Executor} {s : RunState} {waves : List (List NodeId)}
    {steps : List MergeStep} (h : ex.stepsFrom s waves = .ok steps) :
    ∃ events, ex.eventsFrom s waves = .ok events ∧
      events.filterMap Event.mergedStep = steps := by
  have hwave : ∀ (s : RunState) (wave : List NodeId) (now : List MergeStep),
      (ex.waveEvents s wave now).filterMap Event.mergedStep = now := by
    intro s wave now
    rw [waveEvents, List.filterMap_append, List.filterMap_map, List.filterMap_map]
    have hran : Event.mergedStep ∘ Event.ran = fun _ => none := rfl
    have hmerged : Event.mergedStep ∘ Event.merged = some := rfl
    rw [hran, hmerged]
    simp
  induction waves generalizing s steps with
  | nil =>
    cases h
    exact ⟨[], rfl, rfl⟩
  | cons wave waves ih =>
    obtain ⟨u, hg, h⟩ := Result.bind_ok.mp h
    by_cases hs : wave.all (· ∈ s.skipped) = true
    · rw [if_pos hs] at h
      obtain ⟨events, hev, hsteps⟩ := ih h
      refine ⟨events, Result.bind_ok.mpr ⟨u, hg, ?_⟩, hsteps⟩
      rw [if_pos hs]
      exact hev
    · rw [if_neg hs] at h
      obtain ⟨r, hr, h⟩ := Result.bind_ok.mp h
      obtain ⟨now, hnow, h⟩ := Result.bind_ok.mp h
      by_cases hstop : r.2 = true
      · rw [if_pos hstop] at h
        cases h
        refine ⟨ex.waveEvents s wave steps, Result.bind_ok.mpr ⟨u, hg, ?_⟩, hwave s wave steps⟩
        rw [if_neg hs]
        refine Result.bind_ok.mpr ⟨r, hr, Result.bind_ok.mpr ⟨steps, hnow, ?_⟩⟩
        rw [if_pos hstop]
        rfl
      · rw [if_neg hstop] at h
        obtain ⟨later, hl, h⟩ := Result.bind_ok.mp h
        cases h
        obtain ⟨events, hev, hsteps⟩ := ih hl
        refine ⟨ex.waveEvents s wave now ++ events, Result.bind_ok.mpr ⟨u, hg, ?_⟩, ?_⟩
        · rw [if_neg hs]
          refine Result.bind_ok.mpr ⟨r, hr, Result.bind_ok.mpr ⟨now, hnow, ?_⟩⟩
          rw [if_neg hstop]
          exact Result.bind_ok.mpr ⟨events, hev, rfl⟩
        · rw [List.filterMap_append, hwave, hsteps]

section Wave

variable {ex : Executor} {s : RunState}

theorem mergeSteps_forall₂ {snap : RunState} {results : List (NodeSpec × EngineResult NodeExecution)}
    {now : List MergeStep} (h : ex.mergeSteps snap s results = .ok now) :
    List.Forall₂ (fun r st => r.1 = st.node ∧ r.2 = .ok st.output ∧ st.snapshot = snap)
      results now := by
  induction results generalizing s now with
  | nil =>
    cases h
    exact .nil
  | cons r results ih =>
    obtain ⟨spec, result⟩ := r
    obtain ⟨e, he, h⟩ := Result.bind_ok.mp h
    obtain ⟨later, hl, h⟩ := Result.bind_ok.mp h
    cases h
    exact .cons ⟨rfl, he, rfl⟩ (ih hl)

theorem mem_mergeSteps {snap : RunState} {results : List (NodeSpec × EngineResult NodeExecution)}
    {now : List MergeStep} (h : ex.mergeSteps snap s results = .ok now) {st : MergeStep}
    (hst : st ∈ now) :
    ∃ r ∈ results, r.1 = st.node ∧ r.2 = .ok st.output ∧ st.snapshot = snap := by
  have hrel := mergeSteps_forall₂ h
  clear h
  induction hrel with
  | nil => cases hst
  | cons hr _ ih =>
    rcases List.mem_cons.mp hst with rfl | hst
    · exact ⟨_, List.mem_cons_self, hr⟩
    · obtain ⟨r, hm, hr'⟩ := ih hst
      exact ⟨r, List.mem_cons_of_mem _ hm, hr'⟩

theorem mergeResults_flag {results : List (NodeSpec × EngineResult NodeExecution)}
    {acc out : RunState × Bool} (h : ex.mergeResults acc results = .ok out) :
    out.2 = (acc.2 || results.any fun r => r.1.kind = .output) := by
  induction results generalizing acc with
  | nil =>
    cases h
    simp
  | cons r results ih =>
    obtain ⟨spec, result⟩ := r
    obtain ⟨e, -, h⟩ := Result.bind_ok.mp h
    rw [ih h, List.any_cons, Bool.or_assoc]

/-- A branch node that was merged and whose condition had failed. -/
def FalseBranch (st : MergeStep) : Prop :=
  st.node.kind = .branch ∧ branchFires st.snapshot st.node = false

theorem runnable_nodup {w : List NodeId} (hw : w.Nodup) : (ex.runnable s w).Nodup := by
  refine (hw.filterMap fun a b n ha hb => ?_).filter _
  rw [← (findNode_some ha).2, (findNode_some hb).2]

omit [RustStd] in
theorem exists_mem_iff_of_forall₂ {α β : Type} {R : α → β → Prop} {P : α → Prop} {Q : β → Prop}
    {l : List α} {l' : List β} (h : List.Forall₂ R l l')
    (hiff : ∀ a ∈ l, ∀ b, R a b → (P a ↔ Q b)) : (∃ a ∈ l, P a) ↔ ∃ b ∈ l', Q b := by
  induction h with
  | nil => simp
  | cons hab _ ih =>
    have ih := ih fun a ha => hiff a (List.mem_cons_of_mem _ ha)
    simp only [List.exists_mem_cons_iff, ih, hiff _ List.mem_cons_self _ hab]

structure WaveLaw (ex : Executor) (s : RunState) (wave : List NodeId) (now : List MergeStep)
    (r : RunState × Bool) : Prop where
  nodes : (now.map fun st => st.node).Perm (ex.runnable s wave)
  closed : SkipClosed ex r.1
  skipped : ∀ x, x ∈ r.1.skipped ↔ x ∈ s.skipped ∨
    ∃ st ∈ now, FalseBranch st ∧ Downstream ex.config.graph.nodes st.node.id x
  stops : r.2 = true ↔ ∃ n ∈ ex.runnable s wave, n.kind = .output

theorem waveLaw_of_run (hc : SkipClosed ex s) {wave : List NodeId} {r : RunState × Bool}
    {now : List MergeStep} (hr : ex.runWave s wave = .ok r)
    (hnow : ex.mergeSteps s s (ex.waveResults s wave) = .ok now) : WaveLaw ex s wave now r := by
  have hrel := mergeSteps_forall₂ hnow
  have hperm : (ex.waveResults s wave).Perm
      ((ex.runnable s wave).map fun spec => (spec, ex.execute s spec)) :=
    List.perm_insertionSort _ _
  have hfst : (ex.waveResults s wave).map Prod.fst = now.map fun st => st.node := by
    refine List.forall₂_eq_eq_eq ▸ ?_
    rw [List.forall₂_map_left_iff, List.forall₂_map_right_iff]
    exact hrel.imp fun _ _ h => h.1
  obtain ⟨hclosed, hskip⟩ := mergeResults_skipped hc hr
  refine ⟨?_, hclosed, fun x => (hskip x).trans (or_congr_right ?_), ?_⟩
  · rw [← hfst]
    refine (hperm.map Prod.fst).trans ?_
    rw [List.map_map]
    simp [Function.comp_def]
  · refine exists_mem_iff_of_forall₂ hrel fun e he st hst => ?_
    obtain ⟨hnode, hout, hsnap⟩ := hst
    have hexec := executed_of_produces (waveResults_produces e he _ hout)
    rw [hnode] at hexec ⊢
    have hbranch := executed_branched_iff hexec
    unfold FalseBranch
    rw [hsnap, ← hbranch, hout]
    simp
  · rw [mergeResults_flag hr]
    simp only [Bool.false_or, List.any_eq_true, decide_eq_true_eq]
    constructor
    · intro h
      obtain ⟨e, he, hk⟩ := h
      obtain ⟨n, hn, rfl⟩ := List.mem_map.mp (hperm.mem_iff.mp he)
      exact ⟨n, hn, hk⟩
    · intro h
      obtain ⟨n, hn, hk⟩ := h
      exact ⟨(n, ex.execute s n), hperm.mem_iff.mpr (List.mem_map_of_mem hn), hk⟩

end Wave

section Heights

/-- The wave a node belongs to: the length of its longest dependency chain. -/
noncomputable def waveOf (ex : Executor) (id : NodeId) : Nat :=
  Kahn.height (depsOf ex.config.graph.nodes) id

abbrev levelOf (ex : Executor) (k : Nat) : List NodeId :=
  Kahn.level (nodeIds ex.config.graph.nodes) (depsOf ex.config.graph.nodes) k

variable {ex : Executor}

theorem waveOf_lt {n : NodeSpec} (hn : n ∈ ex.config.graph.nodes) {d : NodeId}
    (hd : d ∈ n.dependsOn) : ex.waveOf d < ex.waveOf n.id := by
  obtain ⟨m, -, hm⟩ := ex.config.graph.waves_eq
  refine Kahn.height_lt (hm n.id (mem_nodeIds.mpr ⟨n, hn, rfl⟩)) ?_
  rwa [depsOf_mem ex.config.graph.ids_nodup hn]

theorem mem_levelOf_iff {n : NodeSpec} (hn : n ∈ ex.config.graph.nodes) {k : Nat} :
    n.id ∈ ex.levelOf k ↔ ex.waveOf n.id = k := by
  obtain ⟨m, -, hm⟩ := ex.config.graph.waves_eq
  have hid := mem_nodeIds.mpr ⟨n, hn, rfl⟩
  exact Kahn.mem_level_iff_height _ _ hid (hm n.id hid)

theorem waveOf_lt_of_downstream {a b : NodeId} (h : Downstream ex.config.graph.nodes a b) :
    ex.waveOf a < ex.waveOf b := by
  have hstep : ∀ {a b}, b ∈ dependentsIn ex.config.graph.nodes a → ex.waveOf a < ex.waveOf b := by
    intro a b hb
    obtain ⟨n, hn, hd, rfl⟩ := mem_dependentsIn.mp hb
    exact waveOf_lt hn hd
  induction h with
  | single hb => exact hstep hb
  | tail _ hb ih => exact ih.trans (hstep hb)

theorem levelOf_nodup (k : Nat) : (ex.levelOf k).Nodup :=
  Kahn.level_nodup _ _ ex.config.graph.ids_nodup k

end Heights

section Schedule

variable {ex : Executor}

/-- Runs come before merges in a wave, and waves come in order. -/
noncomputable def Event.time (ex : Executor) : Event → Nat
  | ran node => 2 * ex.waveOf node.id
  | merged step => 2 * ex.waveOf step.node.id + 1

def OnceIn (events : List Event) (n : NodeSpec) : Prop :=
  (events.filterMap Event.ranNode).count n = 1 ∧ (events.filterMap Event.mergedNode).count n = 1

/-- The output is not before the node's wave, or it is skipped and nothing stops the run. -/
def InReach (ex : Executor) (final : RunState) (n : NodeSpec) : Prop :=
  ex.waveOf n.id ≤ ex.waveOf ex.config.graph.output.id ∨
    ex.config.graph.output.id ∈ final.skipped

/-- A schedule of the waves from `k` to `k + m`. -/
structure Scheduled (ex : Executor) (s final : RunState) (k m : Nat) (events : List Event) :
    Prop where
  within : ∀ e ∈ events, e.node ∈ ex.config.graph.nodes ∧ k ≤ ex.waveOf e.node.id ∧
    ex.waveOf e.node.id < k + m
  skipped : ∀ x, x ∈ final.skipped ↔ x ∈ s.skipped ∨
    ∃ st, .merged st ∈ events ∧ FalseBranch st ∧ Downstream ex.config.graph.nodes st.node.id x
  unskipped : ∀ e ∈ events, e.node.id ∉ final.skipped
  once : ∀ n ∈ ex.config.graph.nodes, k ≤ ex.waveOf n.id → ex.waveOf n.id < k + m →
    n.id ∉ final.skipped → InReach ex final n → OnceIn events n
  inReach : ∀ e ∈ events, InReach ex final e.node
  ordered : events.Pairwise fun e e' => e.time ex ≤ e'.time ex

section Wave

variable {s : RunState} {k : Nat} {now : List MergeStep} {r : RunState × Bool}

theorem mem_waveEvents (h : WaveLaw ex s (ex.levelOf k) now r) {e : Event}
    (he : e ∈ ex.waveEvents s (ex.levelOf k) now) : e.node ∈ ex.runnable s (ex.levelOf k) := by
  rcases List.mem_append.mp he with he | he
  · obtain ⟨n, hn, rfl⟩ := List.mem_map.mp he
    exact hn
  · obtain ⟨st, hst, rfl⟩ := List.mem_map.mp he
    exact h.nodes.mem_iff.mp (List.mem_map_of_mem hst)

theorem merged_mem_waveEvents {st : MergeStep} {w : List NodeId} :
    .merged st ∈ ex.waveEvents s w now ↔ st ∈ now := by
  simp [waveEvents]

theorem waveOf_of_runnable {n : NodeSpec} (hn : n ∈ ex.runnable s (ex.levelOf k)) :
    ex.waveOf n.id = k := by
  obtain ⟨hm, hw, -⟩ := mem_runnable_iff.mp hn
  exact (mem_levelOf_iff hm).mp hw

theorem waveEvents_ran {w : List NodeId} :
    (ex.waveEvents s w now).filterMap Event.ranNode = ex.runnable s w := by
  rw [waveEvents, List.filterMap_append, List.filterMap_map, List.filterMap_map]
  have hran : Event.ranNode ∘ Event.ran = some := rfl
  have hmerged : Event.ranNode ∘ Event.merged = fun _ : MergeStep => none := rfl
  rw [hran, hmerged]
  simp

theorem waveEvents_merged {w : List NodeId} :
    (ex.waveEvents s w now).filterMap Event.mergedNode = now.map fun st => st.node := by
  rw [waveEvents, List.filterMap_append, List.filterMap_map, List.filterMap_map]
  have hran : Event.mergedNode ∘ Event.ran = fun _ => none := rfl
  have hmerged : Event.mergedNode ∘ Event.merged = some ∘ fun st : MergeStep => st.node := rfl
  rw [hran, hmerged]
  simp

theorem onceIn_waveEvents (h : WaveLaw ex s (ex.levelOf k) now r) {n : NodeSpec}
    (hn : n ∈ ex.runnable s (ex.levelOf k)) : OnceIn (ex.waveEvents s (ex.levelOf k) now) n := by
  have hcount := List.count_eq_one_of_mem (runnable_nodup (s := s) (levelOf_nodup k)) hn
  refine ⟨?_, ?_⟩
  · rw [waveEvents_ran, hcount]
  · rw [waveEvents_merged, h.nodes.count_eq, hcount]

theorem waveEvents_ordered (h : WaveLaw ex s (ex.levelOf k) now r) :
    (ex.waveEvents s (ex.levelOf k) now).Pairwise fun e e' => e.time ex ≤ e'.time ex := by
  have hran : ∀ e ∈ (ex.runnable s (ex.levelOf k)).map Event.ran, e.time ex = 2 * k := by
    intro e he
    obtain ⟨n, hn, rfl⟩ := List.mem_map.mp he
    rw [Event.time, waveOf_of_runnable hn]
  have hmerged : ∀ e ∈ now.map Event.merged, e.time ex = 2 * k + 1 := by
    intro e he
    obtain ⟨st, hst, rfl⟩ := List.mem_map.mp he
    rw [Event.time, waveOf_of_runnable (h.nodes.mem_iff.mp (List.mem_map_of_mem hst))]
  have hconst : ∀ (l : List Event) (c : Nat), (∀ e ∈ l, e.time ex = c) →
      l.Pairwise fun e e' => e.time ex ≤ e'.time ex := by
    intro l c hl
    refine List.pairwise_of_forall_mem_list fun e he e' he' => ?_
    rw [hl e he, hl e' he']
  refine List.pairwise_append.mpr ⟨hconst _ _ hran, hconst _ _ hmerged, fun e he e' he' => ?_⟩
  rw [hran e he, hmerged e' he']
  omega

theorem unskipped_of_wave {final : RunState} {n : NodeSpec}
    (hn : n ∈ ex.runnable s (ex.levelOf k))
    (hskip : ∀ x, x ∈ final.skipped → x ∈ s.skipped ∨
      ∃ st : MergeStep, k ≤ ex.waveOf st.node.id ∧
        Downstream ex.config.graph.nodes st.node.id x) : n.id ∉ final.skipped := by
  intro hmem
  obtain ⟨-, -, hns⟩ := mem_runnable_iff.mp hn
  rcases hskip n.id hmem with hs | hst
  · exact hns hs
  · obtain ⟨st, hk, hd⟩ := hst
    have hlt := waveOf_lt_of_downstream hd
    have heq := waveOf_of_runnable hn
    omega

end Wave

section Run

variable {s final : RunState} {k m : Nat} {now : List MergeStep} {r : RunState × Bool}

theorem scheduled_of_stop (h : WaveLaw ex s (ex.levelOf k) now r) (hstop : r.2 = true) :
    Scheduled ex s r.1 k (m + 1) (ex.waveEvents s (ex.levelOf k) now) := by
  obtain ⟨o, ho, hok⟩ := h.stops.mp hstop
  have hout : o = ex.config.graph.output :=
    ex.config.graph.eq_output (mem_runnable_iff.mp ho).1 hok
  have houtk : ex.waveOf ex.config.graph.output.id = k := hout ▸ waveOf_of_runnable ho
  have hskip : ∀ x, x ∈ r.1.skipped → x ∈ s.skipped ∨ ∃ st : MergeStep,
      k ≤ ex.waveOf st.node.id ∧ Downstream ex.config.graph.nodes st.node.id x := by
    intro x hx
    refine ((h.skipped x).mp hx).imp_right fun hst => ?_
    obtain ⟨st, hst, -, hd⟩ := hst
    have hn := h.nodes.mem_iff.mp (List.mem_map_of_mem hst)
    exact ⟨st, (waveOf_of_runnable hn).ge, hd⟩
  have hun : ∀ n ∈ ex.runnable s (ex.levelOf k), n.id ∉ r.1.skipped := fun n hn =>
    unskipped_of_wave hn hskip
  refine ⟨fun e he => ?_, fun x => ?_, fun e he => ?_, ?_, fun e he => ?_, waveEvents_ordered h⟩
  · have hn := mem_waveEvents h he
    have hk := waveOf_of_runnable hn
    exact ⟨(mem_runnable_iff.mp hn).1, by omega, by omega⟩
  · simp only [merged_mem_waveEvents]
    exact h.skipped x
  · exact hun _ (mem_waveEvents h he)
  · intro n hn hk _ hns hreach
    rcases hreach with hle | hos
    · have hlevel : n.id ∈ ex.levelOf k := (mem_levelOf_iff hn).mpr (by omega)
      have hs : n.id ∉ s.skipped := fun hs => hns ((h.skipped n.id).mpr (Or.inl hs))
      exact onceIn_waveEvents h (mem_runnable_iff.mpr ⟨hn, hlevel, hs⟩)
    · exact absurd hos (hout ▸ hun o ho)
  · refine Or.inl ?_
    rw [waveOf_of_runnable (mem_waveEvents h he), houtk]

/-- The output was not run before wave `k`. -/
def Pending (ex : Executor) (s : RunState) (k : Nat) : Prop :=
  k ≤ ex.waveOf ex.config.graph.output.id ∨ ex.config.graph.output.id ∈ s.skipped

theorem pending_of_continue (h : WaveLaw ex s (ex.levelOf k) now r) (hstop : r.2 = false)
    (hp : Pending ex s k) : Pending ex r.1 (k + 1) := by
  have hmono : ∀ x, x ∈ s.skipped → x ∈ r.1.skipped := fun x hx =>
    (h.skipped x).mpr (Or.inl hx)
  rcases hp with hle | hs
  · by_cases hk : ex.waveOf ex.config.graph.output.id = k
    · by_cases hs : ex.config.graph.output.id ∈ s.skipped
      · exact Or.inr (hmono _ hs)
      · have hlevel := (mem_levelOf_iff ex.config.graph.output_mem).mpr hk
        have hrun := mem_runnable_iff.mpr ⟨ex.config.graph.output_mem, hlevel, hs⟩
        rw [h.stops.mpr ⟨_, hrun, ex.config.graph.output_kind⟩] at hstop
        cases hstop
    · refine Or.inl ?_
      omega
  · exact Or.inr (hmono _ hs)

/-- A wave that does not run the output is followed by the schedule of the rest. -/
theorem scheduled_of_continue (h : WaveLaw ex s (ex.levelOf k) now r) (hp : Pending ex s k)
    {later : List Event} (hl : Scheduled ex r.1 final (k + 1) m later) :
    Scheduled ex s final k (m + 1) (ex.waveEvents s (ex.levelOf k) now ++ later) := by
  have hmono : ∀ x, x ∈ s.skipped → x ∈ final.skipped := fun x hx =>
    (hl.skipped x).mpr (Or.inl ((h.skipped x).mpr (Or.inl hx)))
  have hskip : ∀ x, x ∈ final.skipped → x ∈ s.skipped ∨ ∃ st : MergeStep,
      k ≤ ex.waveOf st.node.id ∧ Downstream ex.config.graph.nodes st.node.id x := by
    intro x hx
    rcases (hl.skipped x).mp hx with hr | hst
    · refine ((h.skipped x).mp hr).imp_right fun hst => ?_
      obtain ⟨st, hst, -, hd⟩ := hst
      have hn := h.nodes.mem_iff.mp (List.mem_map_of_mem hst)
      exact ⟨st, (waveOf_of_runnable hn).ge, hd⟩
    · obtain ⟨st, hst, -, hd⟩ := hst
      have hk : k + 1 ≤ ex.waveOf st.node.id := (hl.within _ hst).2.1
      exact Or.inr ⟨st, by omega, hd⟩
  have hun : ∀ n ∈ ex.runnable s (ex.levelOf k), n.id ∉ final.skipped := fun n hn =>
    unskipped_of_wave hn hskip
  refine ⟨fun e he => ?_, fun x => ?_, fun e he => ?_, ?_, fun e he => ?_, ?_⟩
  · rcases List.mem_append.mp he with he | he
    · have hn := mem_waveEvents h he
      have hk := waveOf_of_runnable hn
      exact ⟨(mem_runnable_iff.mp hn).1, by omega, by omega⟩
    · obtain ⟨hn, hk, hm⟩ := hl.within e he
      exact ⟨hn, by omega, by omega⟩
  · rw [hl.skipped, h.skipped]
    simp only [List.mem_append, merged_mem_waveEvents, or_and_right, exists_or, or_assoc]
  · rcases List.mem_append.mp he with he | he
    · exact hun _ (mem_waveEvents h he)
    · exact hl.unskipped e he
  · intro n hn hk hm hns hreach
    have hdisj : ∀ f : Event → Option NodeSpec, (∀ e n, f e = some n → e.node = n) →
        ex.waveOf n.id = k → n ∉ later.filterMap f := by
      intro f hf heq hmem
      obtain ⟨e, he, hfe⟩ := List.mem_filterMap.mp hmem
      have hle := (hl.within e he).2.1
      rw [hf e n hfe] at hle
      omega
    have hran : ∀ e n, Event.ranNode e = some n → e.node = n := by
      intro e n he
      cases e <;> cases he
      rfl
    have hmerged : ∀ e n, Event.mergedNode e = some n → e.node = n := by
      intro e n he
      cases e <;> cases he
      rfl
    by_cases heq : ex.waveOf n.id = k
    · have hs : n.id ∉ s.skipped := fun hs => hns (hmono _ hs)
      obtain ⟨h₁, h₂⟩ := onceIn_waveEvents h
        (mem_runnable_iff.mpr ⟨hn, (mem_levelOf_iff hn).mpr heq, hs⟩)
      refine ⟨?_, ?_⟩
      · rw [List.filterMap_append, List.count_append, h₁,
          List.count_eq_zero.mpr (hdisj _ hran heq)]
      · rw [List.filterMap_append, List.count_append, h₂,
          List.count_eq_zero.mpr (hdisj _ hmerged heq)]
    · obtain ⟨h₁, h₂⟩ := hl.once n hn (by omega) (by omega) hns hreach
      have hnot : n ∉ ex.runnable s (ex.levelOf k) := fun hmem => heq (waveOf_of_runnable hmem)
      refine ⟨?_, ?_⟩
      · rw [List.filterMap_append, List.count_append, h₁, waveEvents_ran,
          List.count_eq_zero.mpr hnot]
      · rw [List.filterMap_append, List.count_append, h₂, waveEvents_merged,
          h.nodes.count_eq, List.count_eq_zero.mpr hnot]
  · rcases List.mem_append.mp he with he | he
    · have hk := waveOf_of_runnable (mem_waveEvents h he)
      refine hp.imp (fun hle => by omega) (hmono _)
    · exact hl.inReach e he
  · refine List.pairwise_append.mpr ⟨waveEvents_ordered h, hl.ordered, fun e he e' he' => ?_⟩
    have hk := waveOf_of_runnable (mem_waveEvents h he)
    have hk' := (hl.within e' he').2.1
    have htime : ∀ e : Event, 2 * ex.waveOf e.node.id ≤ e.time ex ∧
        e.time ex ≤ 2 * ex.waveOf e.node.id + 1 := by
      intro e
      cases e <;> simp [Event.time, Event.node]
    have h₁ := (htime e).2
    have h₂ := (htime e').1
    omega

theorem runnable_of_allSkipped {w : List NodeId} (h : w.all (· ∈ s.skipped) = true) :
    ex.runnable s w = [] := by
  rw [List.eq_nil_iff_forall_not_mem]
  intro n hn
  obtain ⟨-, hw, hs⟩ := mem_runnable_iff.mp hn
  exact hs (of_decide_eq_true (List.all_eq_true.mp h n.id hw))

theorem waveLaw_of_allSkipped (hc : SkipClosed ex s) {w : List NodeId}
    (h : w.all (· ∈ s.skipped) = true) : WaveLaw ex s w [] (s, false) := by
  refine ⟨?_, hc, by simp, ?_⟩
  · rw [runnable_of_allSkipped h]
    exact .nil
  · rw [runnable_of_allSkipped h]
    simp

/-- What a run from wave `k` on does. -/
theorem scheduled_of_run {events : List Event} (hc : SkipClosed ex s) (hp : Pending ex s k)
    (hrun : ex.runWaves s ((List.range' k m).map ex.levelOf) = .ok final)
    (hev : ex.eventsFrom s ((List.range' k m).map ex.levelOf) = .ok events) :
    Scheduled ex s final k m events := by
  induction m generalizing k s events with
  | zero =>
    cases hrun
    cases hev
    exact ⟨by simp, by simp, by simp, fun n _ h₁ h₂ => by omega, by simp, .nil⟩
  | succ m ih =>
    rw [List.range'_succ, List.map_cons] at hrun hev
    obtain ⟨u, hg, hrun⟩ := Result.bind_ok.mp hrun
    obtain ⟨u', hg', hev⟩ := Result.bind_ok.mp hev
    by_cases hs : (ex.levelOf k).all (· ∈ s.skipped) = true
    · rw [if_pos hs] at hrun hev
      have hw := waveLaw_of_allSkipped hc hs
      have hrest := scheduled_of_continue hw hp
        (ih hc (pending_of_continue hw rfl hp) hrun hev)
      have hnil : ex.waveEvents s (ex.levelOf k) [] = [] := by
        rw [waveEvents, runnable_of_allSkipped hs]
        rfl
      rwa [hnil, List.nil_append] at hrest
    · rw [if_neg hs] at hrun hev
      obtain ⟨r, hr, hrun⟩ := Result.bind_ok.mp hrun
      obtain ⟨r', hr', hev⟩ := Result.bind_ok.mp hev
      rw [hr] at hr'
      cases hr'
      obtain ⟨now, hnow, hev⟩ := Result.bind_ok.mp hev
      have hw := waveLaw_of_run hc hr hnow
      cases hstop : r.2 with
      | true =>
        rw [hstop] at hrun hev
        cases hrun
        cases hev
        exact scheduled_of_stop hw hstop
      | false =>
        rw [hstop] at hrun hev
        obtain ⟨later, hl, hev⟩ := Result.bind_ok.mp hev
        cases hev
        exact scheduled_of_continue hw hp (ih hw.closed (pending_of_continue hw hstop hp) hrun hl)

theorem scheduled {events : List Event} (hrun : ex.runState = .ok final)
    (hev : ex.events = .ok events) :
    ∃ m, Scheduled ex (initialState ex.request) final 0 m events ∧
      ∀ n ∈ ex.config.graph.nodes, ex.waveOf n.id < m := by
  obtain ⟨m, hw, hm⟩ := ex.config.graph.waves_eq
  unfold runState at hrun
  unfold Executor.events at hev
  rw [hw, List.range_eq_range'] at hrun hev
  refine ⟨m, scheduled_of_run ?_ (Or.inl (Nat.zero_le _)) hrun hev, fun n hn => ?_⟩
  · intro a ha
    simp [initialState] at ha
  · have hb := hm n.id (mem_nodeIds.mpr ⟨n, hn, rfl⟩)
    by_contra hle
    have hf := (Kahn.below_height hb).2
    rw [Kahn.below_le _ (by unfold waveOf at hle; omega) hb] at hf
    cases hf

/-- A run that returns skips exactly what comes after the branches whose condition failed,
runs and merges every other node it reaches exactly once and no skipped one, and runs no
node before the dependencies it does not skip are merged. -/
theorem run_schedule (hrun : ex.runState = .ok final) :
    ∃ events, ex.events = .ok events ∧ ex.steps = .ok (events.filterMap Event.mergedStep) ∧
      (∀ id, id ∈ final.skipped ↔ ∃ st, .merged st ∈ events ∧ FalseBranch st ∧
        Downstream ex.config.graph.nodes st.node.id id) ∧
      (∀ n ∈ ex.config.graph.nodes, n.id ∉ final.skipped →
        ex.waveOf n.id ≤ ex.waveOf ex.config.graph.output.id → OnceIn events n) ∧
      (∀ e ∈ events, e.node ∈ ex.config.graph.nodes ∧ e.node.id ∉ final.skipped) ∧
      ∀ pre n post, events = pre ++ .ran n :: post → ∀ d ∈ n.dependsOn, d ∉ final.skipped →
        ∃ st, .merged st ∈ pre ∧ st.node.id = d := by
  obtain ⟨steps, hsteps, -⟩ := runState_trace hrun
  obtain ⟨events, hev, hfilter⟩ := eventsFrom_of_steps hsteps
  obtain ⟨m, h, hm⟩ := scheduled hrun hev
  have honce : ∀ n ∈ ex.config.graph.nodes, n.id ∉ final.skipped → InReach ex final n →
      OnceIn events n := by
    intro n hn hns hreach
    have hlt := hm n hn
    exact h.once n hn (Nat.zero_le _) (by omega) hns hreach
  refine ⟨events, hev, hfilter ▸ hsteps, fun id => ?_,
    fun n hn hns hle => honce n hn hns (Or.inl hle),
    fun e he => ⟨(h.within e he).1, h.unskipped e he⟩, ?_⟩
  · rw [h.skipped]
    simp [initialState]
  · intro pre n post heq d hd hds
    have hn : Event.ran n ∈ events := by simp [heq]
    have hmem : n ∈ ex.config.graph.nodes := (h.within _ hn).1
    obtain ⟨dn, hdn, rfl⟩ := mem_nodeIds.mp (ex.config.graph.wellFormed.deps_known n hmem d hd)
    have hlt := waveOf_lt hmem hd
    have hreach : InReach ex final dn := (h.inReach _ hn).imp_left fun hle => hlt.le.trans hle
    have hcount := (honce dn hdn hds hreach).2
    obtain ⟨e, he, hen⟩ := List.mem_filterMap.mp
      (List.count_pos_iff.mp (hcount ▸ Nat.one_pos) : dn ∈ events.filterMap Event.mergedNode)
    cases e with
    | ran => cases hen
    | merged st =>
      cases hen
      refine ⟨st, ?_, rfl⟩
      rw [heq] at he
      rcases List.mem_append.mp he with he | he
      · exact he
      -- a merge after the run would be of a wave that is not earlier
      · rcases List.mem_cons.mp he with he | he
        · cases he
        · have hord := h.ordered
          rw [heq] at hord
          have hle := (List.pairwise_cons.mp (List.pairwise_append.mp hord).2.1).1 _ he
          simp only [Event.time] at hle
          change ex.waveOf st.node.id < _ at hlt
          omega

end Run

end Schedule

end Runs

section Samples

attribute [local instance] plainStd

open Sample hiding request executor

/-- The branch asks for a fact the request does not carry, and the choice node is behind it. -/
def branchedGraph : DecisionGraph :=
  graph [node "in" .normalize [],
    { node "vip" .branch ["in"] with when' := some (.factExists "vip") },
    node "pick" .choice ["vip"], node "check" .boolean ["in"],
    node "gate" .threshold ["check"], node "out" .output ["gate"]]

def branchedExecutor : Executor :=
  Sample.executor branchedGraph (Sample.request [choice "q" ["a", "b"], boolean "r"] .defaults)
    (scripted "primary" "q" certain) none []

theorem run_schedule_branched :
    ∃ final, branchedExecutor.runState = .ok final ∧ final.skipped.map Ident.text = ["pick"] ∧
      ∃ events, branchedExecutor.events = .ok events ∧
        ∀ n ∈ branchedExecutor.config.graph.nodes, n.id ∉ final.skipped →
          branchedExecutor.waveOf n.id ≤
            branchedExecutor.waveOf branchedExecutor.config.graph.output.id →
          OnceIn events n := by
  obtain ⟨final, hrun⟩ := Result.ok_of_isSome
    (by decide +kernel : branchedExecutor.runState.toOption.isSome = true)
  have hskip : branchedExecutor.runState.toOption.map (fun s => s.skipped.map Ident.text) =
      some ["pick"] := by decide +kernel
  rw [hrun] at hskip
  obtain ⟨events, hev, -, -, honce, -, -⟩ := run_schedule hrun
  exact ⟨final, hrun, Option.some.inj hskip, events, hev, honce⟩

end Samples

end OpenCodifier.Executor
