import OpenCodifier.Engine.Sample
set_option autoImplicit false

namespace OpenCodifier.Executor

variable [RustStd] (ex : Executor)

section Threads

/-- The order in which the worker threads of a wave hand in their results: some rearrangement
of the nodes that were started. -/
structure FinishOrder where
  of : List NodeId → List NodeSpec → List NodeSpec
  perm : ∀ wave nodes, (of wave nodes).Perm nodes

variable (order : FinishOrder) (s : RunState)

/-- One wave on worker threads: every node reads the same snapshot, the results come in as the
threads finish and are merged in node-id order. -/
def runWaveThreaded (wave : List NodeId) : EngineResult (RunState × Bool) :=
  let results := (order.of wave (ex.runnable s wave)).map fun spec => (spec, ex.execute s spec)
  ex.mergeResults (s, false) (results.insertionSort resultOrder)

def runWavesThreaded (s : RunState) : List (List NodeId) → EngineResult RunState
  | [] => .ok s
  | wave :: rest => do
    ex.guard (.wave wave)
    if wave.all (· ∈ s.skipped) then runWavesThreaded s rest
    else
      let r ← ex.runWaveThreaded order s wave
      if r.2 then pure r.1 else runWavesThreaded r.1 rest

def runThreaded : EngineResult GraphOutcome := do
  let s ← ex.runWavesThreaded order (initialState ex.request) ex.config.graph.waves
  pure (ex.assemble s)

instance idOrder_total : Std.Total NodeSpec.idOrder := ⟨fun a b => le_total a.id b.id⟩

instance idOrder_trans : IsTrans NodeSpec NodeSpec.idOrder :=
  ⟨fun _ _ _ hab hbc => le_trans hab hbc⟩

omit [RustStd] in
theorem sorted_results (f : NodeSpec → EngineResult NodeExecution) (nodes : List NodeSpec) :
    (nodes.map fun n => (n, f n)).insertionSort resultOrder =
      (nodes.insertionSort NodeSpec.idOrder).map fun n => (n, f n) :=
  (List.map_insertionSort NodeSpec.idOrder resultOrder (fun n => (n, f n)) nodes
    fun _ _ _ _ => Iff.rfl).symm

variable {ex} in
theorem runnable_ext {s : RunState} {wave : List NodeId} {n m : NodeSpec}
    (hn : n ∈ ex.runnable s wave) (hm : m ∈ ex.runnable s wave) (h : n.id = m.id) : n = m := by
  obtain ⟨idn, -, hfn⟩ := List.mem_filterMap.mp (List.mem_filter.mp hn).1
  obtain ⟨idm, -, hfm⟩ := List.mem_filterMap.mp (List.mem_filter.mp hm).1
  exact node_ext_id ex.config.graph.ids_nodup (findNode_some hfn).1 (findNode_some hfm).1 h

/-- Whichever thread finishes first, the wave is merged as if its nodes had run one by one. -/
theorem runWaveThreaded_eq (wave : List NodeId) :
    ex.runWaveThreaded order s wave = ex.runWave s wave := by
  have hperm : ((order.of wave (ex.runnable s wave)).insertionSort NodeSpec.idOrder).Perm
      ((ex.runnable s wave).insertionSort NodeSpec.idOrder) :=
    (List.perm_insertionSort _ _).trans
      ((order.perm wave _).trans (List.perm_insertionSort _ _).symm)
  have hsame : (order.of wave (ex.runnable s wave)).insertionSort NodeSpec.idOrder =
      (ex.runnable s wave).insertionSort NodeSpec.idOrder := by
    refine List.Perm.eq_of_pairwise ?_ (List.pairwise_insertionSort _ _)
      (List.pairwise_insertionSort _ _) hperm
    intro n m hn hm hle hge
    have hn' := (List.mem_insertionSort _).mp (hperm.mem_iff.mp hn)
    exact runnable_ext hn' ((List.mem_insertionSort _).mp hm) (le_antisymm hle hge)
  unfold runWaveThreaded runWave
  dsimp only
  rw [sorted_results, sorted_results, hsame]

theorem runWavesThreaded_eq (waves : List (List NodeId)) :
    ex.runWavesThreaded order s waves = ex.runWaves s waves := by
  induction waves generalizing s with
  | nil => rfl
  | cons wave rest ih => simp only [runWavesThreaded, runWaves, runWaveThreaded_eq, ih]

theorem runThreaded_eq : ex.runThreaded order = ex.run := by
  unfold runThreaded run runState
  rw [runWavesThreaded_eq]

end Threads

section Interruption

/-- The same execution with a deadline that never passes and a token nobody cancels. -/
def undisturbed : Executor := { ex with guard := fun _ => .ok () }

/-- An error one of the checks raises. -/
def Refuses (e : EngineError) : Prop := ∃ point, ex.guard point = .error e

open Result (Cut)

variable {ex}

theorem guard_cut (point : GuardPoint) :
    Cut ex.Refuses (ex.undisturbed.guard point) (ex.guard point) := by
  cases h : ex.guard point with
  | ok u => exact .whole _
  | error e => exact .short ⟨point, h⟩

theorem walkRungs_cut (s : RunState) (id : NodeId) (question : QuestionId)
    (policy : DecisionPolicy) (decidedBy : String × NodeKind) (rungs : List (Rung × Nat))
    (w : Walk) : Cut ex.Refuses (ex.undisturbed.walkRungs s id question policy decidedBy rungs w)
      (ex.walkRungs s id question policy decidedBy rungs w) := by
  induction rungs generalizing w with
  | nil => exact .whole _
  | cons entry rest ih =>
    obtain ⟨rung, index⟩ := entry
    simp only [walkRungs]
    split
    · exact .whole _
    · split
      · exact ih _
      · refine (guard_cut _).bind fun u => ?_
        exact (Cut.whole _).bind fun escalated => ih _

theorem resolveOne_cut (s : RunState) (id : NodeId) (entry : QuestionId × QuestionDecision) :
    Cut ex.Refuses (ex.undisturbed.resolveOne s id entry) (ex.resolveOne s id entry) := by
  have hwalk : Cut ex.Refuses (ex.undisturbed.walk s id entry.1 entry.2)
      (ex.walk s id entry.1 entry.2) := walkRungs_cut _ _ _ _ _ _ _
  exact hwalk.bind fun w => .whole _

theorem resolveThreshold_cut (s : RunState) (id : NodeId) :
    Cut ex.Refuses (ex.undisturbed.resolveThreshold s id) (ex.resolveThreshold s id) :=
  (Cut.mapM _ fun entry => resolveOne_cut s id entry).bind fun _ => .whole _

theorem execute_cut (s : RunState) (spec : NodeSpec) :
    Cut ex.Refuses (ex.undisturbed.execute s spec) (ex.execute s spec) := by
  refine (guard_cut _).bind fun u => ?_
  split
  case h_12 => exact resolveThreshold_cut s spec.id
  all_goals exact .whole _

theorem mergeResults_cut (s : RunState) (specs : List NodeSpec) (acc : RunState × Bool) :
    Cut ex.Refuses
      (ex.undisturbed.mergeResults acc (specs.map fun n => (n, ex.undisturbed.execute s n)))
      (ex.mergeResults acc (specs.map fun n => (n, ex.execute s n))) := by
  induction specs generalizing acc with
  | nil => exact .whole _
  | cons n specs ih => exact (execute_cut s n).bind fun execution => ih _

variable (ex) in
theorem runWave_cut (s : RunState) (wave : List NodeId) :
    Cut ex.Refuses (ex.undisturbed.runWave s wave) (ex.runWave s wave) := by
  unfold runWave
  dsimp only
  rw [sorted_results, sorted_results]
  exact mergeResults_cut s _ (s, false)

theorem runWaves_cut (s : RunState) (waves : List (List NodeId)) :
    Cut ex.Refuses (ex.undisturbed.runWaves s waves) (ex.runWaves s waves) := by
  induction waves generalizing s with
  | nil => exact .whole _
  | cons wave rest ih =>
    refine (guard_cut _).bind fun u => ?_
    split
    · exact ih s
    · refine (runWave_cut ex s wave).bind fun r => ?_
      split
      · exact .whole _
      · exact ih r.1

variable (ex) in
theorem run_cut : Cut ex.Refuses ex.undisturbed.run ex.run :=
  (runWaves_cut _ _).bind fun _ => .whole _

end Interruption

section Deadline

/-- A deadline, in nanoseconds of the run's clock. -/
structure Deadline where
  instant : Nat
  limit : Nat

def Deadline.after (now timeout : Nat) : Deadline := ⟨now + timeout, timeout⟩

def Deadline.expired (deadline : Deadline) (now : Nat) : Bool := deadline.instant ≤ now

/-- Whole milliseconds, at most what a `u64` holds. -/
def millis (nanoseconds : Nat) : Nat := min (nanoseconds / 1000000) (2 ^ 64 - 1)

/-- What one check finds: the token, the clock, and the clock again for the elapsed time. -/
structure Check where
  cancelled : Bool
  now : Nat
  later : Nat

/-- The check before every wave, node and rung. -/
def guardOf (deadline : Deadline) (started : Nat) (checks : GuardPoint → Check)
    (point : GuardPoint) : EngineResult Unit :=
  if (checks point).cancelled then .error .cancelled
  else if deadline.expired (checks point).now then
    .error (.timeout (millis ((checks point).later - started)) (millis deadline.limit))
  else .ok ()

def timed (deadline : Deadline) (started : Nat) (checks : GuardPoint → Check) : Executor :=
  { ex with guard := guardOf deadline started checks }

/-- Whatever the clock and the token tell each check and in whatever order the threads of each
wave finish, an execution is the undisturbed one run node by node, or it fails as cancelled
because a check found it so, or it fails as timed out because a check found the deadline
passed. -/
theorem runThreaded_timed (deadline : Deadline) (started : Nat) (checks : GuardPoint → Check)
    (order : FinishOrder) :
    (ex.timed deadline started checks).runThreaded order = ex.undisturbed.run ∨
      (∃ point, (checks point).cancelled = true ∧
        (ex.timed deadline started checks).runThreaded order = .error .cancelled) ∨
      ∃ point, deadline.expired (checks point).now = true ∧
        (ex.timed deadline started checks).runThreaded order =
          .error (.timeout (millis ((checks point).later - started)) (millis deadline.limit)) := by
  rw [runThreaded_eq]
  rcases (run_cut (ex.timed deadline started checks)).eq_or with h | h
  · exact Or.inl h
  · obtain ⟨e, ⟨point, hpoint⟩, he⟩ := h
    refine Or.inr ?_
    rw [he]
    change guardOf deadline started checks point = .error e at hpoint
    unfold guardOf at hpoint
    split at hpoint
    · cases hpoint
      exact Or.inl ⟨point, ‹_›, rfl⟩
    · split at hpoint
      · cases hpoint
        exact Or.inr ⟨point, ‹_›, rfl⟩
      · cases hpoint

end Deadline

end OpenCodifier.Executor
