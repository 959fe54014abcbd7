import OpenCodifier.Lib.Waves
import OpenCodifier.Engine.Run
set_option autoImplicit false

namespace OpenCodifier

variable [RustStd]

/-- One merge of a run: the snapshot the node read, the state its output was
merged into, the node and what it produced. -/
abbrev MergeStep := Waves.Step RunState NodeSpec NodeExecution

namespace Executor

variable (ex : Executor)

def machine : Waves.Machine RunState NodeSpec NodeExecution where
  start := initialState ex.request
  Produces s spec execution :=
    spec ∈ ex.config.graph.nodes ∧ spec.id ∉ s.skipped ∧ ex.execute s spec = .ok execution
  merge := ex.mergeExecution

def mergeSteps (snapshot : RunState) (s : RunState) :
    List (NodeSpec × EngineResult NodeExecution) → EngineResult (List MergeStep)
  | [] => .ok []
  | (spec, result) :: rest => do
    let execution ← result
    let later ← mergeSteps snapshot (ex.mergeExecution s spec execution) rest
    pure (⟨snapshot, s, spec, execution⟩ :: later)

def waveResults (s : RunState) (wave : List NodeId) :
    List (NodeSpec × EngineResult NodeExecution) :=
  ((ex.runnable s wave).map fun spec => (spec, ex.execute s spec)).insertionSort resultOrder

def stepsFrom (s : RunState) : List (List NodeId) → EngineResult (List MergeStep)
  | [] => .ok []
  | wave :: rest => do
    ex.guard (.wave wave)
    if wave.all (· ∈ s.skipped) then stepsFrom s rest
    else
      let r ← ex.runWave s wave
      let now ← ex.mergeSteps s s (ex.waveResults s wave)
      if r.2 then pure now
      else
        let later ← stepsFrom r.1 rest
        pure (now ++ later)

def steps : EngineResult (List MergeStep) :=
  ex.stepsFrom (initialState ex.request) ex.config.graph.waves

variable {ex}

theorem mergeSteps_trace {snap s : RunState} {done : List MergeStep}
    (h : Waves.Trace ex.machine done snap s)
    {results : List (NodeSpec × EngineResult NodeExecution)}
    (hres : ∀ r ∈ results, ∀ execution, r.2 = .ok execution →
      ex.machine.Produces snap r.1 execution)
    {flag : Bool} {out : RunState × Bool} (hm : ex.mergeResults (s, flag) results = .ok out) :
    ∃ now, ex.mergeSteps snap s results = .ok now ∧
      Waves.Trace ex.machine (done ++ now) snap out.1 := by
  induction results generalizing s flag done with
  | nil =>
    cases hm
    exact ⟨[], rfl, by simpa using h⟩
  | cons r results ih =>
    obtain ⟨spec, result⟩ := r
    obtain ⟨execution, he, hm⟩ := Result.bind_ok.mp hm
    have hp := hres _ List.mem_cons_self execution he
    obtain ⟨now, hnow, ht⟩ := ih (h.merge hp) (fun r hr => hres r (List.mem_cons_of_mem _ hr)) hm
    refine ⟨⟨snap, s, spec, execution⟩ :: now, ?_, by simpa using ht⟩
    refine Result.bind_ok.mpr ⟨execution, he, ?_⟩
    refine Result.bind_ok.mpr ⟨now, hnow, rfl⟩

theorem mem_runnable {s : RunState} {wave : List NodeId} {spec : NodeSpec}
    (h : spec ∈ ex.runnable s wave) :
    spec ∈ ex.config.graph.nodes ∧ spec.id ∉ s.skipped := by
  obtain ⟨hm, hs⟩ := List.mem_filter.mp h
  obtain ⟨id, -, hid⟩ := List.mem_filterMap.mp hm
  exact ⟨List.mem_of_find?_eq_some hid, of_decide_eq_true hs⟩

theorem waveResults_produces {s : RunState} {wave : List NodeId} :
    ∀ r ∈ ex.waveResults s wave, ∀ execution, r.2 = .ok execution →
      ex.machine.Produces s r.1 execution := by
  intro r hr execution he
  obtain ⟨spec, hspec, rfl⟩ := List.mem_map.mp ((List.mem_insertionSort _).mp hr)
  obtain ⟨hn, hs⟩ := mem_runnable hspec
  exact ⟨hn, hs, he⟩

theorem stepsFrom_trace {s : RunState} {done : List MergeStep}
    (h : Waves.Trace ex.machine done s s) {waves : List (List NodeId)} {final : RunState}
    (hr : ex.runWaves s waves = .ok final) :
    ∃ later, ex.stepsFrom s waves = .ok later ∧
      Waves.Trace ex.machine (done ++ later) final final := by
  induction waves generalizing s done with
  | nil =>
    cases hr
    exact ⟨[], rfl, by simpa using h⟩
  | cons wave waves ih =>
    obtain ⟨u, hg, hr⟩ := Result.bind_ok.mp hr
    by_cases hs : wave.all (· ∈ s.skipped) = true
    · rw [if_pos hs] at hr
      obtain ⟨later, hl, ht⟩ := ih h hr
      refine ⟨later, Result.bind_ok.mpr ⟨u, hg, ?_⟩, ht⟩
      rw [if_pos hs]
      exact hl
    · rw [if_neg hs] at hr
      obtain ⟨r, hw, hr⟩ := Result.bind_ok.mp hr
      obtain ⟨now, hnow, ht⟩ := mergeSteps_trace h waveResults_produces hw
      by_cases hf : r.2 = true
      · rw [if_pos hf] at hr
        cases hr
        refine ⟨now, Result.bind_ok.mpr ⟨u, hg, ?_⟩, ht.commit⟩
        rw [if_neg hs]
        refine Result.bind_ok.mpr ⟨r, hw, Result.bind_ok.mpr ⟨now, hnow, ?_⟩⟩
        rw [if_pos hf]
        rfl
      · rw [if_neg hf] at hr
        obtain ⟨later, hl, ht'⟩ := ih ht.commit hr
        refine ⟨now ++ later, Result.bind_ok.mpr ⟨u, hg, ?_⟩, by simpa using ht'⟩
        rw [if_neg hs]
        refine Result.bind_ok.mpr ⟨r, hw, Result.bind_ok.mpr ⟨now, hnow, ?_⟩⟩
        rw [if_neg hf]
        exact Result.bind_ok.mpr ⟨later, hl, rfl⟩

theorem runState_trace {s : RunState} (h : ex.runState = .ok s) :
    ∃ steps, ex.steps = .ok steps ∧ Waves.Trace ex.machine steps s s :=
  stepsFrom_trace (.start : Waves.Trace ex.machine [] _ _) h

theorem trace_of_steps {s : RunState} {steps : List MergeStep} (h : ex.runState = .ok s)
    (hs : ex.steps = .ok steps) : Waves.Trace ex.machine steps s s := by
  obtain ⟨steps', hs', ht⟩ := runState_trace h
  rw [hs] at hs'
  cases hs'
  exact ht

theorem exists_step {p : MergeStep → Bool} (hrun : ex.runState.toOption.isSome = true)
    (hp : (ex.steps.toOption.getD []).any p = true) :
    ∃ final steps, ex.runState = .ok final ∧ ex.steps = .ok steps ∧
      ∃ st ∈ steps, p st = true := by
  obtain ⟨final, hr⟩ := Result.ok_of_isSome hrun
  obtain ⟨steps, hs, -⟩ := runState_trace hr
  rw [hs] at hp
  exact ⟨final, steps, hr, hs, by simpa [Except.toOption] using hp⟩

end Executor

end OpenCodifier
