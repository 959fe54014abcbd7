import Mathlib.Data.List.Basic
set_option autoImplicit false

universe u v w

namespace Waves

/-- What a node may produce on a snapshot, and what an output does to the state
it is merged into. -/
structure Machine (σ : Type u) (ν : Type v) (ω : Type w) where
  start : σ
  Produces : σ → ν → ω → Prop
  merge : σ → ν → ω → σ

structure Step (σ : Type u) (ν : Type v) (ω : Type w) where
  snapshot : σ
  before : σ
  node : ν
  output : ω

variable {σ : Type u} {ν : Type v} {ω : Type w}

def Machine.after (m : Machine σ ν ω) (st : Step σ ν ω) : σ := m.merge st.before st.node st.output

/-- A run: its merge steps so far, the snapshot of the current wave and the
current state. -/
inductive Trace (m : Machine σ ν ω) : List (Step σ ν ω) → σ → σ → Prop
  | start : Trace m [] m.start m.start
  | merge {steps : List (Step σ ν ω)} {snap cur : σ} {n : ν} {out : ω} :
      Trace m steps snap cur → m.Produces snap n out →
      Trace m (steps ++ [⟨snap, cur, n, out⟩]) snap (m.merge cur n out)
  | commit {steps : List (Step σ ν ω)} {snap cur : σ} :
      Trace m steps snap cur → Trace m steps cur cur

namespace Trace

variable {m : Machine σ ν ω} {steps : List (Step σ ν ω)} {snap cur : σ}

/-- A property of the start that every merge step of the run keeps holds of the
snapshot and of the current state. -/
theorem invariant (Inv : σ → Prop) (h : Trace m steps snap cur) (hstart : Inv m.start)
    (hmerge : ∀ st ∈ steps, m.Produces st.snapshot st.node st.output → Inv st.snapshot →
      Inv st.before → Inv (m.after st)) : Inv snap ∧ Inv cur := by
  induction h with
  | start => exact ⟨hstart, hstart⟩
  | merge _ hp ih =>
    obtain ⟨hs, hc⟩ := ih fun st hst => hmerge st (List.mem_append_left _ hst)
    exact ⟨hs, hmerge _ (List.mem_append_right _ (List.mem_singleton.mpr rfl)) hp hs hc⟩
  | commit _ ih =>
    have hc := (ih hmerge).2
    exact ⟨hc, hc⟩

theorem of_mem (h : Trace m steps snap cur) {st : Step σ ν ω} (hst : st ∈ steps) :
    m.Produces st.snapshot st.node st.output ∧
      ∃ rest later, steps = rest ++ st :: later ∧ Trace m rest st.snapshot st.before := by
  induction h with
  | start => cases hst
  | merge ht hp ih =>
    rcases List.mem_append.mp hst with hst | hst
    · obtain ⟨hp', rest, later, rfl, ht'⟩ := ih hst
      exact ⟨hp', rest, _, List.append_assoc rest (st :: later) _, ht'⟩
    · cases List.mem_singleton.mp hst
      exact ⟨hp, _, [], rfl, ht⟩
  | commit _ ih => exact ih hst

/-- The rule of `invariant` for the states of one merge step. -/
theorem invariant_step (Inv : σ → Prop) (h : Trace m steps snap cur) (hstart : Inv m.start)
    (hmerge : ∀ st ∈ steps, m.Produces st.snapshot st.node st.output → Inv st.snapshot →
      Inv st.before → Inv (m.after st)) {st : Step σ ν ω} (hst : st ∈ steps) :
    Inv st.snapshot ∧ Inv st.before := by
  obtain ⟨-, rest, later, rfl, ht⟩ := h.of_mem hst
  exact ht.invariant Inv hstart fun st' hst' => hmerge st' (List.mem_append_left _ hst')

/-- The rule of `invariant` for every state of the run: the ends and those of its merge steps. -/
theorem invariant_states (Inv : σ → Prop) (h : Trace m steps snap cur) (hstart : Inv m.start)
    (hmerge : ∀ st ∈ steps, m.Produces st.snapshot st.node st.output → Inv st.snapshot →
      Inv st.before → Inv (m.after st)) {s : σ}
    (hs : s = snap ∨ s = cur ∨ ∃ st ∈ steps, s = st.snapshot ∨ s = st.before) : Inv s := by
  rcases hs with rfl | rfl | ⟨st, hst, rfl | rfl⟩
  · exact (h.invariant Inv hstart hmerge).1
  · exact (h.invariant Inv hstart hmerge).2
  · exact (h.invariant_step Inv hstart hmerge hst).1
  · exact (h.invariant_step Inv hstart hmerge hst).2

/-- What a merge step establishes and every later one keeps holds at the end. -/
theorem of_established (Inv : σ → Prop) {pre post : List (Step σ ν ω)} {st : Step σ ν ω}
    (h : Trace m (pre ++ st :: post) snap cur) (hst : Inv (m.after st))
    (hkeep : ∀ st' ∈ post, m.Produces st'.snapshot st'.node st'.output → Inv st'.before →
      Inv (m.after st')) : Inv cur := by
  generalize hsteps : pre ++ st :: post = steps at h
  induction h generalizing post with
  | start => simp at hsteps
  | @merge steps snap cur n out ht hp ih =>
    rcases List.eq_nil_or_concat post with rfl | ⟨post', last, rfl⟩
    · obtain ⟨-, hlast⟩ := List.append_inj' hsteps rfl
      cases hlast
      exact hst
    · rw [List.concat_eq_append, ← List.cons_append, ← List.append_assoc] at hsteps
      obtain ⟨hrest, hlast⟩ := List.append_inj' hsteps rfl
      cases hlast
      rw [List.concat_eq_append] at hkeep
      refine hkeep _ (List.mem_append_right _ (List.mem_singleton.mpr rfl)) hp
        (ih (fun st' hst' => hkeep st' (List.mem_append_left _ hst')) hrest)
  | commit _ ih => exact ih hkeep hsteps

end Trace

end Waves
