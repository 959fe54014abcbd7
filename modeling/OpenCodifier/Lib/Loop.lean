import Mathlib.Data.List.Basic
import Mathlib.Logic.Function.Iterate
set_option autoImplicit false

universe u v w x

namespace Loop

variable {σ : Type u} {guard : σ → Prop} {body : σ → σ} {s t : σ}

/-- The runs of a loop, from the state it starts in to the one it ends in. -/
inductive Runs (guard : σ → Prop) (body : σ → σ) : σ → σ → Prop
  | stop {s : σ} : ¬guard s → Runs guard body s s
  | turn {s t : σ} : guard s → Runs guard body (body s) t → Runs guard body s t

namespace Runs

theorem unique {u : σ} (h : Runs guard body s t) (h' : Runs guard body s u) : t = u := by
  induction h with
  | stop hs =>
    cases h' with
    | stop => rfl
    | turn hg => exact absurd hg hs
  | turn hg _ ih =>
    cases h' with
    | stop hs => exact absurd hg hs
    | turn _ hrest => exact ih hrest

theorem exit (h : Runs guard body s t) : ¬guard t := by
  induction h with
  | stop hs => exact hs
  | turn _ _ ih => exact ih

theorem invariant {I : σ → Prop} (h : Runs guard body s t)
    (hstep : ∀ s, I s → guard s → I (body s)) (hs : I s) : I t := by
  induction h with
  | stop => exact hs
  | turn hg _ ih => exact ih (hstep _ hs hg)

theorem turns (h : Runs guard body s t) : ∃ k, body^[k] s = t ∧ ∀ j < k, guard (body^[j] s) := by
  induction h with
  | stop => exact ⟨0, rfl, fun j hj => absurd hj (Nat.not_lt_zero j)⟩
  | turn hg _ ih =>
    obtain ⟨k, hk, hall⟩ := ih
    refine ⟨k + 1, hk, fun j hj => ?_⟩
    cases j with
    | zero => exact hg
    | succ j => exact hall j (Nat.lt_of_succ_lt_succ hj)

/-- With a size that every turn lowers, fuel for that size completes the run. -/
theorem of_fuel [DecidablePred guard] {f : Nat → σ → σ} (size : σ → Nat)
    (hzero : ∀ s, f 0 s = s)
    (hsucc : ∀ n s, f (n + 1) s = if guard s then f n (body s) else s)
    (hsize : ∀ s, guard s → size (body s) < size s) (n : Nat) (s : σ) (hn : size s ≤ n) :
    Runs guard body s (f n s) := by
  induction n generalizing s with
  | zero =>
    rw [hzero]
    exact .stop fun hg => by
      have := hsize s hg
      omega
  | succ n ih =>
    rw [hsucc]
    by_cases hg : guard s
    · rw [if_pos hg]
      have := hsize s hg
      exact .turn hg (ih _ (by omega))
    · rw [if_neg hg]
      exact .stop hg

end Runs

section Popping

variable {α : Type u} {large : List α → Prop} {l out : List α}

/-- The longest prefix that is not too large, or nothing when every prefix is. -/
structure LongestWithin (large : List α → Prop) (l out : List α) : Prop where
  initial : out <+: l
  within_or_nil : ¬large out ∨ out = []
  longer : ∀ t, t <+: l → out.length < t.length → large t

/-- A loop that drops the last element while the rest is too large. -/
theorem LongestWithin.of_runs (h : Runs (fun l => large l ∧ l ≠ []) List.dropLast l out) :
    LongestWithin large l out := by
  have hinv := h.invariant
    (I := fun m => m <+: l ∧ ∀ t, t <+: l → m.length < t.length → large t) ?_
    ⟨List.prefix_rfl, fun t ht hlt => absurd ht.length_le (Nat.not_le.mpr hlt)⟩
  · refine ⟨hinv.1, ?_, hinv.2⟩
    by_contra hnot
    rw [not_or, not_not] at hnot
    exact h.exit hnot
  · rintro m ⟨hm, hlonger⟩ ⟨hover, hne⟩
    refine ⟨(List.dropLast_prefix m).trans hm, fun t ht hlt => ?_⟩
    rw [List.length_dropLast] at hlt
    rcases Nat.lt_or_ge m.length t.length with hlt' | hge
    · exact hlonger t ht hlt'
    · have hlen : m.length = t.length := by omega
      rw [← (List.prefix_of_prefix_length_le hm ht (Nat.le_of_eq hlen)).eq_of_length hlen]
      exact hover

theorem LongestWithin.eq_self (h : LongestWithin large l out) (hl : ¬large l) : out = l :=
  h.initial.eq_of_length_le <| Nat.not_lt.mp fun hlt => hl (h.longer l List.prefix_rfl hlt)

end Popping

end Loop

namespace Guarded

variable {σ : Type u} {ρ : Type v} {α : Type w} (guard : ρ → σ → Bool) (write : ρ → σ → σ)

/-- The rules that fire, and the state they leave. -/
def run : σ → List ρ → List ρ × σ
  | s, [] => ([], s)
  | s, r :: rules =>
    if guard r s then
      let rest := run (write r s) rules
      (r :: rest.1, rest.2)
    else run s rules

/-- A loop over the rules that keeps an account of those that fired: what one rule preserves, fired
or passed over, the whole loop preserves. -/
theorem foldl_accounts {step : α → ρ → α} {state : α → σ} {Account : List ρ → α → Prop}
    (hskip : ∀ fired a r, Account fired a → guard r (state a) = false →
      Account fired (step a r) ∧ state (step a r) = state a)
    (hfire : ∀ fired a r, Account fired a → guard r (state a) = true →
      Account (fired ++ [r]) (step a r) ∧ state (step a r) = write r (state a))
    {fired : List ρ} {a : α} (h : Account fired a) (rules : List ρ) :
    Account (fired ++ (run guard write (state a) rules).1) (rules.foldl step a) ∧
      state (rules.foldl step a) = (run guard write (state a) rules).2 := by
  induction rules generalizing fired a with
  | nil => exact ⟨by rwa [run, List.append_nil], rfl⟩
  | cons r rules ih =>
    rw [List.foldl_cons, run]
    cases hg : guard r (state a) with
    | false =>
      obtain ⟨hnext, hstate⟩ := hskip fired a r h hg
      have hrest := ih hnext
      rwa [hstate] at hrest
    | true =>
      obtain ⟨hnext, hstate⟩ := hfire fired a r h hg
      have hrest := ih hnext
      rw [hstate, List.append_assoc] at hrest
      exact hrest

end Guarded

namespace Mealy

variable {σ : Type u} {ι : Type v} {ο : Type w} {ο' : Type x}

/-- The state a list of inputs leads to, and the outputs on the way. -/
def run (step : σ → ι → σ × ο) : σ → List ι → σ × List ο
  | s, [] => (s, [])
  | s, i :: inputs =>
    let turn := step s i
    let rest := run step turn.1 inputs
    (rest.1, turn.2 :: rest.2)

variable {step : σ → ι → σ × ο}

theorem run_length (s : σ) (inputs : List ι) : (run step s inputs).2.length = inputs.length := by
  induction inputs generalizing s with
  | nil => rfl
  | cons i inputs ih =>
    rw [run]
    simp only [List.length_cons, ih]

/-- Machines that move alike, one with the outputs of the other in another form. -/
theorem run_map {step' : σ → ι → σ × ο'} {f : ο → ο'}
    (h : ∀ s i, step' s i = ((step s i).1, f (step s i).2)) (s : σ) (inputs : List ι) :
    run step' s inputs = ((run step s inputs).1, (run step s inputs).2.map f) := by
  induction inputs generalizing s with
  | nil => rfl
  | cons i inputs ih =>
    rw [run, run, h, ih]
    rfl

/-- What every turn on an allowed input keeps of the state and its history, a run keeps. -/
theorem run_history {Allowed : ι → Prop} {Kept : List (ι × ο) → σ → Prop}
    (hturn : ∀ past s i, Allowed i → Kept past s → Kept (past ++ [(i, (step s i).2)]) (step s i).1)
    {past : List (ι × ο)} {s : σ} (hs : Kept past s) {inputs : List ι}
    (hinputs : ∀ i ∈ inputs, Allowed i) :
    Kept (past ++ inputs.zip (run step s inputs).2) (run step s inputs).1 := by
  induction inputs generalizing past s with
  | nil => simpa [run] using hs
  | cons i inputs ih =>
    rw [List.forall_mem_cons] at hinputs
    have h := ih (hturn past s i hinputs.1 hs) hinputs.2
    rw [run, List.zip_cons_cons]
    rwa [List.append_assoc] at h

end Mealy
