import Mathlib.Data.List.Forall2
import OpenCodifier.Lib.Result
set_option autoImplicit false

universe u v w

namespace Sampling

/-- From every state the computation succeeds, with a result of the given kind. -/
def Yields {σ ε : Type u} {α : Type u} (m : StateT σ (Except ε) α) (P : α → Prop) : Prop :=
  ∀ s, ∃ a s', m s = .ok (a, s') ∧ P a

variable {σ ε α β : Type u} {P : α → Prop} {Q : β → Prop}

theorem yields_pure {a : α} (h : P a) : Yields (pure a : StateT σ (Except ε) α) P :=
  fun s => ⟨a, s, rfl, h⟩

theorem Yields.imp {m : StateT σ (Except ε) α} {R : α → Prop} (h : Yields m P)
    (himp : ∀ a, P a → R a) : Yields m R := by
  intro s
  obtain ⟨a, s', hrun, ha⟩ := h s
  exact ⟨a, s', hrun, himp a ha⟩

theorem run_pure (a : α) (s : σ) : (pure a : StateT σ (Except ε) α) s = .ok (a, s) := rfl

theorem run_bind {m : StateT σ (Except ε) α} {f : α → StateT σ (Except ε) β} {s s' : σ} {a : α}
    (h : m s = .ok (a, s')) : (m >>= f) s = f a s' := by
  change (m s >>= fun p => f p.1 p.2) = f a s'
  rw [h]
  rfl

theorem run_bind_ok {m : StateT σ (Except ε) α} {f : α → StateT σ (Except ε) β} {s s'' : σ}
    {b : β} : (m >>= f) s = .ok (b, s'') ↔ ∃ a s', m s = .ok (a, s') ∧ f a s' = .ok (b, s'') := by
  constructor
  · intro h
    change (m s >>= fun p => f p.1 p.2) = _ at h
    obtain ⟨p, hp, hf⟩ := Result.bind_ok.mp h
    exact ⟨p.1, p.2, hp, hf⟩
  · rintro ⟨a, s', hm, hf⟩
    rw [run_bind hm, hf]

theorem Yields.of_run {m : StateT σ (Except ε) α} {s s' : σ} {a : α} (h : Yields m P)
    (hrun : m s = .ok (a, s')) : P a := by
  obtain ⟨b, s'', hb, hP⟩ := h s
  rw [hrun] at hb
  cases hb
  exact hP

theorem Yields.bind {m : StateT σ (Except ε) α} {f : α → StateT σ (Except ε) β} (h : Yields m P)
    (hf : ∀ a, P a → Yields (f a) Q) : Yields (m >>= f) Q := by
  intro s
  obtain ⟨a, s', hrun, ha⟩ := h s
  obtain ⟨b, s'', hnext, hb⟩ := hf a ha s'
  exact ⟨b, s'', by rw [run_bind hrun, hnext], hb⟩

/-- Each element of a traversal yields its own result, in order. -/
theorem yields_mapM {f : α → StateT σ (Except ε) β} {R : α → β → Prop} (l : List α)
    (h : ∀ a ∈ l, Yields (f a) (R a)) : Yields (l.mapM f) (List.Forall₂ R l) := by
  induction l with
  | nil =>
    rw [List.mapM_nil]
    exact yields_pure .nil
  | cons a l ih =>
    rw [List.mapM_cons]
    refine (h a List.mem_cons_self).bind fun b hb => ?_
    refine (ih fun a' ha' => h a' (List.mem_cons_of_mem a ha')).bind fun bs hbs => ?_
    exact yields_pure (.cons hb hbs)

theorem foldlM_eq_pure {m : Type u → Type v} [Monad m] [LawfulMonad m] {γ : Type w}
    {f : α → γ → m α} {g : α → γ → α} {l : List γ} (h : ∀ c ∈ l, ∀ a, f a c = pure (g a c)) (a : α) :
    l.foldlM f a = pure (l.foldl g a) := by
  induction l generalizing a with
  | nil => rfl
  | cons c l ih =>
    rw [List.foldlM_cons, h c List.mem_cons_self, pure_bind, List.foldl_cons]
    exact ih (fun c' hc' => h c' (List.mem_cons_of_mem c hc')) _

theorem mapM_eq_pure {m : Type u → Type v} [Monad m] [LawfulMonad m] {γ : Type w}
    {f : γ → m α} {g : γ → α} {l : List γ} (h : ∀ c ∈ l, f c = pure (g c)) :
    l.mapM f = pure (l.map g) := by
  induction l with
  | nil => rw [List.mapM_nil, List.map_nil]
  | cons c l ih =>
    rw [List.mapM_cons, h c List.mem_cons_self, pure_bind,
      ih fun c' hc' => h c' (List.mem_cons_of_mem c hc'), pure_bind, List.map_cons]

end Sampling
