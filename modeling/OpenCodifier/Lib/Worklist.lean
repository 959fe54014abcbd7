import Mathlib.Data.List.Nodup
import Mathlib.Logic.Relation
import Mathlib.Algebra.BigOperators.Group.Finset.Basic
import Mathlib.Algebra.Order.BigOperators.Group.Finset
set_option autoImplicit false

universe u

namespace Worklist

variable {κ : Type u} [DecidableEq κ] (succ : κ → List κ)

/-- Visit the stack from its head; a node seen for the first time is recorded
and its successors are put in front. The fuel counts pops. -/
def explore : Nat → List κ → List κ → List κ
  | 0, _, seen => seen
  | _ + 1, [], seen => seen
  | fuel + 1, k :: stack, seen =>
    if k ∈ seen then explore fuel stack seen
    else explore fuel (succ k ++ stack) (seen ++ [k])

/-- Pops still possible: the stack plus the successors of what is unseen. -/
def work (U : Finset κ) (stack seen : List κ) : Nat :=
  stack.length + ∑ k ∈ U.filter (· ∉ seen), (succ k).length

theorem seen_prefix_explore (fuel : Nat) (stack seen : List κ) :
    seen <+: explore succ fuel stack seen := by
  induction fuel generalizing stack seen with
  | zero => exact List.prefix_rfl
  | succ fuel ih =>
    cases stack with
    | nil => exact List.prefix_rfl
    | cons k stack =>
      simp only [explore]
      split
      · exact ih stack seen
      · exact (List.prefix_append seen [k]).trans (ih _ _)

theorem explore_nodup (fuel : Nat) (stack seen : List κ) (h : seen.Nodup) :
    (explore succ fuel stack seen).Nodup := by
  induction fuel generalizing stack seen with
  | zero => exact h
  | succ fuel ih =>
    cases stack with
    | nil => exact h
    | cons k stack =>
      simp only [explore]
      split
      · exact ih stack seen h
      · rename_i hk
        refine ih _ _ (List.nodup_append.mpr ⟨h, List.nodup_singleton k, ?_⟩)
        intro a ha b hb hab
        rw [List.mem_singleton] at hb
        exact hk (hb ▸ hab ▸ ha)

theorem mem_explore_sound (fuel : Nat) (stack seen : List κ) {x : κ}
    (h : x ∈ explore succ fuel stack seen) :
    x ∈ seen ∨ ∃ s ∈ stack, Relation.ReflTransGen (fun a b => b ∈ succ a) s x := by
  induction fuel generalizing stack seen with
  | zero => exact Or.inl h
  | succ fuel ih =>
    cases stack with
    | nil => exact Or.inl h
    | cons k stack =>
      simp only [explore] at h
      split at h
      · rcases ih stack seen h with h | ⟨s, hs, hr⟩
        · exact Or.inl h
        · exact Or.inr ⟨s, List.mem_cons_of_mem _ hs, hr⟩
      · rcases ih _ _ h with h | ⟨s, hs, hr⟩
        · rcases List.mem_append.mp h with h | h
          · exact Or.inl h
          · rw [List.mem_singleton] at h
            subst h
            exact Or.inr ⟨x, List.mem_cons_self, Relation.ReflTransGen.refl⟩
        · rcases List.mem_append.mp hs with hs | hs
          · exact Or.inr ⟨k, List.mem_cons_self, Relation.ReflTransGen.head hs hr⟩
          · exact Or.inr ⟨s, List.mem_cons_of_mem _ hs, hr⟩

theorem work_pop_seen (U : Finset κ) (k : κ) (stack seen : List κ) :
    work succ U (k :: stack) seen = work succ U stack seen + 1 := by
  simp only [work, List.length_cons]
  omega

theorem work_pop_new {U : Finset κ} {k : κ} (stack seen : List κ) (hk : k ∈ U)
    (hs : k ∉ seen) :
    work succ U (k :: stack) seen = work succ U (succ k ++ stack) (seen ++ [k]) + 1 := by
  have hsplit : U.filter (· ∉ seen) = insert k (U.filter (· ∉ seen ++ [k])) := by
    ext a
    simp only [Finset.mem_filter, Finset.mem_insert, List.mem_append, List.mem_singleton, not_or]
    by_cases ha : a = k
    · subst ha
      simp [hk, hs]
    · simp [ha]
  have hnot : k ∉ U.filter (· ∉ seen ++ [k]) := by simp
  simp only [work, hsplit, Finset.sum_insert hnot, List.length_cons, List.length_append]
  omega

/-- With enough fuel the stack is visited and what is newly visited is closed
under successors. -/
theorem explore_closed {U : Finset κ} (hU : ∀ a ∈ U, ∀ b ∈ succ a, b ∈ U) (fuel : Nat)
    (stack seen : List κ) (hstack : ∀ s ∈ stack, s ∈ U)
    (hfuel : work succ U stack seen ≤ fuel) :
    (∀ s ∈ stack, s ∈ explore succ fuel stack seen) ∧
    ∀ a ∈ explore succ fuel stack seen, a ∉ seen →
      ∀ b ∈ succ a, b ∈ explore succ fuel stack seen := by
  induction fuel generalizing stack seen with
  | zero =>
    have hnil : stack = [] := List.eq_nil_of_length_eq_zero (by unfold work at hfuel; omega)
    subst hnil
    simp [explore]
    tauto
  | succ fuel ih =>
    cases stack with
    | nil =>
      simp only [explore]
      exact ⟨by simp, fun a ha hn => absurd ha hn⟩
    | cons k stack =>
      by_cases hk : k ∈ seen
      · rw [work_pop_seen] at hfuel
        obtain ⟨h₁, h₂⟩ := ih stack seen (fun s hs => hstack s (List.mem_cons_of_mem _ hs))
          (by omega)
        simp only [explore, hk, if_true]
        refine ⟨fun s hs => ?_, h₂⟩
        rcases List.mem_cons.mp hs with rfl | hs
        · exact (seen_prefix_explore succ fuel stack seen).subset hk
        · exact h₁ s hs
      · rw [work_pop_new succ stack seen (hstack k List.mem_cons_self) hk] at hfuel
        obtain ⟨h₁, h₂⟩ := ih (succ k ++ stack) (seen ++ [k])
          (fun s hs => by
            rcases List.mem_append.mp hs with hs | hs
            · exact hU k (hstack k List.mem_cons_self) s hs
            · exact hstack s (List.mem_cons_of_mem _ hs))
          (by omega)
        simp only [explore, hk, if_false]
        have hkin : k ∈ explore succ fuel (succ k ++ stack) (seen ++ [k]) :=
          (seen_prefix_explore succ fuel _ _).subset (by simp)
        refine ⟨fun s hs => ?_, fun a ha hn b hb => ?_⟩
        · rcases List.mem_cons.mp hs with rfl | hs
          · exact hkin
          · exact h₁ s (List.mem_append_right _ hs)
        · by_cases hak : a = k
          · subst hak
            exact h₁ b (List.mem_append_left _ hb)
          · exact h₂ a ha (by simp [hn, hak]) b hb

theorem explore_of_closed {U : Finset κ} (hU : ∀ a ∈ U, ∀ b ∈ succ a, b ∈ U) (fuel : Nat)
    (stack seen : List κ) (hstack : ∀ s ∈ stack, s ∈ U)
    (hfuel : work succ U stack seen ≤ fuel) (hseen : ∀ a ∈ seen, ∀ b ∈ succ a, b ∈ seen) :
    (∀ a ∈ explore succ fuel stack seen, ∀ b ∈ succ a, b ∈ explore succ fuel stack seen) ∧
    ∀ x, x ∈ explore succ fuel stack seen ↔
      x ∈ seen ∨ ∃ s ∈ stack, Relation.ReflTransGen (fun a b => b ∈ succ a) s x := by
  obtain ⟨h₁, h₂⟩ := explore_closed succ hU fuel stack seen hstack hfuel
  have hsub := (seen_prefix_explore succ fuel stack seen).subset
  have hclosed : ∀ a ∈ explore succ fuel stack seen, ∀ b ∈ succ a,
      b ∈ explore succ fuel stack seen := by
    intro a ha b hb
    by_cases has : a ∈ seen
    · exact hsub (hseen a has b hb)
    · exact h₂ a ha has b hb
  refine ⟨hclosed, fun x => ⟨mem_explore_sound succ fuel stack seen, fun h => ?_⟩⟩
  rcases h with hx | ⟨s, hs, hr⟩
  · exact hsub hx
  · induction hr with
    | refl => exact h₁ s hs
    | tail _ hstep ih => exact hclosed _ ih _ hstep

/-- Exploration from nothing seen collects exactly what the stack reaches. -/
theorem mem_explore_iff {U : Finset κ} (hU : ∀ a ∈ U, ∀ b ∈ succ a, b ∈ U) (fuel : Nat)
    (stack : List κ) (hstack : ∀ s ∈ stack, s ∈ U)
    (hfuel : work succ U stack [] ≤ fuel) (x : κ) :
    x ∈ explore succ fuel stack [] ↔
      ∃ s ∈ stack, Relation.ReflTransGen (fun a b => b ∈ succ a) s x := by
  rw [(explore_of_closed succ hU fuel stack [] hstack hfuel (by simp)).2 x]
  simp

/-- One pop of the loop; none once the stack is empty. -/
def turn : List κ × List κ → Option (List κ × List κ)
  | ([], _) => none
  | (k :: stack, seen) => some (if k ∈ seen then (stack, seen) else (succ k ++ stack, seen ++ [k]))

/-- The loop without fuel empties its stack, at what exploration collects. -/
theorem explore_run {U : Finset κ} (hU : ∀ a ∈ U, ∀ b ∈ succ a, b ∈ U) (fuel : Nat)
    (stack seen : List κ) (hstack : ∀ s ∈ stack, s ∈ U) (hfuel : work succ U stack seen ≤ fuel) :
    Relation.ReflTransGen (fun s t => turn succ s = some t) (stack, seen)
      ([], explore succ fuel stack seen) := by
  induction fuel generalizing stack seen with
  | zero =>
    have hnil : stack = [] := List.eq_nil_of_length_eq_zero (by unfold work at hfuel; omega)
    subst hnil
    exact Relation.ReflTransGen.refl
  | succ fuel ih =>
    cases stack with
    | nil => exact Relation.ReflTransGen.refl
    | cons k stack =>
      by_cases hk : k ∈ seen
      · rw [work_pop_seen] at hfuel
        have hrest := ih stack seen (fun s hs => hstack s (List.mem_cons_of_mem _ hs)) (by omega)
        simp only [explore, if_pos hk]
        exact hrest.head (by simp [turn, hk])
      · rw [work_pop_new succ stack seen (hstack k List.mem_cons_self) hk] at hfuel
        have hnext : ∀ s ∈ succ k ++ stack, s ∈ U := by
          intro s hs
          rcases List.mem_append.mp hs with hs | hs
          · exact hU k (hstack k List.mem_cons_self) s hs
          · exact hstack s (List.mem_cons_of_mem _ hs)
        have hrest := ih (succ k ++ stack) (seen ++ [k]) hnext (by omega)
        simp only [explore, if_neg hk]
        exact hrest.head (by simp [turn, hk])

end Worklist
