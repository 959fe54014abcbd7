import Mathlib.Data.List.Infix
import Mathlib.Order.MinMax
import Mathlib.Data.Nat.Basic
set_option autoImplicit false

universe u

namespace Merging

variable {σ : Type u} (rank : σ → σ → Option Nat) (join : σ → σ → σ)

def lower : Option Nat → Option Nat → Option Nat
  | some r, some r' => some (min r r')
  | some r, none => some r
  | none, r => r

def lowest : List σ → Option Nat
  | a :: b :: l => lower (rank a b) (lowest (b :: l))
  | _ => none

def mergeFirst (r : Nat) : List σ → List σ
  | a :: b :: l => if rank a b = some r then join a b :: l else a :: mergeFirst r (b :: l)
  | l => l

def firstProduct (r : Nat) : List σ → Option σ
  | a :: b :: l => if rank a b = some r then some (join a b) else firstProduct r (b :: l)
  | _ => none

def mergeUpTo : Nat → List σ → List σ
  | 0, l => l
  | n + 1, l =>
    match lowest rank l with
    | none => l
    | some r => mergeUpTo n (mergeFirst rank join r l)

def productsUpTo : Nat → List σ → List σ
  | 0, _ => []
  | n + 1, l =>
    match lowest rank l with
    | none => []
    | some r =>
      (firstProduct rank join r l).toList ++ productsUpTo n (mergeFirst rank join r l)

/-- Merge until no two neighbours are ranked: every merge makes the list shorter. -/
def merge (l : List σ) : List σ := mergeUpTo rank join l.length l

def products (l : List σ) : List σ := productsUpTo rank join l.length l

section Lowest

variable {rank}

theorem pair_infix_cons {a b x y : σ} {l : List σ} :
    [a, b] <:+: x :: y :: l ↔ (a = x ∧ b = y) ∨ [a, b] <:+: y :: l := by
  rw [List.infix_cons_iff, List.cons_prefix_cons, List.cons_prefix_cons]
  simp

theorem lowest_eq_none_iff (l : List σ) :
    lowest rank l = none ↔ ∀ a b, [a, b] <:+: l → rank a b = none := by
  induction l with
  | nil => simp [lowest]
  | cons x l ih =>
    cases l with
    | nil => simp [lowest, List.infix_cons_iff]
    | cons y l =>
      have hlower : ∀ r r' : Option Nat, lower r r' = none ↔ r = none ∧ r' = none := by
        intro r r'
        cases r <;> cases r' <;> simp [lower]
      rw [lowest, hlower, ih]
      simp only [pair_infix_cons, or_imp, forall_and, and_imp]
      exact and_congr_left fun _ => ⟨fun h a b ha hb => ha ▸ hb ▸ h, fun h => h x y rfl rfl⟩

def AtLeast (rank : σ → σ → Option Nat) (r : Nat) (l : List σ) : Prop :=
  ∀ a b, [a, b] <:+: l → ∀ r', rank a b = some r' → r ≤ r'

theorem exists_of_lowest {r : Nat} {l : List σ} (h : lowest rank l = some r) :
    ∃ a b, [a, b] <:+: l ∧ rank a b = some r := by
  induction l with
  | nil => cases h
  | cons x l ih =>
    cases l with
    | nil => cases h
    | cons y l =>
      have hcases : rank x y = some r ∨ lowest rank (y :: l) = some r := by
        rw [lowest] at h
        revert h
        cases rank x y with
        | none => exact Or.inr
        | some r₁ =>
          cases lowest rank (y :: l) with
          | none => exact Or.inl
          | some r₂ =>
            intro h
            rcases min_choice r₁ r₂ with hmin | hmin
            · exact Or.inl (by rw [← h, lower, hmin])
            · exact Or.inr (by rw [← h, lower, hmin])
      rcases hcases with hxy | hrest
      · exact ⟨x, y, pair_infix_cons.mpr (Or.inl ⟨rfl, rfl⟩), hxy⟩
      · obtain ⟨a, b, hmem, hrank⟩ := ih hrest
        exact ⟨a, b, pair_infix_cons.mpr (Or.inr hmem), hrank⟩

theorem lowest_eq_some {r : Nat} {l : List σ} {a b : σ} (hmem : [a, b] <:+: l)
    (hrank : rank a b = some r) (hleast : AtLeast rank r l) : lowest rank l = some r := by
  induction l with
  | nil => simp at hmem
  | cons x l ih =>
    cases l with
    | nil => simp [List.infix_cons_iff] at hmem
    | cons y l =>
      have hrest : AtLeast rank r (y :: l) :=
        fun a b h => hleast a b (pair_infix_cons.mpr (Or.inr h))
      rw [lowest]
      rcases pair_infix_cons.mp hmem with ⟨rfl, rfl⟩ | hmem
      · rw [hrank]
        cases hlow : lowest rank (b :: l) with
        | none => rfl
        | some r' =>
          obtain ⟨c, d, hcd, hr'⟩ := exists_of_lowest hlow
          have hle : r ≤ r' := hrest c d hcd r' hr'
          simp [lower, hle]
      · rw [ih hmem hrest]
        cases hxy : rank x y with
        | none => rfl
        | some r' =>
          have hle : r ≤ r' := hleast x y (pair_infix_cons.mpr (Or.inl ⟨rfl, rfl⟩)) r' hxy
          simp [lower, hle]

end Lowest

section Leftmost

variable {rank}

structure Leftmost (rank : σ → σ → Option Nat) (r : Nat) (pre : List σ) (a b : σ)
    (post : List σ) : Prop where
  ranked : rank a b = some r
  least : AtLeast rank r (pre ++ a :: b :: post)
  first : ∀ x y, [x, y] <:+: pre ++ [a] → rank x y ≠ some r

variable {r : Nat} {pre post : List σ} {a b : σ}

variable (post) in
theorem mergeFirst_leftmost (hrank : rank a b = some r)
    (hfirst : ∀ x y, [x, y] <:+: pre ++ [a] → rank x y ≠ some r) :
    mergeFirst rank join r (pre ++ a :: b :: post) = pre ++ join a b :: post ∧
      firstProduct rank join r (pre ++ a :: b :: post) = some (join a b) := by
  induction pre with
  | nil => simp [mergeFirst, firstProduct, hrank]
  | cons x pre ih =>
    obtain ⟨ihMerge, ihProduct⟩ := ih fun c d h => hfirst c d (List.infix_cons h)
    cases pre with
    | nil =>
      have hx : rank x a ≠ some r := hfirst x a (List.infix_refl _)
      simp [mergeFirst, firstProduct, hrank, hx]
    | cons y pre =>
      have hx : rank x y ≠ some r := hfirst x y (pair_infix_cons.mpr (Or.inl ⟨rfl, rfl⟩))
      simp only [List.cons_append] at ihMerge ihProduct
      simp only [List.cons_append, mergeFirst, firstProduct, hx, if_false, ihMerge, ihProduct,
        and_self]

theorem Leftmost.lowest (h : Leftmost rank r pre a b post) :
    Merging.lowest rank (pre ++ a :: b :: post) = some r :=
  lowest_eq_some ⟨pre, post, by simp⟩ h.ranked h.least

/-- The leftmost neighbours of lowest rank are merged next. -/
theorem Leftmost.merge (h : Leftmost rank r pre a b post) :
    Merging.merge rank join (pre ++ a :: b :: post) =
        Merging.merge rank join (pre ++ join a b :: post) ∧
      products rank join (pre ++ a :: b :: post) =
        join a b :: products rank join (pre ++ join a b :: post) := by
  obtain ⟨hmerge, hproduct⟩ := mergeFirst_leftmost join post h.ranked h.first
  have hlength : (pre ++ a :: b :: post).length = (pre ++ join a b :: post).length + 1 := by
    simp
    omega
  rw [Merging.merge, products, hlength, mergeUpTo, productsUpTo, h.lowest]
  simp only [hmerge, hproduct]
  exact ⟨rfl, rfl⟩

theorem merge_of_unranked {l : List σ} (h : ∀ a b, [a, b] <:+: l → rank a b = none) :
    Merging.merge rank join l = l ∧ products rank join l = [] := by
  have hlowest := (lowest_eq_none_iff l).mpr h
  cases l with
  | nil => exact ⟨rfl, rfl⟩
  | cons x l =>
    rw [Merging.merge, products, List.length_cons, mergeUpTo, productsUpTo, hlowest]
    exact ⟨rfl, rfl⟩

end Leftmost

section Merged

variable {rank join}

theorem flatMap_mergeFirst {β : Type} {f : σ → List β} (hf : ∀ a b, f (join a b) = f a ++ f b)
    (r : Nat) (l : List σ) : (mergeFirst rank join r l).flatMap f = l.flatMap f := by
  induction l with
  | nil => rfl
  | cons x l ih =>
    cases l with
    | nil => rfl
    | cons y l =>
      by_cases hxy : rank x y = some r
      · simp [mergeFirst, hxy, hf]
      · rw [mergeFirst, if_neg hxy, List.flatMap_cons, List.flatMap_cons, ih]

theorem flatMap_merge {β : Type} {f : σ → List β} (hf : ∀ a b, f (join a b) = f a ++ f b)
    (l : List σ) : (merge rank join l).flatMap f = l.flatMap f := by
  have hup : ∀ (n : Nat) (l : List σ), (mergeUpTo rank join n l).flatMap f = l.flatMap f := by
    intro n
    induction n with
    | zero => exact fun _ => rfl
    | succ n ih =>
      intro l
      rw [mergeUpTo]
      cases lowest rank l with
      | none => rfl
      | some r => exact (ih _).trans (flatMap_mergeFirst hf r l)
  exact hup l.length l

end Merged

end Merging
