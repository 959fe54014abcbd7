import Mathlib.Order.Lattice
import Mathlib.Order.Basic
import Mathlib.Order.Defs.LinearOrder
import Mathlib.Data.List.Basic
import Mathlib.Data.List.Perm.Basic
set_option autoImplicit false

universe u v

namespace Extremum

variable {α : Type u} {β : Type v} [LinearOrder β]

/-- The element with the largest key; among equal keys the last one wins. -/
def lastMax (f : α → β) : List α → Option α
  | [] => none
  | a :: l => some (l.foldl (fun x y => if f y < f x then x else y) a)

/-- The element with the smallest key; among equal keys the first one wins. -/
def firstMin (f : α → β) : List α → Option α
  | [] => none
  | a :: l => some (l.foldl (fun x y => if f y < f x then y else x) a)

theorem foldl_max_mem (f : α → β) (l : List α) (a : α) :
    l.foldl (fun x y => if f y < f x then x else y) a ∈ a :: l := by
  induction l generalizing a with
  | nil => simp
  | cons b l ih =>
    simp only [List.foldl_cons]
    split
    · have h := ih a
      simp only [List.mem_cons] at h ⊢
      tauto
    · exact List.mem_cons_of_mem _ (ih b)

theorem le_foldl_max (f : α → β) (l : List α) (a : α) :
    ∀ b ∈ a :: l, f b ≤ f (l.foldl (fun x y => if f y < f x then x else y) a) := by
  induction l generalizing a with
  | nil => simp
  | cons c l ih =>
    intro b hb
    simp only [List.foldl_cons]
    rcases List.mem_cons.mp hb with rfl | hb
    · split
      · exact ih b b List.mem_cons_self
      · rename_i h
        exact (not_lt.mp h).trans (ih c c List.mem_cons_self)
    · rcases List.mem_cons.mp hb with rfl | hb
      · split
        · rename_i h
          exact h.le.trans (ih a a List.mem_cons_self)
        · exact ih b b List.mem_cons_self
      · split
        · exact ih a b (List.mem_cons_of_mem _ hb)
        · exact ih c b (List.mem_cons_of_mem _ hb)

theorem lastMax_mem {f : α → β} {l : List α} {a : α} (h : lastMax f l = some a) : a ∈ l := by
  cases l with
  | nil => simp [lastMax] at h
  | cons b l =>
    simp only [lastMax, Option.some.injEq] at h
    exact h ▸ foldl_max_mem f l b

theorem le_lastMax {f : α → β} {l : List α} {a : α} (h : lastMax f l = some a) :
    ∀ b ∈ l, f b ≤ f a := by
  cases l with
  | nil => simp
  | cons b l =>
    simp only [lastMax, Option.some.injEq] at h
    exact h ▸ le_foldl_max f l b

theorem lastMax_isSome {f : α → β} {l : List α} (h : l ≠ []) : (lastMax f l).isSome = true := by
  cases l with
  | nil => exact absurd rfl h
  | cons b l => rfl

theorem lastMax_map {γ : Type*} (f : α → β) (g : γ → α) (l : List γ) :
    lastMax f (l.map g) = (lastMax (f ∘ g) l).map g := by
  cases l with
  | nil => rfl
  | cons a l =>
    simp only [List.map_cons, lastMax, Option.map_some, Option.some.injEq]
    induction l generalizing a with
    | nil => rfl
    | cons b l ih =>
      simp only [List.map_cons, List.foldl_cons, Function.comp_apply]
      split
      · exact ih a
      · exact ih b

theorem lastMax_append_singleton {f : α → β} {l : List α} {a : α} (h : ∀ b ∈ l, f b ≤ f a) :
    lastMax f (l ++ [a]) = some a := by
  cases l with
  | nil => rfl
  | cons b l =>
    have hmem := foldl_max_mem f l b
    rw [List.cons_append, lastMax, List.foldl_append, List.foldl_cons, List.foldl_nil,
      if_neg (not_lt.mpr (h _ hmem))]

theorem foldl_min_mem (f : α → β) (l : List α) (a : α) :
    l.foldl (fun x y => if f y < f x then y else x) a ∈ a :: l := by
  induction l generalizing a with
  | nil => simp
  | cons b l ih =>
    simp only [List.foldl_cons]
    split
    · exact List.mem_cons_of_mem _ (ih b)
    · have h := ih a
      simp only [List.mem_cons] at h ⊢
      tauto

theorem foldl_min_le (f : α → β) (l : List α) (a : α) :
    ∀ b ∈ a :: l, f (l.foldl (fun x y => if f y < f x then y else x) a) ≤ f b := by
  induction l generalizing a with
  | nil => simp
  | cons c l ih =>
    intro b hb
    simp only [List.foldl_cons]
    rcases List.mem_cons.mp hb with rfl | hb
    · split
      · rename_i h
        exact (ih c c List.mem_cons_self).trans h.le
      · exact ih b b List.mem_cons_self
    · rcases List.mem_cons.mp hb with rfl | hb
      · split
        · exact ih b b List.mem_cons_self
        · rename_i h
          exact (ih a a List.mem_cons_self).trans (not_lt.mp h)
      · split
        · exact ih c b (List.mem_cons_of_mem _ hb)
        · exact ih a b (List.mem_cons_of_mem _ hb)

theorem firstMin_mem {f : α → β} {l : List α} {a : α} (h : firstMin f l = some a) : a ∈ l := by
  cases l with
  | nil => simp [firstMin] at h
  | cons b l =>
    simp only [firstMin, Option.some.injEq] at h
    exact h ▸ foldl_min_mem f l b

theorem firstMin_le {f : α → β} {l : List α} {a : α} (h : firstMin f l = some a) :
    ∀ b ∈ l, f a ≤ f b := by
  cases l with
  | nil => simp
  | cons b l =>
    simp only [firstMin, Option.some.injEq] at h
    exact h ▸ foldl_min_le f l b

theorem firstMin_isSome {f : α → β} {l : List α} (h : l ≠ []) :
    (firstMin f l).isSome = true := by
  cases l with
  | nil => exact absurd rfl h
  | cons b l => rfl

theorem firstMin_eq_of_unique {f : α → β} {l : List α} {a : α} (ha : a ∈ l)
    (h : ∀ b ∈ l, b ≠ a → f a < f b) : firstMin f l = some a := by
  obtain ⟨c, hc⟩ := Option.isSome_iff_exists.mp (firstMin_isSome (f := f) (List.ne_nil_of_mem ha))
  by_cases he : c = a
  · rw [hc, he]
  · exact absurd (firstMin_le hc a ha) (not_le.mpr (h c (firstMin_mem hc) he))

theorem foldl_max_last {R : α → α → Prop} (f : α → β) (l : List α) (a : α)
    (h : (a :: l).Pairwise R) : ∀ b ∈ a :: l,
      b = l.foldl (fun x y => if f y < f x then x else y) a ∨
        f b < f (l.foldl (fun x y => if f y < f x then x else y) a) ∨
        f b = f (l.foldl (fun x y => if f y < f x then x else y) a) ∧
          R b (l.foldl (fun x y => if f y < f x then x else y) a) := by
  induction l generalizing a with
  | nil => simp
  | cons c l ih =>
    obtain ⟨ha, hrest⟩ := List.pairwise_cons.mp h
    obtain ⟨hc, hl⟩ := List.pairwise_cons.mp hrest
    rw [List.foldl_cons]
    split
    · rename_i hlt
      have hkept := ih a (List.pairwise_cons.mpr ⟨fun b hb => ha b (List.mem_cons_of_mem _ hb), hl⟩)
      intro b hb
      rcases List.mem_cons.mp hb with rfl | hb
      · exact hkept b List.mem_cons_self
      · rcases List.mem_cons.mp hb with rfl | hb
        · exact Or.inr (Or.inl (hlt.trans_le (le_foldl_max f l a a List.mem_cons_self)))
        · exact hkept b (List.mem_cons_of_mem _ hb)
    · rename_i hle
      have hkept := ih c hrest
      intro b hb
      rcases List.mem_cons.mp hb with rfl | hb
      · have hreach := (not_lt.mp hle).trans (le_foldl_max f l c c List.mem_cons_self)
        rcases lt_or_eq_of_le hreach with hlt | heq
        · exact Or.inr (Or.inl hlt)
        · exact Or.inr (Or.inr ⟨heq, ha _ (foldl_max_mem f l c)⟩)
      · exact hkept b hb

/-- The maximum of a list in a strict order is what beats or outlasts every other element. -/
theorem lastMax_eq_some_iff {R : α → α → Prop} (hR : ∀ a b, R a b → ¬ R b a) {f : α → β}
    {l : List α} (hl : l.Pairwise R) {a : α} :
    lastMax f l = some a ↔ a ∈ l ∧ ∀ b ∈ l, b ≠ a → f b < f a ∨ f b = f a ∧ R b a := by
  cases l with
  | nil => simp [lastMax]
  | cons c l =>
    rw [lastMax, Option.some.injEq]
    have hmem := foldl_max_mem f l c
    have hlast := foldl_max_last f l c hl
    generalize l.foldl (fun x y => if f y < f x then x else y) c = x at hmem hlast
    constructor
    · rintro rfl
      exact ⟨hmem, fun b hb hne => (hlast b hb).resolve_left hne⟩
    · rintro ⟨ha, hbest⟩
      by_contra hne
      rcases (hlast a ha).resolve_left (Ne.symm hne) with hlt | ⟨heq, hax⟩
      · rcases hbest x hmem hne with hlt' | ⟨heq', -⟩
        · exact absurd hlt hlt'.asymm
        · exact absurd heq' hlt.ne'
      · rcases hbest x hmem hne with hlt' | ⟨-, hxa⟩
        · exact absurd heq hlt'.ne'
        · exact hR a x hax hxa

theorem foldl_least_le_iff (l : List β) (a bound : β) :
    l.foldl (fun x y => if y < x then y else x) a ≤ bound ↔ a ≤ bound ∨ ∃ b ∈ l, b ≤ bound := by
  constructor
  · intro h
    rcases List.mem_cons.mp (foldl_min_mem id l a) with heq | hmem
    · exact Or.inl (heq ▸ h)
    · exact Or.inr ⟨_, hmem, h⟩
  · rintro (h | ⟨b, hb, h⟩)
    · exact (foldl_min_le id l a a List.mem_cons_self).trans h
    · exact (foldl_min_le id l a b (List.mem_cons_of_mem _ hb)).trans h

theorem le_foldl_largest_iff (l : List β) (a bound : β) :
    bound ≤ l.foldl (fun x y => if x < y then y else x) a ↔ bound ≤ a ∨ ∃ b ∈ l, bound ≤ b := by
  induction l generalizing a with
  | nil => simp
  | cons b l ih =>
    rw [List.foldl_cons, ih, List.exists_mem_cons_iff]
    split
    · rename_i h
      have hb : bound ≤ a → bound ≤ b := fun ha => ha.trans h.le
      tauto
    · rename_i h
      have ha : bound ≤ b → bound ≤ a := fun hb => hb.trans (not_lt.mp h)
      tauto

end Extremum
