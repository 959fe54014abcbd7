import Mathlib.Data.List.Basic
import OpenCodifier.Lib.Neighbours
set_option autoImplicit false

universe u

namespace Anchors

variable {α : Type u}

/-- The index of the first element of each part, behind so many elements. -/
def starts : Nat → List (List α) → List Nat
  | _, [] => []
  | n, part :: parts => n :: starts (n + part.length) parts

def ends : Nat → List (List α) → List Nat
  | _, [] => []
  | n, part :: parts => (n + part.length - 1) :: ends (n + part.length) parts

theorem length_starts (n : Nat) (parts : List (List α)) :
    (starts n parts).length = parts.length := by
  induction parts generalizing n with
  | nil => rfl
  | cons part parts ih => simp [starts, ih]

theorem length_ends (n : Nat) (parts : List (List α)) : (ends n parts).length = parts.length := by
  induction parts generalizing n with
  | nil => rfl
  | cons part parts ih => simp [ends, ih]

theorem getElem?_starts (n : Nat) {parts : List (List α)} {i : Nat} (hi : i < parts.length) :
    (starts n parts)[i]? = some (n + (parts.take i).flatten.length) := by
  induction parts generalizing n i with
  | nil => cases hi
  | cons part parts ih =>
    cases i with
    | zero => simp [starts]
    | succ i =>
      rw [starts, List.getElem?_cons_succ, ih _ (Nat.lt_of_succ_lt_succ hi)]
      simp [Nat.add_assoc]

theorem getElem?_ends (n : Nat) {parts : List (List α)} {i : Nat} (hi : i < parts.length) :
    (ends n parts)[i]? = some (n + (parts.take (i + 1)).flatten.length - 1) := by
  induction parts generalizing n i with
  | nil => cases hi
  | cons part parts ih =>
    cases i with
    | zero => simp [ends]
    | succ i =>
      rw [ends, List.getElem?_cons_succ, ih _ (Nat.lt_of_succ_lt_succ hi)]
      simp [Nat.add_assoc]

section Nonempty

variable {parts : List (List α)} {p : Nat}

theorem mem_starts (n : Nat) (h : ∀ part ∈ parts, part ≠ []) (hp : p ∈ starts n parts) :
    n ≤ p ∧ p < n + parts.flatten.length := by
  induction parts generalizing n with
  | nil => cases hp
  | cons part parts ih =>
    rw [List.forall_mem_cons] at h
    have hpos := List.length_pos_of_ne_nil h.1
    rw [List.flatten_cons, List.length_append]
    rcases List.mem_cons.mp hp with rfl | hp
    · omega
    · have hrest := ih _ h.2 hp
      omega

theorem mem_ends (n : Nat) (h : ∀ part ∈ parts, part ≠ []) (hp : p ∈ ends n parts) :
    n ≤ p ∧ p < n + parts.flatten.length := by
  induction parts generalizing n with
  | nil => cases hp
  | cons part parts ih =>
    rw [List.forall_mem_cons] at h
    have hpos := List.length_pos_of_ne_nil h.1
    rw [List.flatten_cons, List.length_append]
    rcases List.mem_cons.mp hp with rfl | hp
    · omega
    · have hrest := ih _ h.2 hp
      omega

theorem starts_increasing (n : Nat) (h : ∀ part ∈ parts, part ≠ []) :
    (starts n parts).Pairwise (· < ·) := by
  induction parts generalizing n with
  | nil => exact .nil
  | cons part parts ih =>
    rw [List.forall_mem_cons] at h
    have hpos := List.length_pos_of_ne_nil h.1
    refine .cons (fun p hp => ?_) (ih _ h.2)
    have hrest := mem_starts _ h.2 hp
    omega

theorem ends_increasing (n : Nat) (h : ∀ part ∈ parts, part ≠ []) :
    (ends n parts).Pairwise (· < ·) := by
  induction parts generalizing n with
  | nil => exact .nil
  | cons part parts ih =>
    rw [List.forall_mem_cons] at h
    have hpos := List.length_pos_of_ne_nil h.1
    refine .cons (fun p hp => ?_) (ih _ h.2)
    have hrest := mem_ends _ h.2 hp
    omega

theorem getElem?_at_start {front back : List α} {i : Nat} {part : List α} (hi : parts[i]? = some part)
    (hne : part ≠ []) :
    (front ++ (parts.flatten ++ back))[front.length + (parts.take i).flatten.length]? =
      part.head? := by
  obtain ⟨hlt, rfl⟩ := List.getElem?_eq_some_iff.mp hi
  have hsplit : parts.flatten = (parts.take i).flatten ++ (parts[i] ++ (parts.drop (i + 1)).flatten) := by
    conv_lhs => rw [← List.take_append_drop i parts, List.drop_eq_getElem_cons hlt]
    rw [List.flatten_append, List.flatten_cons]
  rw [List.getElem?_append_right (Nat.le_add_right _ _), Nat.add_sub_cancel_left, hsplit,
    List.append_assoc, List.getElem?_append_right (Nat.le_refl _), Nat.sub_self, List.append_assoc,
    ← List.head?_eq_getElem?, List.head?_append_of_ne_nil _ hne]

end Nonempty

end Anchors
