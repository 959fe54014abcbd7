import Mathlib.Data.List.DropRight
import Mathlib.Data.List.Flatten
set_option autoImplicit false

universe u

namespace Words

variable {α : Type u} {sep : α → Bool} {a b : List α} {c : α}

def words (sep : α → Bool) (l : List α) : List (List α) :=
  (l.splitOnP sep).filter fun word => !word.isEmpty

theorem words_nil : words sep [] = [] := by
  rw [words, List.splitOnP_nil]
  rfl

theorem words_append_cons (a b : List α) (h : sep c = true) :
    words sep (a ++ c :: b) = words sep a ++ words sep b := by
  rw [words, List.splitOnP_append_cons a b h, List.filter_append, words, words]

theorem words_cons_sep (b : List α) (h : sep c = true) : words sep (c :: b) = words sep b := by
  have hcut := words_append_cons [] b h
  rwa [words_nil, List.nil_append, List.nil_append] at hcut

theorem words_append_singleton (a : List α) (h : sep c = true) :
    words sep (a ++ [c]) = words sep a := by
  rw [words_append_cons a [] h, words_nil, List.append_nil]

theorem words_of_none (hne : a ≠ []) (h : ∀ c ∈ a, sep c = false) : words sep a = [a] := by
  rw [words, List.splitOnP_eq_singleton h]
  simp [hne]

theorem words_append_seps {s : List α} (hne : s ≠ []) (h : ∀ c ∈ s, sep c = true)
    (a b : List α) : words sep (a ++ s ++ b) = words sep a ++ words sep b := by
  induction s generalizing a with
  | nil => exact absurd rfl hne
  | cons c s ih =>
    rw [List.append_assoc, List.cons_append, words_append_cons a _ (h c List.mem_cons_self)]
    congr 1
    cases s with
    | nil => rfl
    | cons d s =>
      have hrest := ih (List.cons_ne_nil d s) (fun e he => h e (List.mem_cons_of_mem c he)) []
      rwa [words_nil, List.nil_append, List.nil_append] at hrest

theorem words_intercalate {s : List α} (hne : s ≠ []) (h : ∀ c ∈ s, sep c = true)
    (parts : List (List α)) : words sep (s.intercalate parts) = parts.flatMap (words sep) := by
  induction parts with
  | nil => simp [words_nil]
  | cons part parts ih =>
    cases parts with
    | nil => simp
    | cons next parts =>
      rw [List.intercalate_cons_of_ne_nil (List.cons_ne_nil _ _), words_append_seps hne h, ih]
      rfl

theorem map_intercalate {β : Type u} (f : α → β) (s : List α) (parts : List (List α)) :
    (s.intercalate parts).map f = (s.map f).intercalate (parts.map (List.map f)) := by
  induction parts with
  | nil => simp
  | cons part parts ih =>
    cases parts with
    | nil => simp
    | cons next parts =>
      rw [List.intercalate_cons_of_ne_nil (List.cons_ne_nil _ _), List.map_append, List.map_append,
        ih]
      exact (List.intercalate_cons_of_ne_nil (List.cons_ne_nil _ _)).symm

theorem words_rdropWhile (l : List α) : words sep (l.rdropWhile sep) = words sep l := by
  induction l using List.reverseRecOn with
  | nil => rfl
  | append_singleton l c ih =>
    cases hc : sep c with
    | true => rw [List.rdropWhile_concat_pos _ _ _ hc, ih, words_append_singleton l hc]
    | false => rw [List.rdropWhile_concat_neg _ _ _ (by simp [hc])]

end Words
