import Mathlib.Data.List.Nodup
import Mathlib.Logic.Relation
set_option autoImplicit false

universe u

namespace Neighbours

variable {α : Type u}

/-- Every element with the one behind it, `windows(2)`. -/
def windows (l : List α) : List (α × α) := l.zip l.tail

theorem windows_cons_cons (a b : α) (l : List α) :
    windows (a :: b :: l) = (a, b) :: windows (b :: l) := rfl

theorem mem_of_window {x y : α} {l : List α} (h : (x, y) ∈ windows l) : x ∈ l ∧ y ∈ l.tail :=
  List.of_mem_zip h

theorem all_windows {R : α → α → Prop} {l : List α} (h : l.Pairwise R) :
    ∀ pair ∈ windows l, R pair.1 pair.2 := by
  induction h with
  | nil => exact fun _ hpair => absurd hpair List.not_mem_nil
  | @cons a l ha hl ih =>
    cases l with
    | nil => exact fun _ hpair => absurd hpair List.not_mem_nil
    | cons b l =>
      rw [windows_cons_cons, List.forall_mem_cons]
      exact ⟨ha b List.mem_cons_self, ih⟩

theorem exists_window {y : α} (a : α) {l : List α} (h : y ∈ l) :
    ∃ x, (x, y) ∈ windows (a :: l) := by
  induction l generalizing a with
  | nil => cases h
  | cons b l ih =>
    rw [windows_cons_cons]
    rcases List.mem_cons.mp h with rfl | h
    · exact ⟨a, List.mem_cons_self⟩
    · obtain ⟨x, hx⟩ := ih b h
      exact ⟨x, List.mem_cons_of_mem _ hx⟩

theorem first_notMem {a x : α} {l : List α} (h : (a :: l).Nodup) : (x, a) ∉ windows (a :: l) :=
  fun hm => (List.nodup_cons.mp h).1 (mem_of_window hm).2

theorem before_second {a b x : α} {l : List α} (h : (a :: b :: l).Nodup)
    (hx : (x, b) ∈ windows (a :: b :: l)) : x = a := by
  rw [windows_cons_cons, List.mem_cons, Prod.mk.injEq] at hx
  rcases hx with ⟨hx, -⟩ | hx
  · exact hx
  · exact absurd hx (first_notMem (List.nodup_cons.mp h).2)

theorem last_notMem {a x : α} {l : List α} (h : (l ++ [a]).Nodup) :
    (a, x) ∉ windows (l ++ [a]) := by
  induction l with
  | nil => exact List.not_mem_nil
  | cons b l ih =>
    rw [List.cons_append] at h
    intro hm
    obtain ⟨c, rest, hrest⟩ := List.exists_cons_of_ne_nil (List.append_ne_nil_of_right_ne_nil l
      (List.cons_ne_nil a []))
    rw [List.cons_append, hrest, windows_cons_cons, List.mem_cons, Prod.mk.injEq, ← hrest] at hm
    rcases hm with ⟨rfl, -⟩ | hm
    · exact (List.nodup_cons.mp h).1 (List.mem_append_right l (List.mem_singleton_self _))
    · exact ih (List.nodup_cons.mp h).2 hm

theorem starts_iff {a b x : α} {l : List α} (h : (a :: b :: l).Nodup) :
    ((∃ y, (x, y) ∈ windows (a :: b :: l)) ∧ ¬ ∃ y, (y, x) ∈ windows (a :: b :: l)) ↔ x = a := by
  constructor
  · rintro ⟨⟨y, hy⟩, hno⟩
    rcases List.mem_cons.mp (mem_of_window hy).1 with rfl | hx
    · rfl
    · exact absurd (exists_window a hx) hno
  · rintro rfl
    exact ⟨⟨b, List.mem_cons_self⟩, fun ⟨y, hy⟩ => first_notMem h hy⟩

theorem leads_back {y : α} (a : α) {l : List α} (h : y ∈ l) :
    Relation.TransGen (fun later earlier => (earlier, later) ∈ windows (a :: l)) y a := by
  induction l generalizing a with
  | nil => cases h
  | cons b l ih =>
    rw [windows_cons_cons]
    rcases List.mem_cons.mp h with rfl | h
    · exact .single List.mem_cons_self
    · have hrest : Relation.TransGen
          (fun later earlier => (earlier, later) ∈ (a, b) :: windows (b :: l)) y b :=
        Relation.TransGen.mono (fun _ _ hm => List.mem_cons_of_mem _ hm) y b (ih b h)
      exact hrest.tail List.mem_cons_self

theorem windows_append_two (l : List α) (a b : α) :
    windows (l ++ [a, b]) = windows (l ++ [a]) ++ [(a, b)] := by
  induction l with
  | nil => rfl
  | cons c l ih =>
    cases l with
    | nil => rfl
    | cons d l => exact congrArg ((c, d) :: ·) ih

section Counts

variable [BEq α] {x : α}

theorem count_windows (x : α) (l : List α) :
    ((windows l).flatMap fun pair => [pair.2, pair.1]).count x =
      l.tail.count x + l.dropLast.count x := by
  induction l with
  | nil => rfl
  | cons a l ih =>
    cases l with
    | nil => rfl
    | cons b l =>
      rw [windows_cons_cons, List.flatMap_cons, List.count_append, ih, List.tail_cons, List.tail_cons,
        List.dropLast_cons_cons]
      simp only [List.count_cons, List.count_nil]
      omega

variable [LawfulBEq α]

theorem count_neighbours {front back : List α} (h : (front ++ x :: back).Nodup) :
    ((windows (front ++ x :: back)).flatMap fun pair => [pair.2, pair.1]).count x =
      min 1 front.length + min 1 back.length := by
  have hmem := (List.nodup_middle.mp h).notMem
  rw [List.mem_append, not_or] at hmem
  have hfront : front.count x = 0 := List.count_eq_zero_of_not_mem hmem.1
  have hback : back.count x = 0 := List.count_eq_zero_of_not_mem hmem.2
  have htail : (front ++ x :: back).tail.count x = min 1 front.length := by
    cases front with
    | nil => simpa using hback
    | cons a front =>
      rw [List.count_cons] at hfront
      rw [List.cons_append, List.tail_cons, List.count_append, List.count_cons_self, List.length_cons]
      omega
  have hinit : (front ++ x :: back).dropLast.count x = min 1 back.length := by
    rw [List.dropLast_append_cons, List.count_append, hfront]
    cases back with
    | nil => rfl
    | cons b back =>
      have hlast := (List.dropLast_sublist (b :: back)).count_le x
      rw [List.dropLast_cons_cons, List.count_cons_self, List.length_cons]
      omega
  rw [count_windows, htail, hinit]

theorem count_windows_eq_zero {l : List α} (h : x ∉ l) :
    ((windows l).flatMap fun pair => [pair.2, pair.1]).count x = 0 := by
  rw [count_windows, List.count_eq_zero_of_not_mem fun hm => h (List.mem_of_mem_tail hm),
    List.count_eq_zero_of_not_mem fun hm => h ((List.dropLast_sublist l).subset hm)]

end Counts

section Spans

/-- Every run of so many neighbours, `windows(n)`. -/
def spans (size : Nat) (l : List α) : List (List α) :=
  (List.range (l.length + 1 - size)).map fun i => (l.drop i).take size

theorem mem_spans {size : Nat} {l w : List α} : w ∈ spans size l ↔ w <:+: l ∧ w.length = size := by
  rw [spans, List.mem_map]
  constructor
  · rintro ⟨i, hi, rfl⟩
    rw [List.mem_range] at hi
    refine ⟨(List.take_prefix _ _).isInfix.trans (List.drop_suffix _ _).isInfix, ?_⟩
    rw [List.length_take, List.length_drop]
    omega
  · rintro ⟨⟨s, t, rfl⟩, rfl⟩
    refine ⟨s.length, List.mem_range.mpr ?_, ?_⟩
    · simp only [List.length_append]
      omega
    · rw [List.append_assoc, List.drop_left, List.take_left]

theorem spans_map {β : Type u} (f : α → β) (size : Nat) (l : List α) :
    spans size (l.map f) = (spans size l).map (List.map f) := by
  simp [spans, Function.comp_def, List.map_take, List.map_drop]

end Spans

end Neighbours
