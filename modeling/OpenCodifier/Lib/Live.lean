import Mathlib.Data.List.Infix
import Mathlib.Data.List.GetD
set_option autoImplicit false

namespace Live

def isAlive (alive : List Bool) (i : Nat) : Bool := alive.getD i false

def live (alive : List Bool) : List Nat := (List.range alive.length).filter (isAlive alive)

def nextAlive (alive : List Bool) (start : Nat) : Nat := start + (alive.drop start).findIdx id

def prevAlive (alive : List Bool) : Nat → Nat
  | 0 => 0
  | i + 1 => if isAlive alive i then i else prevAlive alive i

structure Next (alive : List Bool) (p q : Nat) : Prop where
  left : isAlive alive p = true
  right : isAlive alive q = true
  lt : p < q
  between : ∀ k, p < k → k < q → isAlive alive k = false

variable {alive : List Bool} {p q : Nat}

theorem lt_of_isAlive (h : isAlive alive p = true) : p < alive.length := by
  by_contra hp
  simp [isAlive, List.getElem?_eq_none (not_lt.mp hp)] at h

theorem mem_live : p ∈ live alive ↔ isAlive alive p = true := by
  rw [live, List.mem_filter, List.mem_range]
  exact and_iff_right_of_imp lt_of_isAlive

theorem live_pairwise (alive : List Bool) : (live alive).Pairwise (· < ·) :=
  List.pairwise_lt_range.filter _

section Neighbours

theorem pair_infix_iff {l : List Nat} (h : l.Pairwise (· < ·)) :
    [p, q] <:+: l ↔ p ∈ l ∧ q ∈ l ∧ p < q ∧ ∀ k ∈ l, p < k → q ≤ k := by
  constructor
  · rintro ⟨pre, post, rfl⟩
    rw [List.append_assoc, List.pairwise_append] at h
    obtain ⟨-, hpost, hpre⟩ := h
    simp only [List.cons_append, List.nil_append, List.pairwise_cons] at hpost
    refine ⟨by simp, by simp, hpost.1 q List.mem_cons_self, fun k hk hpk => ?_⟩
    rw [List.append_assoc, List.mem_append] at hk
    rcases hk with hk | hk
    · have := hpre k hk p (by simp)
      omega
    · simp only [List.cons_append, List.nil_append, List.mem_cons] at hk
      rcases hk with rfl | rfl | hk
      · omega
      · exact le_rfl
      · exact (hpost.2.1 k hk).le
  · rintro ⟨hp, hq, hlt, hnext⟩
    obtain ⟨pre, rest, rfl⟩ := List.append_of_mem hp
    obtain ⟨-, hrest, hpre⟩ := List.pairwise_append.mp h
    rw [List.pairwise_cons] at hrest
    have hqrest : q ∈ rest := by
      rcases List.mem_append.mp hq with hq | hq
      · have := hpre q hq p List.mem_cons_self
        omega
      · rcases List.mem_cons.mp hq with rfl | hq
        · omega
        · exact hq
    cases rest with
    | nil => cases hqrest
    | cons y rest =>
      have hle := hnext y (by simp) (hrest.1 y List.mem_cons_self)
      have hqy : q = y := by
        rcases List.mem_cons.mp hqrest with hqy | hqy
        · exact hqy
        · have := (List.pairwise_cons.mp hrest.2).1 q hqy
          omega
      subst hqy
      exact ⟨pre, rest, by simp⟩

theorem pair_infix_live : [p, q] <:+: live alive ↔ Next alive p q := by
  rw [pair_infix_iff (live_pairwise alive)]
  simp only [mem_live]
  constructor
  · rintro ⟨hp, hq, hlt, hbetween⟩
    refine ⟨hp, hq, hlt, fun k hpk hkq => ?_⟩
    by_contra halive
    exact absurd (hbetween k (by simpa using halive) hpk) (by omega)
  · rintro ⟨hp, hq, hlt, hbetween⟩
    refine ⟨hp, hq, hlt, fun k halive hpk => ?_⟩
    by_contra hkq
    rw [hbetween k hpk (by omega)] at halive
    cases halive

end Neighbours

section Scans

theorem nextAlive_spec (alive : List Bool) (start : Nat) (h : start ≤ alive.length) :
    start ≤ nextAlive alive start ∧ nextAlive alive start ≤ alive.length ∧
      (nextAlive alive start < alive.length → isAlive alive (nextAlive alive start) = true) ∧
      ∀ k, start ≤ k → k < nextAlive alive start → isAlive alive k = false := by
  have hle := @List.findIdx_le_length _ id (alive.drop start)
  rw [List.length_drop] at hle
  refine ⟨Nat.le_add_right _ _, by rw [nextAlive]; omega, fun hlt => ?_, fun k hk hlt => ?_⟩
  · rw [nextAlive] at hlt
    have hfound := @List.findIdx_getElem _ id (alive.drop start) (by rw [List.length_drop]; omega)
    rw [List.getElem_drop] at hfound
    rw [isAlive, nextAlive, List.getD_eq_getElem _ _ hlt]
    exact hfound
  · rw [nextAlive] at hlt
    have hnot := @List.not_of_lt_findIdx _ id (alive.drop start) (k - start) (by omega)
    rw [List.getElem_drop] at hnot
    have hindex : start + (k - start) = k := by omega
    simp only [hindex, id] at hnot
    rw [isAlive, List.getD_eq_getElem _ _ (by omega)]
    exact hnot

theorem nextAlive_eq {start : Nat} (hq : isAlive alive q = true) (hstart : start ≤ q)
    (hdead : ∀ k, start ≤ k → k < q → isAlive alive k = false) : nextAlive alive start = q := by
  have hlt := lt_of_isAlive hq
  obtain ⟨hge, -, hfound, hnot⟩ := nextAlive_spec alive start (by omega)
  rcases Nat.lt_trichotomy (nextAlive alive start) q with hless | heq | hmore
  · have hcontra := hdead _ hge hless
    rw [hfound (by omega)] at hcontra
    cases hcontra
  · exact heq
  · have hcontra := hnot q hstart hmore
    rw [hq] at hcontra
    cases hcontra

theorem nextAlive_of_next (h : Next alive p q) : nextAlive alive (p + 1) = q :=
  nextAlive_eq h.right h.lt h.between

theorem next_nextAlive (hp : isAlive alive p = true)
    (h : nextAlive alive (p + 1) < alive.length) : Next alive p (nextAlive alive (p + 1)) := by
  have hlt := lt_of_isAlive hp
  obtain ⟨hge, -, hfound, hnot⟩ := nextAlive_spec alive (p + 1) (by omega)
  exact ⟨hp, hfound h, by omega, fun k hk hkn => hnot k (by omega) hkn⟩

theorem prevAlive_of_next (h : Next alive p q) : prevAlive alive q = p := by
  have hscan : ∀ n, p < n → n ≤ q → prevAlive alive n = p := by
    intro n
    induction n with
    | zero => intro hn; omega
    | succ n ih =>
      intro hn hq
      rw [prevAlive]
      by_cases hnp : n = p
      · rw [hnp, if_pos h.left]
      · rw [if_neg (by rw [h.between n (by omega) (by omega)]; simp)]
        exact ih (by omega) (by omega)
  exact hscan q h.lt le_rfl

end Scans

section Dying

theorem isAlive_set (alive : List Bool) (q k : Nat) :
    isAlive (alive.set q false) k = (isAlive alive k && decide (k ≠ q)) := by
  by_cases hk : k = q
  · subst hk
    by_cases hlt : k < alive.length <;> simp [isAlive, hlt]
  · simp [isAlive, Ne.symm hk, hk]

theorem live_set (alive : List Bool) (q : Nat) :
    live (alive.set q false) = (live alive).filter (· ≠ q) := by
  rw [live, live, List.length_set, List.filter_filter]
  refine List.filter_congr fun k _ => ?_
  rw [isAlive_set, Bool.and_comm]

theorem live_set_next {pre post : List Nat} (h : live alive = pre ++ p :: q :: post) :
    live (alive.set q false) = pre ++ p :: post := by
  have hsorted := live_pairwise alive
  rw [h, List.pairwise_append] at hsorted
  obtain ⟨-, hpost, hpre⟩ := hsorted
  rw [List.pairwise_cons, List.pairwise_cons] at hpost
  have hpq := hpost.1 q List.mem_cons_self
  rw [live_set, h, List.filter_append, List.filter_cons_of_pos (by simp; omega),
    List.filter_cons_of_neg (by simp), List.filter_eq_self.mpr, List.filter_eq_self.mpr]
  · intro k hk
    have := hpost.2.1 k hk
    simp
    omega
  · intro k hk
    have := hpre k hk q (by simp)
    simp
    omega

end Dying

end Live
