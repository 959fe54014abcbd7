import Mathlib.Algebra.GroupWithZero.Nat
import Mathlib.Data.List.Sort
import Mathlib.Data.List.Nodup
import Mathlib.Data.List.Count
import Mathlib.Order.Lattice.Nat
import Mathlib.Tactic.Push
import OpenCodifier.Lib.OrdMap
set_option autoImplicit false

universe u

namespace Kahn

section Height

variable {κ : Type u} (ids : List κ) (deps : κ → List κ)

/-- `n` has height less than `k`: its dependencies have height less than `k - 1`. -/
def Below : Nat → κ → Bool
  | 0, _ => false
  | k + 1, n => (deps n).all (Below k)

def level (k : Nat) : List κ := ids.filter fun n => Below deps (k + 1) n && !Below deps k n

theorem below_succ (k : Nat) (n : κ) :
    Below deps (k + 1) n = true ↔ ∀ d ∈ deps n, Below deps k d = true := by
  simp [Below]

theorem below_mono {k : Nat} {n : κ} (h : Below deps k n = true) :
    Below deps (k + 1) n = true := by
  induction k generalizing n with
  | zero => simp [Below] at h
  | succ k ih =>
    rw [below_succ] at h ⊢
    exact fun d hd => ih (h d hd)

theorem below_le {k j : Nat} (hkj : k ≤ j) {n : κ} (h : Below deps k n = true) :
    Below deps j n = true := by
  induction hkj with
  | refl => exact h
  | step _ ih => exact below_mono deps ih

theorem mem_level {k : Nat} {n : κ} :
    n ∈ level ids deps k ↔ n ∈ ids ∧ Below deps (k + 1) n = true ∧ Below deps k n = false := by
  simp [level]

theorem level_zero : level ids deps 0 = ids.filter fun n => deps n = [] := by
  refine List.filter_congr fun n _ => ?_
  cases h : deps n <;> simp [Below, h]

theorem level_disjoint {i j : Nat} {n : κ} (hi : n ∈ level ids deps i)
    (hj : n ∈ level ids deps j) : i = j := by
  obtain ⟨_, hi₁, hi₀⟩ := (mem_level ids deps).mp hi
  obtain ⟨_, hj₁, hj₀⟩ := (mem_level ids deps).mp hj
  rcases lt_trichotomy i j with h | h | h
  · rw [below_le deps h hi₁] at hj₀
    cases hj₀
  · exact h
  · rw [below_le deps h hj₁] at hi₀
    cases hi₀

theorem below_of_level_nil {k : Nat} (hk : level ids deps k = [])
    (hdeps : ∀ n ∈ ids, ∀ d ∈ deps n, d ∈ ids) {j : Nat} {n : κ} (hn : n ∈ ids)
    (h : Below deps j n = true) : Below deps k n = true := by
  induction j generalizing n with
  | zero => simp [Below] at h
  | succ j ih =>
    have hd : Below deps (k + 1) n = true :=
      (below_succ deps k n).mpr fun d hd =>
        ih (hdeps n hn d hd) ((below_succ deps j n).mp h d hd)
    by_contra hne
    have hm : n ∈ level ids deps k :=
      (mem_level ids deps).mpr ⟨hn, hd, by simpa using hne⟩
    rw [hk] at hm
    exact absurd hm List.not_mem_nil

/-- What can be ranked has a height, and it is at most the rank. -/
theorem below_of_rank (hdeps : ∀ n ∈ ids, ∀ d ∈ deps n, d ∈ ids) (rank : κ → Nat)
    (hrank : ∀ n ∈ ids, ∀ d ∈ deps n, rank d < rank n) {j : Nat} {n : κ} (hn : n ∈ ids)
    (h : rank n < j) : Below deps j n = true := by
  induction j generalizing n with
  | zero => exact absurd h (Nat.not_lt_zero _)
  | succ j ih =>
    refine (below_succ deps j n).mpr fun d hd => ih (hdeps n hn d hd) ?_
    have := hrank n hn d hd
    omega

theorem countP_open (k : Nat) (l : List κ) :
    l.countP (fun d => !Below deps k d) =
      l.countP (fun d => !Below deps (k + 1) d) +
        l.countP (fun d => Below deps (k + 1) d && !Below deps k d) := by
  induction l with
  | nil => simp
  | cons d l ih =>
    rw [List.countP_cons, List.countP_cons, List.countP_cons, ih]
    cases h₀ : Below deps k d with
    | true => simp [below_mono deps h₀]
    | false =>
      cases h₁ : Below deps (k + 1) d with
      | true => simp; omega
      | false => simp; omega

theorem countP_below_succ (k : Nat) (l : List κ) :
    l.countP (Below deps (k + 1)) =
      l.countP (Below deps k) +
        l.countP (fun d => Below deps (k + 1) d && !Below deps k d) := by
  induction l with
  | nil => simp
  | cons d l ih =>
    rw [List.countP_cons, List.countP_cons, List.countP_cons, ih]
    cases h₀ : Below deps k d with
    | true =>
      simp [below_mono deps h₀]
      omega
    | false =>
      cases h₁ : Below deps (k + 1) d with
      | true => simp; omega
      | false => simp

theorem level_nodup (hids : ids.Nodup) (k : Nat) : (level ids deps k).Nodup := hids.filter _

noncomputable def height (n : κ) : Nat := sInf {j | Below deps (j + 1) n = true}

variable {deps} in
theorem height_eq {n : κ} {k : Nat} (h : Below deps (k + 1) n = true)
    (h' : Below deps k n = false) : height deps n = k := by
  refine le_antisymm (Nat.sInf_le h) (le_csInf ⟨k, h⟩ fun j hj => ?_)
  by_contra hlt
  rw [below_le deps (by omega) hj] at h'
  cases h'

variable {deps} in
theorem below_height {n : κ} {k : Nat} (h : Below deps k n = true) :
    Below deps (height deps n + 1) n = true ∧ Below deps (height deps n) n = false := by
  have hne : {j | Below deps (j + 1) n = true}.Nonempty := by
    cases k with
    | zero => simp [Below] at h
    | succ k => exact ⟨k, h⟩
  refine ⟨Nat.sInf_mem hne, ?_⟩
  cases hh : height deps n with
  | zero => rfl
  | succ j =>
    by_contra hb
    have : height deps n ≤ j := Nat.sInf_le (by simpa using hb)
    omega

variable {deps} in
theorem height_lt {n d : κ} {k : Nat} (h : Below deps k n = true) (hd : d ∈ deps n) :
    height deps d < height deps n := by
  have hb := (below_succ deps _ n).mp (below_height h).1 d hd
  by_contra hlt
  have hf := (below_height hb).2
  rw [below_le deps (by omega) hb] at hf
  cases hf

/-- A node of finite height sits one above the highest of its dependencies. -/
theorem mem_level_iff_height {k j : Nat} {n : κ} (hn : n ∈ ids) (h : Below deps k n = true) :
    n ∈ level ids deps j ↔ height deps n = j := by
  rw [mem_level]
  constructor
  · rintro ⟨_, h₁, h₀⟩
    exact height_eq h₁ h₀
  · rintro rfl
    exact ⟨hn, below_height h⟩

theorem levels_le_length {k : Nat} (h : ∀ j < k, level ids deps j ≠ []) : k ≤ ids.length := by
  have hk : k ≤ ids.countP (Below deps k) := by
    induction k with
    | zero => simp
    | succ k ih =>
      have hpos : 0 < (level ids deps k).length :=
        List.length_pos_iff.mpr (h k (Nat.lt_succ_self k))
      rw [level, ← List.countP_eq_length_filter] at hpos
      rw [countP_below_succ]
      have := ih fun j hj => h j (Nat.lt_succ_of_lt hj)
      omega
  exact hk.trans List.countP_le_length

theorem sum_level_length (k : Nat) :
    ((List.range k).map fun j => (level ids deps j).length).sum = ids.countP (Below deps k) := by
  induction k with
  | zero => simp [Below]
  | succ k ih =>
    rw [List.range_succ, List.map_append, List.sum_append, ih, countP_below_succ]
    simp [level, List.countP_eq_length_filter]

end Height

variable {κ : Type u} [LinearOrder κ]

/-- Decrement the open dependencies of one node; it is ready at zero. -/
def place (acc : OrdMap κ Nat × List κ) (n : κ) : OrdMap κ Nat × List κ :=
  match acc.1.get? n with
  | none => acc
  | some count =>
    (acc.1.insert n (count - 1), if count - 1 = 0 then acc.2 ++ [n] else acc.2)

variable (ids : List κ) (deps : κ → List κ)

def dependents (d : κ) : List κ := ids.flatMap fun n => List.replicate ((deps n).count d) n

/-- Place a whole layer and collect what becomes ready, in discovery order. -/
def placeLayer (remaining : OrdMap κ Nat) (current : List κ) : OrdMap κ Nat × List κ :=
  (current.flatMap (dependents ids deps)).foldl place (remaining, [])

/-- Layer after layer until nothing is ready; the fuel counts layers. -/
def layersFrom : Nat → OrdMap κ Nat → List κ → List (List κ) × OrdMap κ Nat
  | 0, remaining, _ => ([], remaining)
  | fuel + 1, remaining, current =>
    if current = [] then ([], remaining)
    else
      let placed := placeLayer ids deps remaining current
      let rest := layersFrom fuel placed.1 (placed.2.insertionSort (· ≤ ·))
      (current :: rest.1, rest.2)

def openCounts : OrdMap κ Nat := OrdMap.ofList (ids.map fun n => (n, (deps n).length))

def layers : List (List κ) × OrdMap κ Nat :=
  layersFrom ids deps (ids.length + 1) (openCounts ids deps) (ids.filter fun n => deps n = [])

/-- Placing a list of nodes lowers each count by the node's occurrences, and the
nodes that become ready are those whose count is used up. -/
theorem foldl_place (es : List κ) (r : OrdMap κ Nat) (acc : List κ)
    (h : ∀ n, es.count n ≤ (r.get? n).getD 0) :
    (∀ n, (es.foldl place (r, acc)).1.get? n = (r.get? n).map (· - es.count n)) ∧
    ∃ ready, (es.foldl place (r, acc)).2 = acc ++ ready ∧ ready.Nodup ∧
      ∀ n, n ∈ ready ↔ n ∈ es ∧ r.get? n = some (es.count n) := by
  induction es generalizing r acc with
  | nil =>
    refine ⟨fun n => ?_, [], by simp⟩
    cases hn : r.get? n <;> simp [hn]
  | cons e es ih =>
    have he := h e
    rw [List.count_cons_self] at he
    obtain ⟨c, hc⟩ : ∃ c, r.get? e = some c := by
      cases hr : r.get? e with
      | none => simp [hr] at he
      | some c => exact ⟨c, rfl⟩
    rw [hc, Option.getD_some] at he
    have hplace : place (r, acc) e =
        (r.insert e (c - 1), if c - 1 = 0 then acc ++ [e] else acc) := by
      simp [place, hc]
    have hcount : ∀ n, es.count n ≤ ((r.insert e (c - 1)).get? n).getD 0 := by
      intro n
      by_cases hn : n = e
      · subst hn
        rw [OrdMap.get?_insert_self, Option.getD_some]
        omega
      · rw [OrdMap.get?_insert_of_ne _ _ hn]
        have := h n
        rwa [List.count_cons_of_ne (Ne.symm hn)] at this
    obtain ⟨h₁, ready, h₂, h₃, h₄⟩ :=
      ih (r.insert e (c - 1)) (if c - 1 = 0 then acc ++ [e] else acc) hcount
    rw [List.foldl_cons, hplace]
    refine ⟨fun n => ?_, ?_⟩
    · rw [h₁]
      by_cases hn : n = e
      · subst hn
        rw [OrdMap.get?_insert_self, hc, List.count_cons_self]
        simp only [Option.map_some, Option.some.injEq]
        omega
      · rw [OrdMap.get?_insert_of_ne _ _ hn, List.count_cons_of_ne (Ne.symm hn)]
    · by_cases hz : c - 1 = 0
      · have hes : es.count e = 0 := by omega
        have hemem : e ∉ es := List.count_eq_zero.mp hes
        refine ⟨e :: ready, by rw [h₂, if_pos hz]; simp, ?_, fun n => ?_⟩
        · refine List.nodup_cons.mpr ⟨fun hm => ?_, h₃⟩
          exact hemem ((h₄ e).mp hm).1
        · by_cases hn : n = e
          · subst hn
            simp only [List.mem_cons, true_or, true_and, List.count_cons_self, hes, hc]
            simp only [Option.some.injEq, true_iff]
            omega
          · rw [List.count_cons_of_ne (Ne.symm hn)]
            simp [hn, h₄, OrdMap.get?_insert_of_ne _ _ hn]
      · refine ⟨ready, by rw [h₂, if_neg hz], h₃, fun n => ?_⟩
        by_cases hn : n = e
        · subst hn
          rw [h₄, OrdMap.get?_insert_self, hc, List.count_cons_self]
          simp only [List.mem_cons, true_or, true_and, Option.some.injEq]
          constructor
          · rintro ⟨_, hcc⟩
            omega
          · intro hcc
            refine ⟨?_, by omega⟩
            exact List.count_pos_iff.mp (by omega)
        · rw [List.count_cons_of_ne (Ne.symm hn)]
          simp [hn, h₄, OrdMap.get?_insert_of_ne _ _ hn]

section Counting

theorem countP_mem_cons {y : κ} {L : List κ} (l : List κ) (hy : y ∉ L) :
    l.countP (· ∈ y :: L) = l.count y + l.countP (· ∈ L) := by
  induction l with
  | nil => simp
  | cons x l ih =>
    rw [List.countP_cons, List.countP_cons, List.count_cons, ih]
    by_cases hx : x = y
    · subst hx
      simp [hy]
      omega
    · simp [hx]
      omega

theorem sum_count_eq_countP (L l : List κ) (hL : L.Nodup) :
    (L.map fun d => l.count d).sum = l.countP (· ∈ L) := by
  induction L with
  | nil => simp
  | cons y L ih =>
    rw [List.nodup_cons] at hL
    rw [List.map_cons, List.sum_cons, ih hL.2, countP_mem_cons l hL.1]

variable (ids : List κ) (deps : κ → List κ)

theorem count_dependents (hids : ids.Nodup) (d n : κ) :
    (dependents ids deps d).count n = if n ∈ ids then (deps n).count d else 0 := by
  unfold dependents
  induction ids with
  | nil => simp
  | cons m ids ih =>
    rw [List.nodup_cons] at hids
    rw [List.flatMap_cons, List.count_append, ih hids.2]
    by_cases hn : n = m
    · subst hn
      simp [hids.1]
    · simp [hn, List.count_replicate, Ne.symm hn]

theorem count_layer_dependents (hids : ids.Nodup) (L : List κ) (hL : L.Nodup) (n : κ) :
    (L.flatMap (dependents ids deps)).count n =
      if n ∈ ids then (deps n).countP (· ∈ L) else 0 := by
  rw [List.count_flatMap]
  by_cases hn : n ∈ ids
  · rw [if_pos hn, ← sum_count_eq_countP L (deps n) hL]
    congr 1
    refine List.map_congr_left fun d _ => ?_
    simp [count_dependents ids deps hids, hn]
  · rw [if_neg hn]
    induction L with
    | nil => simp
    | cons d L ih =>
      rw [List.nodup_cons] at hL
      simp [count_dependents ids deps hids, hn] at ih ⊢
      exact ih hL.2

end Counting

section Correctness

variable {ids : List κ} {deps : κ → List κ}

/-- The open counts after every node of height less than `k` was placed. -/
def Remaining (ids : List κ) (deps : κ → List κ) (k : Nat) (r : OrdMap κ Nat) : Prop :=
  ∀ n, r.get? n = if n ∈ ids then some ((deps n).countP fun d => !Below deps k d) else none

theorem openCounts_remaining (hids : ids.Nodup) : Remaining ids deps 0 (openCounts ids deps) := by
  intro n
  unfold openCounts
  rw [OrdMap.get?_ofList (by simpa [Function.comp_def] using hids)]
  induction ids with
  | nil => simp
  | cons m ids ih =>
    rw [List.nodup_cons] at hids
    by_cases hn : m = n
    · subst hn
      simp [Below]
    · rw [List.map_cons, List.find?_cons_of_neg (by simpa using hn), ih hids.2]
      simp [Ne.symm hn]

/-- Placing one level opens the next: the counts move on and what becomes ready
is the next level. -/
theorem count_layer (hids : ids.Pairwise (· < ·)) (hdeps : ∀ n ∈ ids, ∀ d ∈ deps n, d ∈ ids)
    (k : Nat) (n : κ) :
    ((level ids deps k).flatMap (dependents ids deps)).count n =
      if n ∈ ids then (deps n).countP (fun d => Below deps (k + 1) d && !Below deps k d)
      else 0 := by
  have hnd : ids.Nodup := hids.imp ne_of_lt
  rw [count_layer_dependents ids deps hnd _ (level_nodup ids deps hnd k)]
  split
  · rename_i hn
    refine List.countP_congr fun d hd => ?_
    simp [mem_level, hdeps n hn d hd]
  · rfl

theorem count_le_remaining (hids : ids.Pairwise (· < ·))
    (hdeps : ∀ n ∈ ids, ∀ d ∈ deps n, d ∈ ids) {k : Nat} {r : OrdMap κ Nat}
    (hr : Remaining ids deps k r) (n : κ) :
    ((level ids deps k).flatMap (dependents ids deps)).count n ≤ (r.get? n).getD 0 := by
  rw [count_layer hids hdeps, hr n]
  split
  · rw [Option.getD_some, countP_open deps k (deps n)]
    omega
  · exact Nat.zero_le _

theorem placeLayer_level (hids : ids.Pairwise (· < ·))
    (hdeps : ∀ n ∈ ids, ∀ d ∈ deps n, d ∈ ids) {k : Nat} {r : OrdMap κ Nat}
    (hr : Remaining ids deps k r) :
    Remaining ids deps (k + 1) (placeLayer ids deps r (level ids deps k)).1 ∧
    (placeLayer ids deps r (level ids deps k)).2.insertionSort (· ≤ ·) =
      level ids deps (k + 1) := by
  have hnd : ids.Nodup := hids.imp ne_of_lt
  have hcount := count_layer hids hdeps k
  obtain ⟨h₁, ready, h₂, h₃, h₄⟩ := foldl_place _ r [] (count_le_remaining hids hdeps hr)
  refine ⟨fun n => ?_, ?_⟩
  · unfold placeLayer
    rw [h₁, hr n, hcount]
    split
    · rw [Option.map_some, countP_open deps k (deps n), Nat.add_sub_cancel]
    · rfl
  · unfold placeLayer
    rw [h₂, List.nil_append]
    have hmem : ∀ n, n ∈ ready ↔ n ∈ level ids deps (k + 1) := by
      intro n
      rw [h₄, mem_level, ← List.count_pos_iff, hcount, hr n]
      by_cases hn : n ∈ ids
      · simp only [hn, if_true, true_and, Option.some.injEq]
        rw [countP_open deps k (deps n), below_succ, ← Bool.not_eq_true, below_succ]
        constructor
        · rintro ⟨hpos, heq⟩
          have hz : (deps n).countP (fun d => !Below deps (k + 1) d) = 0 := by omega
          obtain ⟨d, hd, hb⟩ := List.countP_pos_iff.mp hpos
          refine ⟨fun d hd => by simpa using List.countP_eq_zero.mp hz d hd, fun hall => ?_⟩
          rw [hall d hd] at hb
          simp at hb
        · rintro ⟨hall, hnot⟩
          have hz : (deps n).countP (fun d => !Below deps (k + 1) d) = 0 :=
            List.countP_eq_zero.mpr fun d hd => by simp [hall d hd]
          refine ⟨?_, by omega⟩
          push Not at hnot
          obtain ⟨d, hd, hb⟩ := hnot
          exact List.countP_pos_iff.mpr ⟨d, hd, by simpa [hall d hd] using hb⟩
      · simp [hn]
    have hperm : (ready.insertionSort (· ≤ ·)).Perm (level ids deps (k + 1)) :=
      (List.perm_insertionSort _ ready).trans
        ((List.perm_ext_iff_of_nodup h₃ (level_nodup ids deps hnd (k + 1))).mpr hmem)
    refine hperm.eq_of_pairwise (fun a b _ _ hab hba => le_antisymm hab hba)
      (List.pairwise_insertionSort _ ready) ?_
    exact (hids.imp le_of_lt).filter _

theorem layersFrom_level (hids : ids.Pairwise (· < ·))
    (hdeps : ∀ n ∈ ids, ∀ d ∈ deps n, d ∈ ids) (fuel k : Nat) (r : OrdMap κ Nat)
    (hr : Remaining ids deps k r) (hne : ∀ j < k, level ids deps j ≠ [])
    (hfuel : ids.length + 1 ≤ k + fuel) :
    ∃ m, level ids deps (k + m) = [] ∧ (∀ j < k + m, level ids deps j ≠ []) ∧
      (layersFrom ids deps fuel r (level ids deps k)).1 =
        (List.range m).map (fun j => level ids deps (k + j)) ∧
      Remaining ids deps (k + m) (layersFrom ids deps fuel r (level ids deps k)).2 := by
  induction fuel generalizing k r with
  | zero =>
    have := levels_le_length ids deps hne
    omega
  | succ fuel ih =>
    by_cases hk : level ids deps k = []
    · exact ⟨0, hk, hne, by simp [layersFrom, hk], by simpa [layersFrom, hk] using hr⟩
    · obtain ⟨hr', hnext⟩ := placeLayer_level hids hdeps hr
      have hne' : ∀ j < k + 1, level ids deps j ≠ [] := by
        intro j hj
        rcases Nat.lt_succ_iff_lt_or_eq.mp hj with hj | rfl
        · exact hne j hj
        · exact hk
      obtain ⟨m, h₁, h₂, h₃, h₄⟩ := ih (k + 1) _ hr' hne' (by omega)
      have hkm : k + 1 + m = k + (m + 1) := by omega
      rw [hkm] at h₁ h₂ h₄
      refine ⟨m + 1, h₁, h₂, ?_, ?_⟩
      · simp only [layersFrom, hk, if_false, hnext]
        rw [h₃, List.range_succ_eq_map, List.map_cons, List.map_map, Nat.add_zero]
        congr 1
        refine List.map_congr_left fun j _ => ?_
        simp only [Function.comp_apply, Nat.succ_eq_add_one]
        congr 1
        omega
      · simpa only [layersFrom, hk, if_false, hnext] using h₄

/-- The layers are the levels in order, and the counts left open are those of
the nodes that have no height. -/
theorem layers_spec (hids : ids.Pairwise (· < ·)) (hdeps : ∀ n ∈ ids, ∀ d ∈ deps n, d ∈ ids) :
    ∃ m, level ids deps m = [] ∧ (∀ j < m, level ids deps j ≠ []) ∧
      (layers ids deps).1 = (List.range m).map (level ids deps) ∧
      Remaining ids deps m (layers ids deps).2 := by
  obtain ⟨m, h₁, h₂, h₃, h₄⟩ := layersFrom_level hids hdeps (ids.length + 1) 0
    (openCounts ids deps) (openCounts_remaining (hids.imp ne_of_lt)) (by simp) (by omega)
  refine ⟨m, by simpa using h₁, by simpa using h₂, ?_, ?_⟩
  · simpa [layers, level_zero] using h₃
  · simpa [layers, level_zero] using h₄

/-- Every node is placed exactly when the dependencies can be ranked. -/
theorem layers_complete_iff (hids : ids.Pairwise (· < ·))
    (hdeps : ∀ n ∈ ids, ∀ d ∈ deps n, d ∈ ids) :
    ((layers ids deps).1.map List.length).sum = ids.length ↔
      ∃ rank : κ → Nat, ∀ n ∈ ids, ∀ d ∈ deps n, rank d < rank n := by
  obtain ⟨m, hm, _, hl, _⟩ := layers_spec hids hdeps
  have hsum : ((layers ids deps).1.map List.length).sum = ids.countP (Below deps m) := by
    rw [hl, List.map_map, ← sum_level_length]
    rfl
  rw [hsum, List.countP_eq_length]
  constructor
  · intro hall
    refine ⟨height deps, fun n hn d hd => ?_⟩
    exact height_lt (hall n hn) hd
  · rintro ⟨rank, hrank⟩ n hn
    exact below_of_level_nil ids deps hm hdeps hn
      (below_of_rank ids deps hdeps _ hrank hn (Nat.lt_succ_self _))

end Correctness

section Image

variable {ids ids' : List κ} {deps deps' : κ → List κ} {f : κ → κ} {R : κ → Prop}

omit [LinearOrder κ] in
theorem below_image (hR : ∀ n, R n → ∀ d ∈ deps n, R d)
    (hf : ∀ n, R n → ∀ x, x ∈ deps' (f n) ↔ ∃ d ∈ deps n, f d = x) (k : Nat) {n : κ} (hn : R n) :
    Below deps' k (f n) = Below deps k n := by
  induction k generalizing n with
  | zero => rfl
  | succ k ih =>
    rw [Bool.eq_iff_iff, below_succ, below_succ]
    constructor
    · intro h d hd
      rw [← ih (hR n hn d hd)]
      exact h (f d) ((hf n hn (f d)).mpr ⟨d, hd, rfl⟩)
    · intro h x hx
      obtain ⟨d, hd, rfl⟩ := (hf n hn x).mp hx
      rw [ih (hR n hn d hd)]
      exact h d hd

omit [LinearOrder κ] in
theorem level_image (hR : ∀ n, R n → ∀ d ∈ deps n, R d)
    (hf : ∀ n, R n → ∀ x, x ∈ deps' (f n) ↔ ∃ d ∈ deps n, f d = x) {p : κ → Bool}
    (hids : ids' = ids.filter p) (hp : ∀ n ∈ ids, p n = true → R n ∧ f n = n) (k : Nat) :
    level ids' deps' k = (level ids deps k).filter p := by
  subst hids
  rw [level, level, List.filter_filter, List.filter_filter]
  refine List.filter_congr fun n hn => ?_
  by_cases h : p n = true
  · obtain ⟨hRn, hfn⟩ := hp n hn h
    have hb := fun j => below_image hR hf j hRn
    simp only [hfn] at hb
    simp [hb, h]
  · simp [h]

/-- The layers of the image are the layers restricted to it; those left empty come last. -/
theorem layers_image (hids : ids.Pairwise (· < ·)) (hdeps : ∀ n ∈ ids, ∀ d ∈ deps n, d ∈ ids)
    (hdeps' : ∀ n ∈ ids', ∀ d ∈ deps' n, d ∈ ids') (hR : ∀ n, R n → ∀ d ∈ deps n, R d)
    (hf : ∀ n, R n → ∀ x, x ∈ deps' (f n) ↔ ∃ d ∈ deps n, f d = x) {p : κ → Bool}
    (hp : ids' = ids.filter p) (hfix : ∀ n ∈ ids, p n = true → R n ∧ f n = n) :
    ∃ k, (layers ids deps).1.map (List.filter p) =
      (layers ids' deps').1 ++ List.replicate k [] := by
  have hids' : ids'.Pairwise (· < ·) := hp ▸ hids.filter _
  obtain ⟨m, hm, _, hl, _⟩ := layers_spec hids hdeps
  obtain ⟨m', hm', hne, hl', _⟩ := layers_spec hids' hdeps'
  have hlevel := level_image hR hf hp hfix
  have hle : m' ≤ m := by
    by_contra hlt
    refine hne m (by omega) ?_
    rw [hlevel, hm, List.filter_nil]
  have hempty : ∀ j, level ids' deps' (m' + j) = [] := by
    intro j
    rw [List.eq_nil_iff_forall_not_mem]
    intro n hn
    obtain ⟨hmem, h₁, h₀⟩ := (mem_level ids' deps').mp hn
    have hb := below_of_level_nil ids' deps' hm' hdeps' hmem h₁
    rw [below_le deps' (by omega) hb] at h₀
    cases h₀
  refine ⟨m - m', ?_⟩
  obtain ⟨r, rfl⟩ := Nat.exists_eq_add_of_le hle
  rw [hl, hl', List.range_add, List.map_append, List.map_append, List.map_map]
  congr 1
  · refine List.map_congr_left fun j _ => ?_
    exact (hlevel j).symm
  · rw [List.eq_replicate_iff]
    refine ⟨by simp, ?_⟩
    intro l hl
    simp only [List.map_map, List.mem_map, Function.comp_apply] at hl
    obtain ⟨j, _, rfl⟩ := hl
    rw [← hlevel, hempty]

end Image

end Kahn
