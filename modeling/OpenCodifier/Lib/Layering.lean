import Mathlib.Order.Bounds.Basic
import Mathlib.Order.WellFounded
import Mathlib.Data.Fintype.Order
import Mathlib.Data.Set.Finite.List
import OpenCodifier.Lib.Kahn
import OpenCodifier.Lib.Result
set_option autoImplicit false

universe u

namespace Kahn

section Chains

variable {κ : Type u} {ids : List κ} {deps : κ → List κ}

inductive Chain (deps : κ → List κ) : κ → Nat → Prop
  | stop (n : κ) : Chain deps n 0
  | down {n d : κ} {l : Nat} : d ∈ deps n → Chain deps d l → Chain deps n (l + 1)

theorem below_iff_chain (k : Nat) (n : κ) :
    Below deps k n = true ↔ ∀ l, Chain deps n l → l < k := by
  induction k generalizing n with
  | zero =>
    simp only [Below, Bool.false_eq_true, false_iff]
    exact fun h => absurd (h 0 (.stop n)) (Nat.lt_irrefl 0)
  | succ k ih =>
    rw [below_succ]
    constructor
    · intro h l hl
      cases hl with
      | stop => omega
      | down hd hl =>
        have := (ih _).mp (h _ hd) _ hl
        omega
    · intro h d hd
      refine (ih d).mpr fun l hl => ?_
      have := h (l + 1) (.down hd hl)
      omega

/-- A node is in the level of its longest chain. -/
theorem mem_level_iff_longest {k : Nat} {n : κ} :
    n ∈ level ids deps k ↔ n ∈ ids ∧ IsGreatest {l | Chain deps n l} k := by
  rw [mem_level]
  refine and_congr_right fun _ => ?_
  rw [below_iff_chain, ← Bool.not_eq_true, below_iff_chain]
  push Not
  constructor
  · intro h
    obtain ⟨hle, l, hl, hk⟩ := h
    have hlk : l = k := by
      have := hle l hl
      omega
    refine ⟨hlk ▸ hl, fun l' hl' => ?_⟩
    have := hle l' hl'
    omega
  · intro h
    refine ⟨fun l hl => ?_, k, h.1, le_refl k⟩
    have := h.2 hl
    omega

abbrev DependsOn (deps : κ → List κ) : κ → κ → Prop := Relation.TransGen fun a b => b ∈ deps a

theorem mem_of_dependsOn (hdeps : ∀ n ∈ ids, ∀ d ∈ deps n, d ∈ ids) {n d : κ} (hn : n ∈ ids)
    (h : DependsOn deps n d) : d ∈ ids := by
  induction h with
  | single hd => exact hdeps _ hn _ hd
  | tail _ hd ih => exact hdeps _ ih _ hd

theorem rank_lt_of_dependsOn (hdeps : ∀ n ∈ ids, ∀ d ∈ deps n, d ∈ ids) {rank : κ → Nat}
    (hrank : ∀ n ∈ ids, ∀ d ∈ deps n, rank d < rank n) {n d : κ} (hn : n ∈ ids)
    (h : DependsOn deps n d) : rank d < rank n := by
  induction h with
  | single hd => exact hrank _ hn _ hd
  | tail hb hd ih => exact (hrank _ (mem_of_dependsOn hdeps hn hb) _ hd).trans ih

theorem exists_below_all {l : List κ} (h : ∀ d ∈ l, ∃ k, Below deps k d = true) :
    ∃ k, ∀ d ∈ l, Below deps k d = true := by
  induction l with
  | nil => exact ⟨0, by simp⟩
  | cons d l ih =>
    obtain ⟨k, hk⟩ := h d List.mem_cons_self
    obtain ⟨j, hj⟩ := ih fun e he => h e (List.mem_cons_of_mem _ he)
    refine ⟨max k j, fun e he => ?_⟩
    rcases List.mem_cons.mp he with rfl | he
    · exact below_le deps (le_max_left k j) hk
    · exact below_le deps (le_max_right k j) (hj e he)

theorem exists_below_of_acyclic (hdeps : ∀ n ∈ ids, ∀ d ∈ deps n, d ∈ ids)
    (h : ∀ n ∈ ids, ¬ DependsOn deps n n) {n : κ} (hn : n ∈ ids) :
    ∃ k, Below deps k n = true := by
  have hfin : Finite {x // x ∈ ids} := (List.finite_toSet ids).to_subtype
  have htrans : IsTrans {x // x ∈ ids} fun a b => DependsOn deps b.1 a.1 :=
    ⟨fun _ _ _ hab hbc => hbc.trans hab⟩
  have hirr : Std.Irrefl fun a b : {x // x ∈ ids} => DependsOn deps b.1 a.1 :=
    ⟨fun a ha => h a.1 a.2 ha⟩
  have hwf := Finite.wellFounded_of_trans_of_irrefl
    fun a b : {x // x ∈ ids} => DependsOn deps b.1 a.1
  have hall : ∀ a : {x // x ∈ ids}, ∃ k, Below deps k a.1 = true := by
    intro a
    induction a using hwf.induction with
    | _ a ih =>
      obtain ⟨k, hk⟩ := exists_below_all (l := deps a.1) fun d hd =>
        ih ⟨d, hdeps _ a.2 d hd⟩ (.single hd)
      exact ⟨k + 1, (below_succ deps k a.1).mpr hk⟩
  exact hall ⟨n, hn⟩

/-- Dependencies can be ranked exactly when they have no cycle. -/
theorem exists_rank_iff_acyclic (hdeps : ∀ n ∈ ids, ∀ d ∈ deps n, d ∈ ids) :
    (∃ rank : κ → Nat, ∀ n ∈ ids, ∀ d ∈ deps n, rank d < rank n) ↔
      ∀ n ∈ ids, ¬ DependsOn deps n n := by
  constructor
  · intro h n hn hc
    obtain ⟨rank, hrank⟩ := h
    exact lt_irrefl _ (rank_lt_of_dependsOn hdeps hrank hn hc)
  · intro h
    refine ⟨height deps, fun n hn d hd => ?_⟩
    obtain ⟨k, hk⟩ := exists_below_of_acyclic hdeps h hn
    exact height_lt hk hd

end Chains

section Counters

variable {κ : Type u} [LinearOrder κ]

/-- How a layering with bounded counters can go wrong. -/
inductive Fault (κ : Type u) where
  | underflow (n : κ)
  | unfinished

/-- `place` with a counter that is checked before it is lowered. -/
def placeChecked (acc : OrdMap κ Nat × List κ) (n : κ) :
    Except (Fault κ) (OrdMap κ Nat × List κ) :=
  match acc.1.get? n with
  | none => .ok acc
  | some 0 => .error (.underflow n)
  | some (count + 1) =>
    .ok (acc.1.insert n count, if count = 0 then acc.2 ++ [n] else acc.2)

variable (ids : List κ) (deps : κ → List κ)

def placeLayerChecked (remaining : OrdMap κ Nat) (current : List κ) :
    Except (Fault κ) (OrdMap κ Nat × List κ) :=
  (current.flatMap (dependents ids deps)).foldlM placeChecked (remaining, [])

/-- `layersFrom` with checked counters, which also tells when its fuel ran out. -/
def layersCheckedFrom :
    Nat → OrdMap κ Nat → List κ → Except (Fault κ) (List (List κ) × OrdMap κ Nat)
  | 0, _, _ => .error .unfinished
  | fuel + 1, remaining, current =>
    if current = [] then .ok ([], remaining)
    else do
      let placed ← placeLayerChecked ids deps remaining current
      let rest ← layersCheckedFrom fuel placed.1 (placed.2.insertionSort (· ≤ ·))
      pure (current :: rest.1, rest.2)

def layersChecked : Except (Fault κ) (List (List κ) × OrdMap κ Nat) :=
  layersCheckedFrom ids deps (ids.length + 1) (openCounts ids deps)
    (ids.filter fun n => deps n = [])

theorem foldlM_placeChecked (es : List κ) (acc : OrdMap κ Nat × List κ)
    (h : ∀ n ∈ es, es.count n ≤ (acc.1.get? n).getD 0) :
    es.foldlM placeChecked acc = .ok (es.foldl place acc) := by
  induction es generalizing acc with
  | nil => rfl
  | cons e es ih =>
    have he := h e List.mem_cons_self
    rw [List.count_cons_self] at he
    obtain ⟨c, hc⟩ : ∃ c, acc.1.get? e = some (c + 1) := by
      cases hr : acc.1.get? e with
      | none => simp [hr] at he
      | some c =>
        rw [hr, Option.getD_some] at he
        exact ⟨c - 1, by congr; omega⟩
    have hchecked : placeChecked acc e = .ok (place acc e) := by
      simp [placeChecked, place, hc]
    rw [List.foldlM_cons, hchecked, List.foldl_cons]
    refine ih _ fun n hn => ?_
    have hplace : (place acc e).1 = acc.1.insert e c := by simp [place, hc]
    rw [hplace, OrdMap.get?_insert]
    split
    · rename_i hne
      subst hne
      rw [hc, Option.getD_some] at he
      rw [Option.getD_some]
      omega
    · rename_i hne
      have := h n (List.mem_cons_of_mem _ hn)
      rwa [List.count_cons_of_ne (Ne.symm hne)] at this

variable {ids deps}

theorem layersCheckedFrom_level (hids : ids.Pairwise (· < ·))
    (hdeps : ∀ n ∈ ids, ∀ d ∈ deps n, d ∈ ids) (fuel k : Nat) (r : OrdMap κ Nat)
    (hr : Remaining ids deps k r) (hne : ∀ j < k, level ids deps j ≠ [])
    (hfuel : ids.length + 1 ≤ k + fuel) :
    layersCheckedFrom ids deps fuel r (level ids deps k) =
      .ok (layersFrom ids deps fuel r (level ids deps k)) := by
  induction fuel generalizing k r with
  | zero =>
    have := levels_le_length ids deps hne
    omega
  | succ fuel ih =>
    by_cases hk : level ids deps k = []
    · simp [layersCheckedFrom, layersFrom, hk]
    · obtain ⟨hr', hnext⟩ := placeLayer_level hids hdeps hr
      have hne' : ∀ j < k + 1, level ids deps j ≠ [] := by
        intro j hj
        rcases Nat.lt_succ_iff_lt_or_eq.mp hj with hj | rfl
        · exact hne j hj
        · exact hk
      have hplace : placeLayerChecked ids deps r (level ids deps k) =
          .ok (placeLayer ids deps r (level ids deps k)) :=
        foldlM_placeChecked _ _ fun n _ => count_le_remaining hids hdeps hr n
      have hrest := ih (k + 1) _ hr' hne' (by omega)
      rw [← hnext] at hrest
      rw [layersCheckedFrom, layersFrom, if_neg hk, if_neg hk, hplace]
      change (do
        let rest ← layersCheckedFrom ids deps fuel _ _
        pure (level ids deps k :: rest.1, rest.2)) = _
      rw [hrest]
      rfl

/-- The counters never go below zero and the loop ends, over every list of nodes. -/
theorem layersChecked_eq (hids : ids.Pairwise (· < ·))
    (hdeps : ∀ n ∈ ids, ∀ d ∈ deps n, d ∈ ids) :
    layersChecked ids deps = .ok (layers ids deps) := by
  have h := layersCheckedFrom_level hids hdeps (ids.length + 1) 0 (openCounts ids deps)
    (openCounts_remaining (hids.imp ne_of_lt)) (by simp) (by omega)
  simpa [layersChecked, layers, level_zero] using h

end Counters

end Kahn
