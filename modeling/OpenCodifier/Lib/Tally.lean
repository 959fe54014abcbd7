import Mathlib.Algebra.BigOperators.Group.List.Basic
import Mathlib.Algebra.Ring.Defs
import OpenCodifier.Lib.OrdMap
set_option autoImplicit false

universe u v

namespace Tally

variable {κ : Type u} {M : Type v} [LinearOrder κ]

def add [AddZeroClass M] (sums : OrdMap κ M) (entry : κ × M) : OrdMap κ M :=
  sums.insert entry.1 ((sums.get? entry.1).getD 0 + entry.2)

def share [AddMonoid M] (entries : List (κ × M)) (k : κ) : M :=
  ((entries.filter fun e => e.1 = k).map Prod.snd).sum

theorem share_cons_self [AddMonoid M] (k : κ) (x : M) (entries : List (κ × M)) :
    share ((k, x) :: entries) k = x + share entries k := by
  simp [share]

theorem share_cons_of_ne [AddMonoid M] {k k' : κ} (h : k' ≠ k) (x : M)
    (entries : List (κ × M)) : share ((k', x) :: entries) k = share entries k := by
  simp [share, h]

theorem share_of_notMem [AddMonoid M] {entries : List (κ × M)} {k : κ}
    (h : k ∉ entries.map Prod.fst) : share entries k = 0 := by
  have hnil : entries.filter (fun e => e.1 = k) = [] :=
    List.filter_eq_nil_iff.mpr fun e he hek =>
      h (List.mem_map.mpr ⟨e, he, of_decide_eq_true hek⟩)
  rw [share, hnil]
  rfl

theorem getD_add [AddZeroClass M] (sums : OrdMap κ M) (entry : κ × M) (k : κ) :
    ((add sums entry).get? k).getD 0 = (sums.get? k).getD 0 + if entry.1 = k then entry.2 else 0 := by
  rw [add, OrdMap.get?_insert]
  by_cases hk : k = entry.1
  · rw [if_pos hk, if_pos hk.symm, hk]
    rfl
  · rw [if_neg hk, if_neg fun he => hk he.symm, add_zero]

theorem get?_foldl_add [AddMonoid M] (entries : List (κ × M)) (sums : OrdMap κ M) (k : κ) :
    (entries.foldl add sums).get? k =
      if k ∈ entries.map Prod.fst then some ((sums.get? k).getD 0 + share entries k)
      else sums.get? k := by
  induction entries generalizing sums with
  | nil => simp
  | cons e entries ih =>
    obtain ⟨k', x⟩ := e
    rw [List.foldl_cons, ih]
    by_cases hk : k' = k
    · subst hk
      have hself : (add sums (k', x)).get? k' = some ((sums.get? k').getD 0 + x) :=
        OrdMap.get?_insert_self _ _ _
      rw [share_cons_self]
      by_cases hm : k' ∈ entries.map Prod.fst
      · simp [hself, hm, add_assoc]
      · rw [if_neg hm, hself, share_of_notMem hm, if_pos (by simp), add_zero]
    · have hother : (add sums (k', x)).get? k = sums.get? k :=
        OrdMap.get?_insert_of_ne _ _ (Ne.symm hk)
      rw [hother, share_cons_of_ne hk]
      have hmem : k ∈ ((k', x) :: entries).map Prod.fst ↔ k ∈ entries.map Prod.fst := by
        simp [Ne.symm hk]
      simp only [hmem]

theorem getD_foldl_add [AddMonoid M] (entries : List (κ × M)) (sums : OrdMap κ M) (k : κ) :
    ((entries.foldl add sums).get? k).getD 0 = (sums.get? k).getD 0 + share entries k := by
  induction entries generalizing sums with
  | nil => exact (add_zero _).symm
  | cons e entries ih =>
    obtain ⟨k', x⟩ := e
    rw [List.foldl_cons, ih, getD_add]
    by_cases hk : k' = k
    · subst hk
      rw [share_cons_self, if_pos rfl, add_assoc]
    · rw [share_cons_of_ne hk, if_neg hk, add_zero]

theorem share_ones {α : Type v} (key : α → κ) (l : List α) (k : κ) :
    share (l.map fun a => (key a, 1)) k = l.countP fun a => key a = k := by
  induction l with
  | nil => rfl
  | cons a l ih =>
    by_cases hk : key a = k
    · rw [List.map_cons, hk, share_cons_self, ih, List.countP_cons_of_pos (by simpa using hk)]
      exact Nat.add_comm 1 _
    · rw [List.map_cons, share_cons_of_ne hk, ih, List.countP_cons_of_neg (by simpa using hk)]

theorem share_append [AddMonoid M] (entries entries' : List (κ × M)) (k : κ) :
    share (entries ++ entries') k = share entries k + share entries' k := by
  simp [share]

/-- Rows with the same entries in some order contribute their number times the entry. -/
theorem share_flatten [AddMonoid M] {row : List (κ × M)} (hn : (row.map Prod.fst).Nodup)
    {rows : List (List (κ × M))} (h : ∀ r ∈ rows, r.Perm row) {k : κ} {x : M}
    (hx : (k, x) ∈ row) : share rows.flatten k = rows.length • x := by
  have hone : row.filter (fun e => e.1 = k) = [(k, x)] := by
    refine List.perm_singleton.mp ?_
    refine (List.perm_ext_iff_of_nodup ((List.Nodup.of_map _ hn).filter _)
      (List.nodup_singleton _)).mpr fun e => ?_
    simp only [List.mem_filter, decide_eq_true_eq, List.mem_singleton]
    constructor
    · rintro ⟨he, hek⟩
      exact List.inj_on_of_nodup_map hn he hx hek
    · rintro rfl
      exact ⟨hx, rfl⟩
  induction rows with
  | nil => simp [share]
  | cons r rows ih =>
    have hr : r.filter (fun e => e.1 = k) = [(k, x)] :=
      List.perm_singleton.mp (hone ▸ (h r List.mem_cons_self).filter _)
    have hrest := ih fun r hr => h r (List.mem_cons_of_mem _ hr)
    rw [share] at hrest
    rw [share, List.flatten_cons, List.filter_append, hr, List.map_append, List.sum_append, hrest]
    simp [succ_nsmul']

theorem share_of_mem [AddMonoid M] {entries : List (κ × M)} (hn : (entries.map Prod.fst).Nodup)
    {k : κ} {x : M} (h : (k, x) ∈ entries) : share entries k = x := by
  have hsame : ∀ r ∈ [entries], r.Perm entries := by simp
  have hone := share_flatten hn hsame h
  rw [List.flatten_singleton, List.length_singleton, one_nsmul] at hone
  exact hone

theorem share_entries [AddMonoid M] (sums : OrdMap κ M) (k : κ) :
    share sums.entries k = (sums.get? k).getD 0 := by
  cases h : sums.get? k with
  | some x => exact share_of_mem sums.nodup_keys ((OrdMap.mem_entries_iff sums k x).mpr h)
  | none =>
    refine share_of_notMem fun hk => ?_
    obtain ⟨x, hx⟩ := (OrdMap.mem_keys_iff sums k).mp hk
    rw [h] at hx
    cases hx

/-- The sums over rows that have the same entries, each in some order. -/
theorem get?_collect [AddMonoid M] {row : List (κ × M)} (hn : (row.map Prod.fst).Nodup)
    {rows : List (List (κ × M))} (hne : rows ≠ []) (h : ∀ r ∈ rows, r.Perm row) (k : κ) :
    (rows.flatten.foldl add OrdMap.empty).get? k =
      ((OrdMap.ofList row).get? k).map (rows.length • ·) := by
  have hkeys : k ∈ rows.flatten.map Prod.fst ↔ k ∈ row.map Prod.fst := by
    obtain ⟨r, hr⟩ := List.exists_mem_of_ne_nil rows hne
    constructor
    · intro hk
      obtain ⟨e, he, rfl⟩ := List.mem_map.mp hk
      obtain ⟨r, hr, her⟩ := List.mem_flatten.mp he
      exact List.mem_map_of_mem ((h r hr).mem_iff.mp her)
    · intro hk
      obtain ⟨e, he, rfl⟩ := List.mem_map.mp hk
      exact List.mem_map_of_mem (List.mem_flatten.mpr ⟨r, hr, (h r hr).mem_iff.mpr he⟩)
  rw [get?_foldl_add, OrdMap.get?_empty]
  by_cases hk : k ∈ row.map Prod.fst
  · obtain ⟨e, he, rfl⟩ := List.mem_map.mp hk
    rw [if_pos (hkeys.mpr hk), share_flatten hn h he, OrdMap.get?_ofList_of_mem hn he]
    simp
  · rw [if_neg fun hm => hk (hkeys.mp hm), OrdMap.get?_ofList hn]
    have hnone : row.find? (fun e => e.1 = k) = none :=
      List.find?_eq_none.mpr fun e he hek =>
        hk (List.mem_map.mpr ⟨e, he, of_decide_eq_true hek⟩)
    rw [hnone]
    rfl

theorem share_cons [AddMonoid M] (e : κ × M) (entries : List (κ × M)) (k : κ) :
    share (e :: entries) k = (if e.1 = k then e.2 else 0) + share entries k := by
  obtain ⟨k', x⟩ := e
  by_cases h : k' = k
  · subst h
    rw [share_cons_self, if_pos rfl]
  · rw [share_cons_of_ne h, if_neg h, zero_add]

/-- Weighing the shares of different keys is weighing the contributions, when there is no other
key. -/
theorem sum_share_mul [NonUnitalNonAssocSemiring M] {keys : List κ} (hn : keys.Nodup)
    {entries : List (κ × M)} (h : ∀ e ∈ entries, e.1 ∈ keys) (weight : κ → M) :
    (keys.map fun k => share entries k * weight k).sum =
      (entries.map fun e => e.2 * weight e.1).sum := by
  induction entries with
  | nil => simp [share]
  | cons e entries ih =>
    have hone : (keys.map fun k => (if e.1 = k then e.2 else 0) * weight k).sum =
        e.2 * weight e.1 := by
      rw [List.sum_map_eq_nsmul_single e.1 _ fun k hk _ => by rw [if_neg (Ne.symm hk), zero_mul],
        List.count_eq_one_of_mem hn (h e List.mem_cons_self), one_nsmul, if_pos rfl]
    rw [List.map_cons, List.sum_cons, ← ih fun e' he' => h e' (List.mem_cons_of_mem _ he'), ← hone,
      ← List.sum_map_add]
    simp only [share_cons, add_mul]

end Tally
