import Mathlib.Algebra.Order.Group.Multiset
import Mathlib.Data.List.Nodup
set_option autoImplicit false

universe u

namespace Cyclic

variable {α : Type u}

/-- The elements of the first `n` slots; slots go round the list. -/
def draws (order : List α) (n : Nat) : List α :=
  (List.range n).filterMap fun slot => order[slot % order.length]?

theorem draws_eq_map {order : List α} (h : order ≠ []) (n : Nat) :
    draws order n = (List.range n).map fun slot =>
      order.get ⟨slot % order.length, Nat.mod_lt _ (List.length_pos_of_ne_nil h)⟩ := by
  rw [draws, ← List.filterMap_eq_map]
  apply List.filterMap_congr
  intro slot _
  exact List.getElem?_eq_getElem _

theorem length_draws {order : List α} (h : order ≠ []) (n : Nat) :
    (draws order n).length = n := by
  rw [draws_eq_map h, List.length_map, List.length_range]

theorem draws_succ (order : List α) (n : Nat) :
    draws order (n + 1) = draws order n ++ (order[n % order.length]?).toList := by
  rw [draws, List.range_succ, List.filterMap_append, draws]
  cases h : order[n % order.length]? <;> simp [h]

theorem draws_of_le {order : List α} {n : Nat} (h : n ≤ order.length) :
    draws order n = order.take n := by
  induction n with
  | zero => simp [draws]
  | succ n ih =>
    rw [draws_succ, ih (by omega), Nat.mod_eq_of_lt (by omega), List.take_add_one]

theorem draws_add_length (order : List α) (n : Nat) :
    draws order (order.length + n) = order ++ draws order n := by
  have hround : draws order order.length = order := by
    rw [draws_of_le (Nat.le_refl _), List.take_length]
  rw [draws, List.range_add, List.filterMap_append, List.filterMap_map]
  congr 1
  apply List.filterMap_congr
  intro slot _
  rw [Function.comp_apply, Nat.add_mod_left]

theorem mem_of_mem_draws {order : List α} {n : Nat} {a : α} (h : a ∈ draws order n) :
    a ∈ order := by
  obtain ⟨slot, -, hslot⟩ := List.mem_filterMap.mp h
  exact List.mem_of_getElem? hslot

theorem mem_draws_of_lt {order : List α} {i n : Nat} (hi : i < n) (hlen : i < order.length) :
    order[i] ∈ draws order n := by
  refine List.mem_filterMap.mpr ⟨i, List.mem_range.mpr hi, ?_⟩
  rw [Nat.mod_eq_of_lt hlen, List.getElem?_eq_getElem hlen]

/-- Every element of a duplicate-free list is drawn once a round, and in the
last round at most once. -/
theorem count_draws [DecidableEq α] {order : List α} (hn : order.Nodup) {a : α} (ha : a ∈ order)
    (n : Nat) : n / order.length ≤ (draws order n).count a ∧
      (draws order n).count a ≤ n / order.length + 1 := by
  have hpos : 0 < order.length := List.length_pos_of_mem ha
  induction n using Nat.strongRecOn with
  | _ n ih =>
    by_cases hle : order.length ≤ n
    · obtain ⟨m, rfl⟩ := Nat.exists_eq_add_of_le hle
      obtain ⟨hlow, hhigh⟩ := ih m (by omega)
      rw [draws_add_length, List.count_append, List.count_eq_one_of_mem hn ha,
        Nat.add_div_left m hpos]
      omega
    · have hlt : n < order.length := by omega
      have hone : (order.take n).count a ≤ order.count a := (List.take_sublist n order).count_le a
      rw [List.count_eq_one_of_mem hn ha] at hone
      rw [draws_of_le (Nat.le_of_lt hlt), Nat.div_eq_of_lt hlt]
      omega

/-- No element is drawn two times more often than another one. -/
theorem count_draws_le [DecidableEq α] {order : List α} (hn : order.Nodup) {a b : α}
    (ha : a ∈ order) (hb : b ∈ order) (n : Nat) :
    (draws order n).count a ≤ (draws order n).count b + 1 := by
  have hhigh := (count_draws hn ha n).2
  have hlow := (count_draws hn hb n).1
  omega

/-- When no element occurs two times more often than another one, and so many rounds would be
enough, none occurs more often than that. -/
theorem count_le_of_even [DecidableEq α] {order drawn : List α} (hn : order.Nodup)
    (heven : ∀ a ∈ order, ∀ b ∈ order, drawn.count a ≤ drawn.count b + 1) {rounds : Nat}
    (hfew : drawn.length ≤ rounds * order.length) {a : α} (ha : a ∈ order) :
    drawn.count a ≤ rounds := by
  by_contra hmore
  -- all the rounds are drawn, and one element besides
  have hdrawn : a ::ₘ rounds • (order : Multiset α) ≤ (drawn : Multiset α) := by
    rw [Multiset.le_iff_count]
    intro b
    rw [Multiset.count_cons, Multiset.count_nsmul, Multiset.coe_count, Multiset.coe_count]
    by_cases hb : b ∈ order
    · have hab := heven a ha b hb
      rw [List.count_eq_one_of_mem hn hb]
      split
      · rename_i he
        subst he
        rw [Nat.mul_one]
        omega
      · rw [Nat.mul_one]
        omega
    · have hne : b ≠ a := fun he => hb (he ▸ ha)
      rw [List.count_eq_zero_of_not_mem hb, if_neg hne, Nat.mul_zero]
      exact Nat.zero_le _
  have hcard := Multiset.card_le_card hdrawn
  rw [Multiset.card_cons, Multiset.card_nsmul, Multiset.coe_card, Multiset.coe_card] at hcard
  omega

/-- What stands in the back of the list is drawn after everything in front. -/
theorem front_first {front back : List α} (hn : (front ++ back).Nodup) {before after : List α}
    {a : α} (ha : a ∈ back) {n : Nat} (h : draws (front ++ back) n = before ++ a :: after) :
    ∀ b ∈ front, b ∈ before := by
  have hne : front ++ back ≠ [] := List.ne_nil_of_mem (List.mem_append_right front ha)
  have hlen := length_draws hne n
  rw [h, List.length_append, List.length_cons] at hlen
  have hget : (draws (front ++ back) n)[before.length]? = some a := by
    rw [h, List.getElem?_append_right (Nat.le_refl _), Nat.sub_self, List.getElem?_cons_zero]
  rw [draws_eq_map hne, List.getElem?_map, List.getElem?_range (by omega), Option.map_some,
    Option.some.injEq] at hget
  have hback : front.length ≤ before.length % (front ++ back).length := by
    by_contra hlt
    have hfront : before.length % (front ++ back).length < front.length := by omega
    rw [List.get_eq_getElem, List.getElem_append_left hfront] at hget
    exact (List.disjoint_of_nodup_append hn) (hget ▸ List.getElem_mem _) ha
  have hbefore : draws (front ++ back) before.length = before := by
    have htake : (draws (front ++ back) n).take before.length =
        draws (front ++ back) before.length := by
      rw [draws_eq_map hne, draws_eq_map hne, ← List.map_take, List.take_range,
        Nat.min_eq_left (by omega)]
    rw [← htake, h, List.take_left]
  intro b hb
  obtain ⟨i, hi, rfl⟩ := List.getElem_of_mem hb
  have hmod := Nat.mod_le before.length (front ++ back).length
  have hlenI : i < (front ++ back).length := by
    rw [List.length_append]
    omega
  have hmem := mem_draws_of_lt (n := before.length) (by omega) hlenI
  rwa [hbefore, List.getElem_append_left hi] at hmem

end Cyclic
