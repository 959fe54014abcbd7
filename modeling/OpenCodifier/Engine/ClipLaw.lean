import Mathlib.Algebra.BigOperators.Ring.List
import Mathlib.Tactic.Linarith
import Mathlib.Tactic.FieldSimp
import Mathlib.Tactic.Ring
import OpenCodifier.Engine.Decide
import OpenCodifier.Lib.Prorata
set_option autoImplicit false

namespace OpenCodifier

section Shares

def massOf (kept : List DistributionEntry) : ℚ := (kept.map DistributionEntry.probability).sum

/-- The share of a probability in what is kept, an equal one when nothing has mass. -/
def shareOf (kept : List DistributionEntry) (p : ℚ) : ℚ :=
  if massOf kept ≤ 0 then 1 / (kept.length : ℚ) else p / massOf kept

def sharedEntry (kept : List DistributionEntry) (e : DistributionEntry) : DistributionEntry :=
  ⟨e.key, shareOf kept e.probability⟩

theorem clipPairs_eq (kept : List DistributionEntry) :
    clipPairs kept = kept.map fun e => (e.key, shareOf kept e.probability) := by
  unfold clipPairs shareOf massOf
  dsimp only
  split <;> rfl

variable {kept : List DistributionEntry} (hunit : ∀ e ∈ kept, 0 ≤ e.probability)

include hunit in
theorem le_massOf {e : DistributionEntry} (he : e ∈ kept) : e.probability ≤ massOf kept := by
  refine List.single_le_sum (fun p hp => ?_) _ (List.mem_map_of_mem he)
  obtain ⟨e', he', rfl⟩ := List.mem_map.mp hp
  exact hunit e' he'

theorem length_pos_of_mem {e : DistributionEntry} (he : e ∈ kept) : (1 : ℚ) ≤ kept.length := by
  exact_mod_cast List.length_pos_of_mem he

include hunit in
theorem shareOf_unit {e : DistributionEntry} (he : e ∈ kept) :
    0 ≤ shareOf kept e.probability ∧ shareOf kept e.probability ≤ 1 := by
  have hlength := length_pos_of_mem he
  rw [shareOf]
  split
  · exact ⟨by positivity, (div_le_one (by linarith)).mpr hlength⟩
  · rename_i hmass
    have hpos := not_le.mp hmass
    exact ⟨div_nonneg (hunit e he) hpos.le, (div_le_one hpos).mpr (le_massOf hunit he)⟩

theorem massOf_shared (hne : kept ≠ []) : massOf (kept.map (sharedEntry kept)) = 1 := by
  have hshares : massOf (kept.map (sharedEntry kept)) =
      (kept.map fun e => shareOf kept e.probability).sum := by
    simp [massOf, sharedEntry, Function.comp_def]
  rw [hshares]
  unfold shareOf
  by_cases hmass : massOf kept ≤ 0
  · have hlength : (kept.length : ℚ) ≠ 0 := by
      exact_mod_cast List.length_eq_zero_iff.not.mpr hne
    simp only [if_pos hmass, List.map_const', List.sum_replicate, nsmul_eq_mul]
    exact mul_one_div_cancel hlength
  · simp only [if_neg hmass]
    exact Prorata.sum_div (not_le.mp hmass).ne'

theorem shareOf_ratio {a b : DistributionEntry} (hunit : ∀ e ∈ kept, 0 ≤ e.probability)
    (ha : a ∈ kept) (hb : b ∈ kept) :
    a.probability * shareOf kept b.probability = b.probability * shareOf kept a.probability := by
  rw [shareOf, shareOf]
  split
  · rename_i hmass
    have hzero : a.probability = 0 :=
      le_antisymm ((le_massOf hunit ha).trans hmass) (hunit a ha)
    have hzero' : b.probability = 0 :=
      le_antisymm ((le_massOf hunit hb).trans hmass) (hunit b hb)
    rw [hzero, hzero']
  · ring

end Shares

section Survivors

variable (d : Distribution) (question : DecisionQuestion)

def survivors : List DistributionEntry := d.entries.filter fun e => e.key ∈ allowedKeys question

theorem survivors_unit : ∀ e ∈ survivors d question, 0 ≤ e.probability :=
  fun e he => (d.unit e (List.mem_of_mem_filter he)).1

def conditioned (h : survivors d question ≠ []) : Distribution where
  entries := (survivors d question).map (sharedEntry (survivors d question))
  entries_ne := by simpa using h
  unique := by
    rw [List.map_map]
    exact d.unique.sublist (List.filter_sublist.map _)
  unit := by
    intro e he
    obtain ⟨e', he', rfl⟩ := List.mem_map.mp he
    exact shareOf_unit (survivors_unit d question) he'
  normalized := by
    have hmass := massOf_shared h
    rw [massOf] at hmass
    rw [hmass]
    norm_num [sumTolerance]

variable [RustStd]

/-- Clipping fails only for want of a survivor: the constructor takes the shares. -/
theorem clip_eq : clip d question =
    if h : survivors d question = [] then
      .error (.invalidDistribution question.id.text "no key overlaps the surviving answer set")
    else .ok (conditioned d question h, d.entries.length - (survivors d question).length) := by
  unfold clip
  dsimp only
  change (if survivors d question = [] then _ else _) = _
  by_cases h : survivors d question = []
  · rw [if_pos h, dif_pos h]
  · have hnew : Distribution.fromPairs (clipPairs (survivors d question)) =
        .ok (conditioned d question h) := by
      rw [clipPairs_eq, Distribution.fromPairs, List.map_map]
      exact Distribution.new_self (conditioned d question h)
    rw [if_neg h, dif_neg h, ← survivors, hnew]

end Survivors

section Conditional

variable (d : Distribution) (question : DecisionQuestion)

structure Conditional (result : Distribution) (count : Nat) : Prop where
  support : ∀ e ∈ result.entries, e.key ∈ allowedKeys question
  order : result.entries.map DistributionEntry.key =
    (survivors d question).map DistributionEntry.key
  ratios : ∀ a ∈ (survivors d question).zip result.entries,
    ∀ b ∈ (survivors d question).zip result.entries,
      a.1.probability * b.2.probability = b.1.probability * a.2.probability
  conditional : 0 < massOf (survivors d question) →
    ∀ a ∈ (survivors d question).zip result.entries,
      a.2.probability = a.1.probability / massOf (survivors d question)
  mass : massOf result.entries = 1
  dropped : count = d.entries.countP fun e => e.key ∉ allowedKeys question

theorem conditioned_conditional (h : survivors d question ≠ []) :
    Conditional d question (conditioned d question h)
      (d.entries.length - (survivors d question).length) := by
  have hzip : (survivors d question).zip (conditioned d question h).entries =
      (survivors d question).map fun e => (e, sharedEntry (survivors d question) e) := by
    have hself := List.zip_map' (f := id) (g := sharedEntry (survivors d question))
      (l := survivors d question)
    rwa [List.map_id] at hself
  constructor
  · intro e he
    obtain ⟨e', he', rfl⟩ := List.mem_map.mp he
    exact of_decide_eq_true (List.mem_filter.mp he').2
  · rw [conditioned, List.map_map]
    rfl
  · simp only [hzip, List.forall_mem_map]
    exact fun a ha b hb => shareOf_ratio (survivors_unit d question) ha hb
  · intro hmass
    simp only [hzip, List.forall_mem_map]
    exact fun a _ => if_neg (not_le.mpr hmass)
  · exact massOf_shared h
  · have hcount := List.length_eq_countP_add_countP (l := d.entries)
      fun e => decide (e.key ∈ allowedKeys question)
    rw [survivors, ← List.countP_eq_length_filter, hcount, Nat.add_sub_cancel_left]
    simp

variable [RustStd]

theorem clip_self (hall : ∀ e ∈ d.entries, e.key ∈ allowedKeys question)
    (hmass : massOf d.entries = 1) : clip d question = .ok (d, 0) := by
  have hkept : d.entries.filter (fun e => e.key ∈ allowedKeys question) = d.entries :=
    List.filter_eq_self.mpr fun e he => decide_eq_true (hall e he)
  have hshare : ∀ p, shareOf d.entries p = p := fun p => by
    rw [shareOf, hmass, if_neg (by norm_num), div_one]
  have hnew : Distribution.fromPairs (clipPairs d.entries) = .ok d := by
    have hentries : (d.entries.map fun e => (⟨e.key, e.probability⟩ : DistributionEntry)) =
        d.entries := List.map_id _
    have hself := Distribution.new_self d
    rw [← hentries] at hself
    simp only [clipPairs_eq, hshare, Distribution.fromPairs, List.map_map]
    exact hself
  simp only [clip, hkept, if_neg d.entries_ne, hnew, Nat.sub_self]

/-- Clipping gives the distribution on the surviving answers, fails only when there are none, and
changes nothing when it is done again. -/
theorem clip_lawful :
    ((∃ error, clip d question = .error error) ↔ ∀ e ∈ d.entries, e.key ∉ allowedKeys question) ∧
      ∀ result count, clip d question = .ok (result, count) →
        Conditional d question result count ∧ clip result question = .ok (result, 0) := by
  by_cases h : survivors d question = []
  · rw [clip_eq, dif_pos h]
    refine ⟨?_, fun _ _ hclip => by cases hclip⟩
    simpa [survivors] using h
  · rw [clip_eq, dif_neg h]
    refine ⟨?_, fun result count hclip => ?_⟩
    · simpa [survivors] using h
    · cases hclip
      have hlaw := conditioned_conditional d question h
      exact ⟨hlaw, clip_self _ question hlaw.support hlaw.mass⟩

end Conditional

end OpenCodifier
