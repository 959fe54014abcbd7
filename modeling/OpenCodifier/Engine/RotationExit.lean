import OpenCodifier.Engine.RotationAnswer
import OpenCodifier.Engine.Sample
set_option autoImplicit false

namespace OpenCodifier

namespace RotationReadout

section EarlyExit

/-- Whatever the unread rotations would give, the reads taken decide as all would. -/
def Settled (combine : Combine) (candidates : List Candidate) (taken : List Distribution) : Prop :=
  ∀ unread : List Distribution, unread.length = candidates.length - taken.length →
    (∀ d ∈ unread, Over candidates d) →
      answerOf combine (taken ++ unread) = answerOf combine taken

/-- Every rival of a candidate stays below the floor whatever follows, and cannot catch up. -/
structure Unreachable (candidates : List Candidate) (taken : List Distribution) (w : String) :
    Prop where
  denied : ∀ k ∈ candidates.map fun c => c.id.text, k ≠ w →
    (column (taken.map massOf) k).prod ≤ (1 / 2 ^ 52) ^ candidates.length
  ahead : ∀ k ∈ candidates.map fun c => c.id.text, k ≠ w →
    (column (taken.map massOf) k).sum + (candidates.length - taken.length : Nat) <
        (column (taken.map massOf) w).sum ∨
      (column (taken.map massOf) k).sum + (candidates.length - taken.length : Nat) =
        (column (taken.map massOf) w).sum ∧ k < w

def certain (choice : ChoiceQuestion) (k : String)
    (hk : k ∈ choice.candidates.map fun c => c.id.text) : Distribution where
  entries := (choice.candidates.map fun c => c.id.text).map fun k' =>
    ⟨k', if k' = k then 1 else 0⟩
  entries_ne := by simpa using choice.candidates_ne
  unique := by simpa [Function.comp_def] using choice.unique_texts
  unit := by
    intro e he
    obtain ⟨k', -, rfl⟩ := List.mem_map.mp he
    split
    · simp
    · simp
  normalized := by
    have hcount := List.count_eq_one_of_mem choice.unique_texts hk
    have hsum := List.sum_map_ite_eq (choice.candidates.map fun c => c.id.text)
      (fun _ => (1 : ℚ)) (fun _ => 0) k
    rw [List.map_map]
    change |((choice.candidates.map fun c => c.id.text).map
      fun k' => if k' = k then (1 : ℚ) else 0).sum - 1| ≤ sumTolerance
    rw [hsum, hcount]
    simp [sumTolerance, Function.comp_def]

theorem column_append (reads reads' : List Distribution) (k : String) :
    column ((reads ++ reads').map massOf) k =
      column (reads.map massOf) k ++ column (reads'.map massOf) k := by
  simp [column]

theorem column_unit (reads : List Distribution) (k : String) :
    ∀ x ∈ column (reads.map massOf) k, 0 ≤ x ∧ x ≤ 1 := by
  intro x hx
  obtain ⟨mass, hmass, rfl⟩ := List.mem_map.mp hx
  obtain ⟨d, -, rfl⟩ := List.mem_map.mp hmass
  exact massOf_unit d k

theorem column_length (reads : List Distribution) (k : String) :
    (column (reads.map massOf) k).length = reads.length := by
  simp [column]

section Turning

variable {choice : ChoiceQuestion} {taken : List Distribution}

theorem standing_bounds {reads : List Distribution} (hreads : reads ≠ []) (k : String) :
    (column (reads.map massOf) k).sum / reads.length ≤ standing .arithmeticMean reads k ∧
      ((column (reads.map massOf) k).prod ≤ (1 / 2 ^ 52) ^ reads.length →
        standing .arithmeticMean reads k = (column (reads.map massOf) k).sum / reads.length) ∧
      ((1 / 2 ^ 52) ^ reads.length < (column (reads.map massOf) k).prod →
        1 ≤ standing .arithmeticMean reads k) := by
  have hlen := column_length reads k
  have hcolumn : column (reads.map massOf) k ≠ [] := by
    rw [← List.length_pos_iff, hlen]
    exact List.length_pos_of_ne_nil hreads
  have hunit := column_unit reads k
  refine ⟨?_, fun hprod => ?_, fun hprod => ?_⟩
  · rw [← hlen]
    exact mean_le_pooled hcolumn hunit
  · rw [← hlen] at hprod ⊢
    exact pooled_of_le hcolumn hunit hprod
  · rw [← hlen] at hprod
    exact one_le_pooled hcolumn hunit hprod

theorem sum_column_bounds (reads : List Distribution) (k : String) :
    0 ≤ (column (reads.map massOf) k).sum ∧ (column (reads.map massOf) k).sum ≤ reads.length := by
  have hunit := column_unit reads k
  refine ⟨List.sum_nonneg fun x hx => (hunit x hx).1, ?_⟩
  have hle := List.sum_le_card_nsmul _ 1 fun x hx => (hunit x hx).2
  rwa [column_length, nsmul_eq_mul, mul_one] at hle

theorem exists_other (hlong : 2 ≤ choice.candidates.length) (w : String) :
    ∃ k ∈ choice.candidates.map fun c => c.id.text, k ≠ w := by
  by_contra! hall
  have hsame := List.eq_replicate_of_mem hall
  have hn := choice.unique_texts
  rw [hsame, List.nodup_replicate, List.length_map] at hn
  omega

variable (hne : taken ≠ []) (hover : ∀ d ∈ taken, Over choice.candidates d)
include hne hover

theorem over_append {unread : List Distribution}
    (hunread : ∀ d ∈ unread, Over choice.candidates d) :
    taken ++ unread ≠ [] ∧ ∀ d ∈ taken ++ unread, Over choice.candidates d :=
  ⟨by simp [hne], fun d hd => (List.mem_append.mp hd).elim (hover d) (hunread d)⟩

variable (hearly : taken.length < choice.candidates.length)
include hearly

/-- What nothing can reach is what the reads decide for, with up to all the reads that follow. -/
theorem Unreachable.answerOf {w : String} (hw : w ∈ choice.candidates.map fun c => c.id.text)
    (h : Unreachable choice.candidates taken w) {unread : List Distribution}
    (hunread : ∀ d ∈ unread, Over choice.candidates d)
    (hlen : unread.length ≤ choice.candidates.length - taken.length) :
    answerOf .arithmeticMean (taken ++ unread) = some w := by
  obtain ⟨happend, happendover⟩ := over_append hne hover hunread
  have hcount : (taken ++ unread).length ≤ choice.candidates.length := by
    rw [List.length_append]
    omega
  have hpos : (0 : ℝ) < (taken ++ unread).length := by
    exact_mod_cast List.length_pos_of_ne_nil happend
  have hsum (k : String) : (column ((taken ++ unread).map massOf) k).sum =
      (column (taken.map massOf) k).sum + (column (unread.map massOf) k).sum := by
    rw [column_append, List.sum_append]
  have hlenle : (unread.length : ℝ) ≤ (choice.candidates.length - taken.length : Nat) := by
    exact_mod_cast hlen
  have hwsum := sum_column_bounds unread w
  have hmean := (standing_bounds happend w).1
  have hrival (k : String) (hk : k ∈ choice.candidates.map fun c => c.id.text) (hkw : k ≠ w) :
      standing .arithmeticMean (taken ++ unread) k =
        (column ((taken ++ unread).map massOf) k).sum / (taken ++ unread).length := by
    refine (standing_bounds happend k).2.1 ?_
    have hunreadprod := prod_unit (column_unit unread k)
    have htakenprod := prod_unit (column_unit taken k)
    rw [column_append, List.prod_append]
    calc (column (taken.map massOf) k).prod * (column (unread.map massOf) k).prod
        ≤ (column (taken.map massOf) k).prod := mul_le_of_le_one_right htakenprod.1 hunreadprod.2
      _ ≤ (1 / 2 ^ 52) ^ choice.candidates.length := h.denied k hk hkw
      _ ≤ (1 / 2 ^ 52) ^ (taken ++ unread).length :=
        pow_le_pow_of_le_one (by positivity) (by norm_num) hcount
  rw [answerOf_eq_some_iff choice.unique_texts happend happendover]
  refine ⟨hw, ?_, fun k hk hkw => ?_⟩
  · obtain ⟨k, hk, hkw⟩ := exists_other
      (hearly.trans_le' (Nat.succ_le_of_lt (List.length_pos_of_ne_nil hne))) w
    have hahead : (column (taken.map massOf) k).sum +
        (choice.candidates.length - taken.length : Nat) ≤ (column (taken.map massOf) w).sum :=
      (h.ahead k hk hkw).elim le_of_lt fun heq => heq.1.le
    have hrest : (0 : ℝ) < (choice.candidates.length - taken.length : Nat) := by
      exact_mod_cast Nat.sub_pos_of_lt hearly
    have hksum := sum_column_bounds taken k
    refine (div_pos ?_ hpos).trans_le hmean
    rw [hsum]
    linarith
  · rw [hrival k hk hkw]
    have hksum := sum_column_bounds unread k
    rcases h.ahead k hk hkw with hlt | ⟨heq, horder⟩
    · refine Or.inl (lt_of_lt_of_le (div_lt_div_of_pos_right ?_ hpos) hmean)
      rw [hsum, hsum]
      linarith
    · have hle : (column ((taken ++ unread).map massOf) k).sum / (taken ++ unread).length ≤
          standing .arithmeticMean (taken ++ unread) w := by
        refine (div_le_div_of_nonneg_right ?_ hpos.le).trans hmean
        rw [hsum, hsum]
        linarith
      exact (lt_or_eq_of_le hle).imp_right fun hsame => ⟨hsame, horder⟩

end Turning

section Runs

variable [RustStd] {readout : RotationReadout} {state : State} {choice : ChoiceQuestion}

end Runs

section Samples

/-- The power that the certificate of two reads takes, exact. -/
abbrev rootStd : RustStd := { plainStd with
  powf := fun x y => if x = 1 / 4 ∧ y = 1 / 2 then 1 / 2 else x }

attribute [local instance] rootStd

def mild : Distribution where
  entries := [⟨"left", 1 / 2⟩, ⟨"middle", 1 / 4⟩, ⟨"right", 1 / 4⟩]
  entries_ne := by simp
  unique := by decide
  unit := by decide +kernel
  normalized := by decide +kernel

end Samples

end EarlyExit

end RotationReadout

end OpenCodifier
