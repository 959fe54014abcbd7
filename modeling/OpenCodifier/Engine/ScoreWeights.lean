import Mathlib.Algebra.BigOperators.Ring.List
import OpenCodifier.Engine.Levels
import OpenCodifier.Lib.Tally
set_option autoImplicit false

namespace OpenCodifier

namespace ScoreQuestion

def labels (q : ScoreQuestion) : List String := q.levels.map ScoreLevel.label

theorem labels_unique (q : ScoreQuestion) : q.labels.Nodup := q.unique

def levelMean (q : ScoreQuestion) (d : Distribution) : ℚ :=
  (q.labels.zipIdx.map fun level => (d.probabilityOf level.1).getD 0 * (level.2 : ℚ)).sum

/-- How far the entries of a distribution stand from their levels' positions, each weighed by its
probability. -/
def displaced (q : ScoreQuestion) (d : Distribution) : ℚ :=
  (d.entries.zipIdx.map fun e =>
    e.1.probability * ((e.2 : ℚ) - (q.labels.idxOf e.1.key : ℚ))).sum

end ScoreQuestion

def OverLevels (q : ScoreQuestion) (d : Distribution) : Prop := ∀ e ∈ d.entries, e.key ∈ q.labels

instance (q : ScoreQuestion) (d : Distribution) : Decidable (OverLevels q d) :=
  inferInstanceAs (Decidable (∀ e ∈ d.entries, _))

section Means

variable {q : ScoreQuestion} {d : Distribution}

theorem probabilityOf_share (d : Distribution) (key : String) :
    (d.probabilityOf key).getD 0 =
      Tally.share (d.entries.map fun e => (e.key, e.probability)) key := by
  by_cases h : ∃ e ∈ d.entries, e.key = key
  · obtain ⟨e, he, rfl⟩ := h
    have hn : ((d.entries.map fun e => (e.key, e.probability)).map Prod.fst).Nodup := by
      rw [List.map_map]
      exact d.unique
    rw [Distribution.probabilityOf_of_mem he, Option.getD_some,
      Tally.share_of_mem hn (List.mem_map.mpr ⟨e, he, rfl⟩)]
  · have hfind : d.entries.find? (fun e => e.key = key) = none :=
      List.find?_eq_none.mpr (by simpa using h)
    rw [Tally.share_of_notMem (by simpa using h), Distribution.probabilityOf, hfind]
    rfl

theorem idxOf_of_mem_zipIdx {l : List String} (hn : l.Nodup) {p : String × Nat}
    (hp : p ∈ l.zipIdx) : l.idxOf p.1 = p.2 := by
  obtain ⟨hlt, hget⟩ := List.getElem?_eq_some_iff.mp (List.mem_zipIdx_iff_getElem?.mp hp)
  rw [← hget, hn.idxOf_getElem]

theorem levelMean_eq (h : OverLevels q d) : q.levelMean d =
    (d.entries.map fun e => e.probability * (q.labels.idxOf e.key : ℚ)).sum := by
  have hplaces : (q.labels.zipIdx.map fun level =>
      (d.probabilityOf level.1).getD 0 * (level.2 : ℚ)) =
      q.labels.map fun label => (d.probabilityOf label).getD 0 * (q.labels.idxOf label : ℚ) := by
    conv_rhs => rw [← List.zipIdx_map_fst 0 q.labels, List.map_map]
    refine List.map_congr_left fun level hlevel => ?_
    rw [Function.comp_apply, List.zipIdx_map_fst, idxOf_of_mem_zipIdx q.labels_unique hlevel]
  rw [ScoreQuestion.levelMean, hplaces]
  simp only [probabilityOf_share]
  rw [@Tally.sum_share_mul _ _ _ _ q.labels q.labels_unique _ (by simpa [OverLevels] using h)
    fun label => (q.labels.idxOf label : ℚ), List.map_map]
  rfl

theorem expectedValue_eq (h : OverLevels q d) :
    expectedValue d = q.levelMean d + q.displaced d := by
  have hmean : q.levelMean d = (d.entries.zipIdx.map fun e =>
      e.1.probability * (q.labels.idxOf e.1.key : ℚ)).sum := by
    conv_lhs => rw [levelMean_eq h, ← List.zipIdx_map_fst 0 d.entries, List.map_map]
    rfl
  rw [hmean, ScoreQuestion.displaced, ← List.sum_map_add, expectedValue]
  refine congrArg List.sum (List.map_congr_left fun e _ => ?_)
  ring

end Means

section Rescaling

variable {q : ScoreQuestion}

def total (d : Distribution) : ℚ := (d.entries.map DistributionEntry.probability).sum

theorem total_pos (d : Distribution) : 0 < total d := by
  have h := abs_le.mp d.normalized
  have htolerance : sumTolerance < 1 := by norm_num [sumTolerance]
  rw [total]
  linarith

def rescaled (d : Distribution) : Distribution where
  entries := d.entries.map fun e => ⟨e.key, e.probability / total d⟩
  entries_ne := by simpa using d.entries_ne
  unique := by simpa [Function.comp_def] using d.unique
  unit := by
    intro e he
    obtain ⟨e', he', rfl⟩ := List.mem_map.mp he
    have hle : e'.probability ≤ total d :=
      List.single_le_sum (by
        intro p hp
        obtain ⟨e, he, rfl⟩ := List.mem_map.mp hp
        exact (d.unit e he).1) _ (List.mem_map_of_mem he')
    exact ⟨div_nonneg (d.unit e' he').1 (total_pos d).le, (div_le_one (total_pos d)).mpr hle⟩
  normalized := by
    have hsum : (d.entries.map fun e => e.probability * (total d)⁻¹).sum = 1 := by
      rw [List.sum_map_mul_right]
      exact mul_inv_cancel₀ (total_pos d).ne'
    simp only [List.map_map, Function.comp_def, div_eq_mul_inv, hsum, sub_self, abs_zero]
    norm_num [sumTolerance]

theorem displaced_rescaled (d : Distribution) :
    q.displaced (rescaled d) = q.displaced d * (total d)⁻¹ := by
  rw [ScoreQuestion.displaced, ScoreQuestion.displaced, rescaled, List.zipIdx_map,
    ← List.sum_map_mul_right, List.map_map]
  refine congrArg List.sum (List.map_congr_left fun e _ => ?_)
  simp only [Function.comp_apply, Prod.map, id]
  ring

end Rescaling

section Layouts

variable {q : ScoreQuestion} {d : Distribution}

theorem displaced_of_first (h : d.entries.map DistributionEntry.key <+: q.labels) :
    q.displaced d = 0 := by
  refine List.sum_eq_zero fun x hx => ?_
  obtain ⟨⟨e, i⟩, he, rfl⟩ := List.mem_map.mp hx
  have hkey : (d.entries.map DistributionEntry.key)[i]? = some e.key := by
    rw [List.getElem?_map, List.mem_zipIdx_iff_getElem?.mp he]
    rfl
  obtain ⟨rest, hrest⟩ := h
  have hlabel : q.labels[i]? = some e.key := by
    rw [← hrest, List.getElem?_append_left (List.getElem?_eq_some_iff.mp hkey).1, hkey]
  have hplace : q.labels.idxOf e.key = i :=
    @idxOf_of_mem_zipIdx q.labels q.labels_unique (e.key, i)
      (List.mem_zipIdx_iff_getElem?.mpr hlabel)
  rw [hplace, sub_self, mul_zero]

theorem sum_only {keys : List String} (hn : keys.Nodup) {key : String} (h : key ∈ keys)
    (f : String → ℚ) : (keys.map fun k => if k = key then f k else 0).sum = f key := by
  rw [List.sum_map_eq_nsmul_single key _ fun k hk _ => if_neg hk, List.count_eq_one_of_mem hn h,
    one_nsmul, if_pos rfl]

def certain (d : Distribution) (key : String) (h : key ∈ d.entries.map DistributionEntry.key) :
    Distribution where
  entries := d.entries.map fun e => ⟨e.key, if e.key = key then 1 else 0⟩
  entries_ne := by simpa using d.entries_ne
  unique := by simpa [Function.comp_def] using d.unique
  unit := by
    intro e he
    obtain ⟨e', -, rfl⟩ := List.mem_map.mp he
    dsimp only
    split <;> norm_num
  normalized := by
    have hsum : (d.entries.map fun e => if e.key = key then (1 : ℚ) else 0).sum = 1 := by
      have honly := sum_only d.unique h fun _ => 1
      rwa [List.map_map] at honly
    rw [List.map_map]
    change |(d.entries.map fun e => if e.key = key then (1 : ℚ) else 0).sum - 1| ≤ sumTolerance
    rw [hsum]
    norm_num [sumTolerance]

theorem certain_keys {key : String} (h : key ∈ d.entries.map DistributionEntry.key) :
    (certain d key h).entries.map DistributionEntry.key = d.entries.map DistributionEntry.key := by
  simp [certain, Function.comp_def]

theorem displaced_eq (q : ScoreQuestion) (d : Distribution) :
    q.displaced d = (d.entries.map fun e => e.probability *
      (((d.entries.map DistributionEntry.key).idxOf e.key : ℚ) -
        (q.labels.idxOf e.key : ℚ))).sum := by
  conv_rhs => rw [← List.zipIdx_map_fst 0 d.entries, List.map_map]
  refine congrArg List.sum (List.map_congr_left fun p hp => ?_)
  have hplace : (d.entries.map DistributionEntry.key).idxOf p.1.key = p.2 := by
    refine @idxOf_of_mem_zipIdx _ d.unique (p.1.key, p.2) (List.mem_zipIdx_iff_getElem?.mpr ?_)
    rw [List.getElem?_map, List.mem_zipIdx_iff_getElem?.mp hp]
    rfl
  rw [Function.comp_apply, List.zipIdx_map_fst, hplace]

theorem displaced_certain {key : String} (h : key ∈ d.entries.map DistributionEntry.key) :
    q.displaced (certain d key h) =
      ((d.entries.map DistributionEntry.key).idxOf key : ℚ) - (q.labels.idxOf key : ℚ) := by
  have honly := sum_only d.unique h fun k =>
    ((d.entries.map DistributionEntry.key).idxOf k : ℚ) - (q.labels.idxOf k : ℚ)
  rw [displaced_eq, certain_keys h, ← honly, certain, List.map_map, List.map_map]
  refine congrArg List.sum (List.map_congr_left fun e _ => ?_)
  simp only [Function.comp_apply, ite_mul, one_mul, zero_mul]

end Layouts

section Clipping

variable [RustStd] {q : ScoreQuestion} {d : Distribution}

/-- A classifier's distribution is clipped and decided, and the answer weighs the levels by their
positions in the question. -/
def WeighsByLevel (q : ScoreQuestion) (d : Distribution) : Prop :=
  ∃ clipped count, clip d (.score q) = .ok (clipped, count) ∧
    ∀ policy calibration decidedBy kind support, ∃ decision confidence,
      decideQuestion (.score q) clipped policy calibration decidedBy kind support = .ok decision ∧
      decision.answer = .score q.id (q.levelMean clipped)
        (q.levelFor (q.levelMean clipped)).label clipped confidence

theorem clip_over (h : OverLevels q d) : clip d (.score q) = .ok (rescaled d, 0) := by
  have hkept : d.entries.filter (fun e => e.key ∈ allowedKeys (.score q)) = d.entries :=
    List.filter_eq_self.mpr fun e he => decide_eq_true (h e he)
  have hnew : Distribution.fromPairs (clipPairs d.entries) = .ok (rescaled d) := by
    have hpairs : clipPairs d.entries = d.entries.map fun e => (e.key, e.probability / total d) :=
      if_neg (not_le.mpr (total_pos d))
    rw [hpairs, Distribution.fromPairs, List.map_map]
    exact Distribution.new_self (rescaled d)
  simp only [clip, hkept, if_neg d.entries_ne, hnew, Nat.sub_self]

theorem decideQuestion_score (q : ScoreQuestion) (d : Distribution) (policy : DecisionPolicy)
    (calibration : Calibration) (decidedBy : String) (kind : NodeKind) (support : Option ℚ) :
    ∃ decision confidence,
      decideQuestion (.score q) d policy calibration decidedBy kind support = .ok decision ∧
      decision.answer =
        .score q.id (expectedValue d) (q.levelFor (expectedValue d)).label d confidence :=
  ⟨_, _, rfl, rfl⟩

/-- The answer weighs the levels by their positions exactly when the displacements cancel. -/
theorem weighs_iff_displaced (h : OverLevels q d) : WeighsByLevel q d ↔ q.displaced d = 0 := by
  have hover : OverLevels q (rescaled d) := by
    intro e he
    obtain ⟨e', he', rfl⟩ := List.mem_map.mp he
    exact h e' he'
  have hmean := expectedValue_eq hover
  rw [displaced_rescaled] at hmean
  have hinv : (total d)⁻¹ ≠ 0 := inv_ne_zero (total_pos d).ne'
  constructor
  · rintro ⟨clipped, count, hclip, hdecide⟩
    rw [clip_over h] at hclip
    cases hclip
    obtain ⟨decision, confidence, hok, hanswer⟩ :=
      hdecide .defaults identityCalibration "" .score none
    obtain ⟨decision', confidence', hok', hanswer'⟩ :=
      decideQuestion_score q (rescaled d) .defaults identityCalibration "" .score none
    rw [hok] at hok'
    cases hok'
    rw [hanswer] at hanswer'
    injection hanswer' with _ hexpected
    rw [← hexpected, left_eq_add] at hmean
    exact (mul_eq_zero.mp hmean).resolve_right hinv
  · intro hzero
    rw [hzero, zero_mul, add_zero] at hmean
    refine ⟨rescaled d, 0, clip_over h, fun policy calibration decidedBy kind support => ?_⟩
    rw [← hmean]
    exact decideQuestion_score q _ policy calibration decidedBy kind support

/-- The levels are weighed by their positions whatever the probabilities of the entries exactly when
the entries are the first levels in order. -/
theorem weighs_iff_prefix (h : OverLevels q d) :
    (∀ d' : Distribution, d'.entries.map DistributionEntry.key =
        d.entries.map DistributionEntry.key → WeighsByLevel q d') ↔
      d.entries.map DistributionEntry.key <+: q.labels := by
  have hover {d' : Distribution} (hkeys : d'.entries.map DistributionEntry.key =
      d.entries.map DistributionEntry.key) : OverLevels q d' := by
    intro e he
    have hmem : e.key ∈ d.entries.map DistributionEntry.key := hkeys ▸ List.mem_map_of_mem he
    obtain ⟨e', he', hkey⟩ := List.mem_map.mp hmem
    exact hkey ▸ h e' he'
  constructor
  · intro hall
    rw [List.prefix_iff_getElem?]
    intro i hi
    set key := (d.entries.map DistributionEntry.key)[i] with hkey
    have hmem : key ∈ d.entries.map DistributionEntry.key := List.getElem_mem hi
    have hkeys := certain_keys hmem
    have hzero := (weighs_iff_displaced (hover hkeys)).mp (hall _ hkeys)
    rw [displaced_certain, sub_eq_zero, Nat.cast_inj, hkey, d.unique.idxOf_getElem] at hzero
    obtain ⟨e, he, hlabel⟩ := List.mem_map.mp hmem
    have hin : key ∈ q.labels := hlabel ▸ h e he
    have hget := List.getElem?_eq_getElem (List.idxOf_lt_length_of_mem hin)
    rw [List.getElem_idxOf, ← hzero] at hget
    exact hget
  · intro hprefix d' hkeys
    exact (weighs_iff_displaced (hover hkeys)).mpr (displaced_of_first (hkeys ▸ hprefix))

/-- The expected value and the level of a score answer are those of the question's positions exactly
when the displacements of the entries cancel; for all probabilities on the same labels, exactly when
these are the first levels in the question's order. -/
theorem score_weights_iff (h : OverLevels q d) :
    (WeighsByLevel q d ↔ q.displaced d = 0) ∧
      ((∀ d' : Distribution, d'.entries.map DistributionEntry.key =
          d.entries.map DistributionEntry.key → WeighsByLevel q d') ↔
        d.entries.map DistributionEntry.key <+: q.labels) :=
  ⟨weighs_iff_displaced h, weighs_iff_prefix h⟩

end Clipping

section Sample

attribute [local instance] plainStd

def difficulty : ScoreQuestion where
  id := ⟨"difficulty", by decide⟩
  text := "how hard is it"
  levels := [⟨"easy", by decide⟩, ⟨"hard", by decide⟩]
  text_ne := by decide
  two_levels := by decide
  unique := by decide

def bothLevels : Distribution := Sample.distribution [("easy", 1 / 4), ("hard", 3 / 4)]

def hardOnly : Distribution := Sample.distribution [("hard", 1)]

theorem score_weights_ordered : WeighsByLevel difficulty bothLevels :=
  ((score_weights_iff (by decide +kernel)).1).mpr (by decide +kernel)

/-- The certain second level is answered as the first. -/
theorem score_weights_thinned :
    (decideQuestion (.score difficulty) hardOnly .defaults identityCalibration "judge" .score
        none).toOption.map QuestionDecision.answer =
      some (.score difficulty.id 0 "easy" hardOnly 1) ∧
    ¬ WeighsByLevel difficulty hardOnly :=
  ⟨by decide +kernel, (weighs_iff_displaced (by decide +kernel)).not.mpr (by decide +kernel)⟩

end Sample

end OpenCodifier
