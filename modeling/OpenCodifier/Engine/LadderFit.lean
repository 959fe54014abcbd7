import OpenCodifier.Engine.Error
import OpenCodifier.Lib.Nearest
import OpenCodifier.Schema.PolicySerde
import Mathlib.Tactic.Ring
import Mathlib.Algebra.Order.Field.Basic
set_option autoImplicit false

namespace OpenCodifier

open Json F64

structure BooleanEvidence where
  pTrue : ℚ
  label : Bool
  deriving DecidableEq

structure BooleanThresholdFit where
  threshold : ℚ
  f1 : ℚ
  f1AtArgmax : ℚ
  samples : Nat
  deriving DecidableEq

namespace LadderFit

/-- The true positives, the false positives and the false negatives. -/
structure Confusion where
  tp : ℚ
  fp : ℚ
  fn : ℚ

def count (threshold : ℚ) (c : Confusion) (row : BooleanEvidence) : Confusion :=
  match decide (threshold ≤ row.pTrue), row.label with
  | true, true => { c with tp := c.tp + 1 }
  | true, false => { c with fp := c.fp + 1 }
  | false, true => { c with fn := c.fn + 1 }
  | false, false => c

def harmonicMean (precision recalled : ℚ) : ℚ :=
  nearest (nearest (nearest (2 * precision) * recalled) / nearest (precision + recalled))

/-- F1 on the true class. The counts of rows are small enough to be exact. -/
def f1At (evidence : List BooleanEvidence) (threshold : ℚ) : ℚ :=
  let c := evidence.foldl (count threshold) ⟨0, 0, 0⟩
  if c.tp ≤ 0 then 0
  else harmonicMean (nearest (c.tp / (c.tp + c.fp))) (nearest (c.tp / (c.tp + c.fn)))

def gridThreshold (step : Nat) : ℚ := nearest ((step + 50 : Nat) / 100)

def sweep (evidence : List BooleanEvidence) (best : Option (Nat × ℚ)) (step : Nat) :
    Option (Nat × ℚ) :=
  let f1 := f1At evidence (gridThreshold step)
  if best.all fun b => b.2 < f1 then some (step, f1) else best

/-- The sweep over the grid takes its upper end along. -/
def fitBooleanThreshold (evidence : List BooleanEvidence) : Option BooleanThresholdFit :=
  if evidence = [] then none
  else do
    let (step, f1) ← (List.range 51).foldl (sweep evidence) none
    some {
      threshold := gridThreshold step, f1
      f1AtArgmax := f1At evidence (1 / 2), samples := evidence.length }

def emitBooleanProfile [RustStd] (id : String) (fit : BooleanThresholdFit)
    (base : DecisionPolicy) : EngineResult Value :=
  if id = "" ∨ id = "none" then
    .error (.invalidConfig ("a ladder profile needs a non-empty id distinct from \"none\" (D25: " ++
      "the id decorates every cache key)"))
  else
    match base.withBooleanThreshold fit.threshold with
    | .error error => .error (.invalidConfig error.display)
    | .ok policy =>
      .ok (.struct [("id", some (.str id)),
        ("per_kind", some (.struct [("boolean", some policy.serialize)]))])

section Scores

variable (threshold : ℚ) (evidence : List BooleanEvidence)

def rows (predicted label : Bool) : Nat :=
  evidence.countP fun row => decide (threshold ≤ row.pTrue) == predicted && row.label == label

theorem foldl_count (c : Confusion) : evidence.foldl (count threshold) c =
    ⟨c.tp + rows threshold evidence true true, c.fp + rows threshold evidence true false,
      c.fn + rows threshold evidence false true⟩ := by
  induction evidence generalizing c with
  | nil => simp [rows]
  | cons row rest ih =>
    rw [List.foldl_cons, ih]
    by_cases hp : threshold ≤ row.pTrue <;> cases hl : row.label <;>
      simp [count, rows, hp, hl] <;> ring

theorem f1At_eq (h : 0 < rows threshold evidence true true) : f1At evidence threshold =
    harmonicMean
      (nearest (rows threshold evidence true true /
        (rows threshold evidence true true + rows threshold evidence true false)))
      (nearest (rows threshold evidence true true /
        (rows threshold evidence true true + rows threshold evidence false true))) := by
  have hpos : ¬ (rows threshold evidence true true : ℚ) ≤ 0 := by
    rw [not_le]
    exact_mod_cast h
  rw [f1At, foldl_count]
  simp only [zero_add, hpos, if_false]

variable {p r : ℚ}

theorem quarter_le_harmonicMean (hp : 1 / 2 ≤ p ∧ p ≤ 1) (hr : 1 / 2 ≤ r ∧ r ≤ 1) :
    1 / 4 ≤ harmonicMean p r := by
  have hdouble : 1 ≤ nearest (2 * p) := le_nearest 0 (by norm_num) (by linarith)
  have hproduct : 1 / 2 ≤ nearest (nearest (2 * p) * r) :=
    le_nearest (-1) (by norm_num) (by nlinarith)
  have hlow : 1 ≤ nearest (p + r) := le_nearest 0 (by norm_num) (by linarith)
  have hhigh : nearest (p + r) ≤ 2 := nearest_le 1 (by norm_num) (by linarith) (by linarith)
  refine le_nearest (-2) (by norm_num) ?_
  rw [le_div_iff₀ (by linarith)]
  linarith

theorem harmonicMean_le_eighth (hp : 0 ≤ p ∧ p ≤ 1) (hr : 0 ≤ r ∧ r ≤ 1)
    (hsmall : p ≤ 1 / 32 ∨ r ≤ 1 / 32) (hsum : 1 / 2 ≤ p + r) : harmonicMean p r ≤ 1 / 8 := by
  have hdouble : 0 ≤ nearest (2 * p) := nearest_nonneg (by linarith)
  have hnonneg := mul_nonneg hdouble hr.1
  have hproduct : nearest (nearest (2 * p) * r) ≤ 1 / 16 := by
    refine nearest_le (-4) (by norm_num) hnonneg ?_
    rcases hsmall with hsmall | hsmall
    · have hle : nearest (2 * p) ≤ 1 / 16 :=
        nearest_le (-4) (by norm_num) (by linarith) (by linarith)
      nlinarith
    · have hle : nearest (2 * p) ≤ 2 := nearest_le 1 (by norm_num) (by linarith) (by linarith)
      nlinarith
  have hdenominator : 1 / 2 ≤ nearest (p + r) := le_nearest (-1) (by norm_num) hsum
  refine nearest_le (-3) (by norm_num) (div_nonneg (nearest_nonneg hnonneg) (by linarith)) ?_
  rw [div_le_iff₀ (by linarith)]
  linarith

end Scores

section Sweep

variable (evidence : List BooleanEvidence)

theorem foldl_sweep (n : Nat) : ∃ step,
    (List.range (n + 1)).foldl (sweep evidence) none =
        some (step, f1At evidence (gridThreshold step)) ∧ step ≤ n ∧
      (∀ k ≤ n, f1At evidence (gridThreshold k) ≤ f1At evidence (gridThreshold step)) ∧
      ∀ k < step, f1At evidence (gridThreshold k) < f1At evidence (gridThreshold step) := by
  induction n with
  | zero =>
    refine ⟨0, rfl, le_rfl, fun k hk => ?_, fun k hk => by omega⟩
    rw [Nat.le_zero.mp hk]
  | succ n ih =>
    obtain ⟨step, hfold, hle, hmax, hfirst⟩ := ih
    rw [List.range_succ, List.foldl_append, hfold]
    simp only [List.foldl_cons, List.foldl_nil, sweep, Option.all_some, decide_eq_true_eq]
    by_cases hbetter : f1At evidence (gridThreshold step) < f1At evidence (gridThreshold (n + 1))
    · rw [if_pos hbetter]
      refine ⟨n + 1, rfl, le_rfl, fun k hk => ?_, fun k hk => ?_⟩
      · rcases Nat.lt_or_eq_of_le hk with hk | rfl
        · exact ((hmax k (by omega)).trans_lt hbetter).le
        · exact le_rfl
      · exact (hmax k (by omega)).trans_lt hbetter
    · rw [if_neg hbetter]
      refine ⟨step, rfl, by omega, fun k hk => ?_, hfirst⟩
      rcases Nat.lt_or_eq_of_le hk with hk | rfl
      · exact hmax k (by omega)
      · exact not_lt.mp hbetter

theorem fitBooleanThreshold_eq (h : evidence ≠ []) : ∃ step ≤ 50,
    fitBooleanThreshold evidence = some ⟨gridThreshold step, f1At evidence (gridThreshold step),
        f1At evidence (1 / 2), evidence.length⟩ ∧
      (∀ k ≤ 50, f1At evidence (gridThreshold k) ≤ f1At evidence (gridThreshold step)) ∧
      ∀ k < step, f1At evidence (gridThreshold k) < f1At evidence (gridThreshold step) := by
  obtain ⟨step, hfold, hle, hmax, hfirst⟩ := foldl_sweep evidence 50
  refine ⟨step, hle, ?_, hmax, hfirst⟩
  rw [fitBooleanThreshold, if_neg h, hfold]
  rfl

theorem fitBooleanThreshold_spec (h : evidence ≠ []) : ∃ step fit,
    fitBooleanThreshold evidence = some fit ∧ fit.threshold = gridThreshold step ∧ step ≤ 50 ∧
      (∀ k ≤ 50, f1At evidence (gridThreshold k) ≤ f1At evidence (gridThreshold step)) ∧
      ∀ k < step, f1At evidence (gridThreshold k) < f1At evidence (gridThreshold step) := by
  obtain ⟨step, hle, hfit, hmax, hfirst⟩ := fitBooleanThreshold_eq evidence h
  exact ⟨step, _, hfit, rfl, hle, hmax, hfirst⟩

end Sweep

section Grid

theorem gridThreshold_bounds : ∀ k < 51, (gridThreshold k ≤ 1 / 2 ↔ k = 0) ∧
    0 ≤ gridThreshold k ∧ gridThreshold k ≤ 1 ∧ (gridThreshold k < 1 ↔ k < 50) := by
  decide +kernel

@[simp] theorem gridThreshold_zero : gridThreshold 0 = 1 / 2 := by decide +kernel

end Grid

section Moves

variable (evidence : List BooleanEvidence) {threshold : ℚ}

/-- True rows at the upper end of the grid, and many more rows of one label at its lower end. -/
def pull (label : Bool) (n : Nat) : List BooleanEvidence :=
  List.replicate (n + 1) ⟨1, true⟩ ++ List.replicate (62 * (n + 1)) ⟨1 / 2, label⟩

theorem rows_le (threshold : ℚ) (predicted label : Bool) :
    rows threshold evidence predicted label ≤ evidence.length := List.countP_le_length

theorem rows_pull (hle : threshold ≤ 1) (pulled : Bool) (n : Nat) (predicted label : Bool) :
    rows threshold (evidence ++ pull pulled n) predicted label =
      rows threshold evidence predicted label +
        ((if predicted && label then n + 1 else 0) +
          if decide (threshold ≤ 1 / 2) == predicted && pulled == label then 62 * (n + 1) else 0) := by
  rw [rows, rows, pull, List.countP_append, List.countP_append, List.countP_replicate,
    List.countP_replicate]
  cases predicted <;> cases label <;> simp [hle]

theorem ratio_bounds {tp other : Nat} (h : 0 < tp) (hle : other ≤ tp) :
    1 / 2 ≤ nearest ((tp : ℚ) / (tp + other)) ∧ nearest ((tp : ℚ) / (tp + other)) ≤ 1 := by
  have htp : (0 : ℚ) < tp := by exact_mod_cast h
  have hother : (other : ℚ) ≤ tp := by exact_mod_cast hle
  have hnonneg : (0 : ℚ) ≤ other := Nat.cast_nonneg other
  constructor
  · refine le_nearest (-1) (by norm_num) ?_
    rw [le_div_iff₀ (by linarith)]
    linarith
  · refine nearest_le 0 (by norm_num) (by positivity) ?_
    rw [div_le_iff₀ (by linarith)]
    linarith

theorem ratio_small {tp other : Nat} (h : 0 < tp) (hle : 31 * tp ≤ other) :
    0 ≤ nearest ((tp : ℚ) / (tp + other)) ∧ nearest ((tp : ℚ) / (tp + other)) ≤ 1 / 32 := by
  have htp : (0 : ℚ) < tp := by exact_mod_cast h
  have hother : (31 * tp : ℚ) ≤ other := by exact_mod_cast hle
  refine ⟨nearest_nonneg (by positivity), nearest_le (-5) (by norm_num) (by positivity) ?_⟩
  rw [div_le_iff₀ (by linarith)]
  linarith

theorem quarter_le_f1At (h : 0 < rows threshold evidence true true)
    (hfp : rows threshold evidence true false ≤ rows threshold evidence true true)
    (hfn : rows threshold evidence false true ≤ rows threshold evidence true true) :
    1 / 4 ≤ f1At evidence threshold := by
  rw [f1At_eq threshold evidence h]
  exact quarter_le_harmonicMean (ratio_bounds h hfp) (ratio_bounds h hfn)

theorem f1At_le_eighth (h : 0 < rows threshold evidence true true)
    (hfew : (31 * rows threshold evidence true true ≤ rows threshold evidence true false ∧
        rows threshold evidence false true ≤ rows threshold evidence true true) ∨
      (31 * rows threshold evidence true true ≤ rows threshold evidence false true ∧
        rows threshold evidence true false ≤ rows threshold evidence true true)) :
    f1At evidence threshold ≤ 1 / 8 := by
  rw [f1At_eq threshold evidence h]
  rcases hfew with ⟨hfew, hle⟩ | ⟨hfew, hle⟩
  · have hsmall := ratio_small h hfew
    have hrest := ratio_bounds h hle
    exact harmonicMean_le_eighth ⟨hsmall.1, by linarith⟩ ⟨by linarith, hrest.2⟩ (.inl hsmall.2)
      (by linarith)
  · have hsmall := ratio_small h hfew
    have hrest := ratio_bounds h hle
    exact harmonicMean_le_eighth ⟨by linarith, hrest.2⟩ ⟨hsmall.1, by linarith⟩ (.inr hsmall.2)
      (by linarith)

section Ends

variable {evidence}

theorem rows_above (hle : threshold ≤ 1) (hhigh : ¬ threshold ≤ 1 / 2) (pulled : Bool) :
    let pulledRows := evidence ++ pull pulled evidence.length
    rows threshold pulledRows true true = rows threshold evidence true true +
        (evidence.length + 1) ∧
      rows threshold pulledRows true false = rows threshold evidence true false ∧
      rows threshold pulledRows false true = rows threshold evidence false true +
        if pulled then 62 * (evidence.length + 1) else 0 := by
  simp only [rows_pull evidence hle, hhigh, decide_false]
  cases pulled <;> simp

theorem rows_below (hlow : threshold ≤ 1 / 2) (pulled : Bool) :
    let pulledRows := evidence ++ pull pulled evidence.length
    rows threshold pulledRows true true = rows threshold evidence true true +
        ((evidence.length + 1) + if pulled then 62 * (evidence.length + 1) else 0) ∧
      rows threshold pulledRows true false = rows threshold evidence true false +
        (if pulled then 0 else 62 * (evidence.length + 1)) ∧
      rows threshold pulledRows false true = rows threshold evidence false true := by
  simp only [rows_pull evidence (hlow.trans (by norm_num)), hlow, decide_true]
  cases pulled <;> simp

end Ends

theorem f1At_lowered {k : Nat} (hk : k < 51) :
    f1At (evidence ++ pull true evidence.length) (gridThreshold k) ≤
      f1At (evidence ++ pull true evidence.length) (gridThreshold 0) := by
  rcases Nat.eq_zero_or_pos k with rfl | hpos
  · exact le_rfl
  obtain ⟨hzero, -, hle, -⟩ := gridThreshold_bounds k hk
  have hhigh : ¬ gridThreshold k ≤ 1 / 2 := by
    rw [hzero]
    omega
  obtain ⟨htp, hfp, hfn⟩ := @rows_above evidence _ hle hhigh true
  obtain ⟨htp', hfp', hfn'⟩ := @rows_below evidence _ gridThreshold_zero.le true
  rw [if_pos rfl] at hfn htp' hfp'
  have htpLe := rows_le evidence (gridThreshold k) true true
  have hfpLe := rows_le evidence (gridThreshold k) true false
  have hfpLe' := rows_le evidence (gridThreshold 0) true false
  have hfnLe' := rows_le evidence (gridThreshold 0) false true
  have hworse : f1At (evidence ++ pull true evidence.length) (gridThreshold k) ≤ 1 / 8 :=
    f1At_le_eighth _ (by omega) (.inr ⟨by omega, by omega⟩)
  have hbest : 1 / 4 ≤ f1At (evidence ++ pull true evidence.length) (gridThreshold 0) :=
    quarter_le_f1At _ (by omega) (by omega) (by omega)
  linarith

theorem f1At_raised : f1At (evidence ++ pull false evidence.length) (gridThreshold 0) <
    f1At (evidence ++ pull false evidence.length) (gridThreshold 1) := by
  obtain ⟨hone, -, hle, -⟩ := gridThreshold_bounds 1 (by norm_num)
  have hhigh : ¬ gridThreshold 1 ≤ 1 / 2 := by
    rw [hone]
    omega
  obtain ⟨htp, hfp, hfn⟩ := @rows_above evidence _ hle hhigh false
  obtain ⟨htp', hfp', hfn'⟩ := @rows_below evidence _ gridThreshold_zero.le false
  rw [if_neg Bool.false_ne_true] at hfn htp' hfp'
  have hfpLe := rows_le evidence (gridThreshold 1) true false
  have hfnLe := rows_le evidence (gridThreshold 1) false true
  have htpLe' := rows_le evidence (gridThreshold 0) true true
  have hfnLe' := rows_le evidence (gridThreshold 0) false true
  have hworse : f1At (evidence ++ pull false evidence.length) (gridThreshold 0) ≤ 1 / 8 :=
    f1At_le_eighth _ (by omega) (.inl ⟨by omega, by omega⟩)
  have hbest : 1 / 4 ≤ f1At (evidence ++ pull false evidence.length) (gridThreshold 1) :=
    quarter_le_f1At _ (by omega) (by omega) (by omega)
  linarith

theorem fit_lowered : ∃ fit,
    fitBooleanThreshold (evidence ++ pull true evidence.length) = some fit ∧
      fit.threshold = 1 / 2 := by
  obtain ⟨step, fit, hfit, hthreshold, hstep, -, hfirst⟩ :=
    fitBooleanThreshold_spec (evidence ++ pull true evidence.length) (by simp [pull])
  refine ⟨fit, hfit, ?_⟩
  rcases Nat.eq_zero_or_pos step with rfl | hpos
  · rw [hthreshold, gridThreshold_zero]
  · exact absurd (hfirst 0 hpos) (not_lt.mpr (f1At_lowered evidence (by omega)))

theorem fit_raised : ∃ fit,
    fitBooleanThreshold (evidence ++ pull false evidence.length) = some fit ∧
      fit.threshold ≠ 1 / 2 := by
  obtain ⟨step, fit, hfit, hthreshold, hstep, hmax, -⟩ :=
    fitBooleanThreshold_spec (evidence ++ pull false evidence.length) (by simp [pull])
  refine ⟨fit, hfit, fun hhalf => ?_⟩
  have hzero : step = 0 :=
    (gridThreshold_bounds step (by omega)).1.mp (hthreshold ▸ hhalf.le)
  have hle := hmax 1 (by omega)
  rw [hzero] at hle
  exact absurd (f1At_raised evidence) (not_lt.mpr hle)

end Moves

end LadderFit

end OpenCodifier
