import Mathlib.Analysis.SpecialFunctions.Pow.Real
import OpenCodifier.Engine.Ladder
import OpenCodifier.Lib.Prorata
set_option autoImplicit false

namespace OpenCodifier

section Readouts

variable {K : Type} [Field K] [LinearOrder K] (pow : K → K → K)

def weightOver (temperature p : K) : K := if 0 < p then pow p (1 / temperature) else 0

def rescaleOver (entries : List (String × K)) (temperature : K) : List (String × K) :=
  let rescaled := entries.map fun e => (e.1, weightOver pow temperature e.2)
  let total := (rescaled.map Prod.snd).sum
  if total ≤ 0 then entries else rescaled.map fun e => (e.1, e.2 / total)

def calibrateOver (entries : List (String × K)) (top : String × K) (temperature : K) : K :=
  match (rescaleOver pow entries temperature).find? fun e => e.1 = top.1 with
  | some e => e.2
  | none => top.2

def calibrateProbabilityOver (temperature p : K) : K :=
  let total := weightOver pow temperature p + weightOver pow temperature (1 - p)
  if total ≤ 0 then p else weightOver pow temperature p / total

end Readouts

section Rational

variable [RustStd]

def DistributionEntry.pair (e : DistributionEntry) : String × ℚ := (e.key, e.probability)

theorem rescaleOver_rat (d : Distribution) (temperature : ℚ) :
    rescaleOver RustStd.powf (d.entries.map DistributionEntry.pair) temperature =
      TemperatureCalibration.rescale d temperature := by
  simp only [rescaleOver, TemperatureCalibration.rescale, List.map_map]
  rfl

/-- The calibration of the engine is this one over the rationals. -/
theorem calibration_rat (t : TemperatureCalibration) (cls : String) :
    (∀ d, t.calibration.calibrate cls d =
      calibrateOver RustStd.powf (d.entries.map DistributionEntry.pair) d.top.pair
        (t.temperatureFor cls)) ∧
      ∀ p, t.calibration.calibrateProbability cls p =
        calibrateProbabilityOver RustStd.powf (t.temperatureFor cls) p := by
  refine ⟨fun d => ?_, fun p => rfl⟩
  rw [calibrateOver, rescaleOver_rat]
  have hkey : (fun e : String × ℚ => decide (e.1 = d.top.pair.1)) =
    fun e => decide (e.1 = d.top.key) := rfl
  simp only [TemperatureCalibration.calibration]
  rw [hkey]
  cases (TemperatureCalibration.rescale d (t.temperatureFor cls)).find?
    fun e => e.1 = d.top.key <;> rfl

end Rational

theorem find?_entry {K : Type} {entries : List (String × K)}
    (hn : (entries.map Prod.fst).Nodup) {e : String × K} (he : e ∈ entries) :
    entries.find? (fun f => f.1 = e.1) = some e := by
  cases hfind : entries.find? (fun f => f.1 = e.1) with
  | none => exact absurd (decide_eq_true rfl) (List.find?_eq_none.mp hfind e he)
  | some f =>
    have hkey : f.1 = e.1 := by simpa using List.find?_some hfind
    rw [List.inj_on_of_nodup_map hn (List.mem_of_find?_eq_some hfind) he hkey]

section Laws

variable {K : Type} [Field K] [LinearOrder K]

/-- What the map relies on of a power function: positive, and strictly
increasing in its base. -/
structure PowerLaws (pow : K → K → K) : Prop where
  pos : ∀ p x, 0 < p → 0 < x → 0 < pow p x
  strict : ∀ p q x, 0 < p → p < q → 0 < x → pow p x < pow q x

variable [IsStrictOrderedRing K] {pow : K → K → K} (laws : PowerLaws pow) {temperature : K}
  (hT : 0 < temperature)
include laws hT

theorem weightOver_pos {p : K} (hp : 0 < p) : 0 < weightOver pow temperature p := by
  rw [weightOver, if_pos hp]
  exact laws.pos p _ hp (one_div_pos.mpr hT)

theorem weightOver_lt {p q : K} (h : p < q) (hq : 0 < q) :
    weightOver pow temperature p < weightOver pow temperature q := by
  by_cases hp : 0 < p
  · rw [weightOver, weightOver, if_pos hp, if_pos hq]
    exact laws.strict p q _ hp h (one_div_pos.mpr hT)
  · have hpos := weightOver_pos laws hT hq
    rwa [weightOver, if_neg hp]

theorem weightOver_nonneg (p : K) : 0 ≤ weightOver pow temperature p := by
  by_cases hp : 0 < p
  · exact (weightOver_pos laws hT hp).le
  · rw [weightOver, if_neg hp]

theorem weightOver_le_iff {p q : K} (hp : 0 ≤ p) (hq : 0 ≤ q) :
    weightOver pow temperature p ≤ weightOver pow temperature q ↔ p ≤ q := by
  constructor
  · intro h
    by_contra hlt
    rw [not_le] at hlt
    exact absurd h (not_le.mpr (weightOver_lt laws hT hlt (lt_of_le_of_lt hq hlt)))
  · intro h
    rcases h.lt_or_eq with hlt | rfl
    · exact (weightOver_lt laws hT hlt (lt_of_le_of_lt hp hlt)).le
    · exact le_refl _

theorem weightOver_inj {p q : K} (hp : 0 ≤ p) (hq : 0 ≤ q) :
    weightOver pow temperature p = weightOver pow temperature q ↔ p = q := by
  rw [le_antisymm_iff, weightOver_le_iff laws hT hp hq, weightOver_le_iff laws hT hq hp,
    ← le_antisymm_iff]

theorem weightOver_eq_zero_iff {p : K} (hp : 0 ≤ p) :
    weightOver pow temperature p = 0 ↔ p = 0 := by
  have hzero : weightOver pow temperature 0 = 0 := by rw [weightOver, if_neg (lt_irrefl 0)]
  have hinj := weightOver_inj laws hT hp le_rfl
  rwa [hzero] at hinj

/-- What rescaling keeps: the keys in their order, the zero masses and the weak
ranking; the new masses are shares of one. -/
structure Tempered (entries rescaled : List (String × K)) : Prop where
  keys : rescaled.map Prod.fst = entries.map Prod.fst
  zeros : ∀ a ∈ entries.zip rescaled, a.1.2 = 0 ↔ a.2.2 = 0
  ranking : ∀ a ∈ entries.zip rescaled, ∀ b ∈ entries.zip rescaled,
    a.1.2 ≤ b.1.2 ↔ a.2.2 ≤ b.2.2
  total : (rescaled.map Prod.snd).sum = 1

section Rescaling

variable {entries : List (String × K)} (hentries : ∀ e ∈ entries, 0 ≤ e.2)
  (hmass : 0 < (entries.map Prod.snd).sum)

def totalOver (pow : K → K → K) (temperature : K) (entries : List (String × K)) : K :=
  (entries.map fun e => weightOver pow temperature e.2).sum

include hentries hmass in
theorem totalOver_pos : 0 < totalOver pow temperature entries := by
  obtain ⟨p, hp, hpos⟩ : ∃ p ∈ entries.map Prod.snd, 0 < p := by
    by_contra hnone
    push Not at hnone
    have hzero : (entries.map Prod.snd).sum = 0 := List.sum_eq_zero fun p hp =>
      le_antisymm (hnone p hp) (List.forall_mem_map.mpr hentries p hp)
    exact absurd hmass (by rw [hzero]; exact lt_irrefl 0)
  obtain ⟨e, he, rfl⟩ := List.mem_map.mp hp
  have hweight : ∀ w ∈ entries.map fun e => weightOver pow temperature e.2, 0 ≤ w := by
    intro w hw
    obtain ⟨e, -, rfl⟩ := List.mem_map.mp hw
    exact weightOver_nonneg laws hT e.2
  exact lt_of_lt_of_le (weightOver_pos laws hT hpos)
    (List.single_le_sum hweight _ (List.mem_map_of_mem he))

include hentries hmass in
theorem rescaleOver_eq : rescaleOver pow entries temperature = entries.map fun e =>
    (e.1, weightOver pow temperature e.2 / totalOver pow temperature entries) := by
  have hpos := totalOver_pos laws hT hentries hmass
  have htotal : ((entries.map fun e => (e.1, weightOver pow temperature e.2)).map
      Prod.snd).sum = totalOver pow temperature entries := by
    rw [List.map_map]
    rfl
  simp only [rescaleOver]
  rw [htotal, if_neg (not_le.mpr hpos), List.map_map]
  rfl

include hentries hmass in
theorem rescaleOver_tempered : Tempered entries (rescaleOver pow entries temperature) := by
  have hpos := totalOver_pos laws hT hentries hmass
  have hzip : entries.zip (rescaleOver pow entries temperature) = entries.map fun e =>
      (e, e.1, weightOver pow temperature e.2 / totalOver pow temperature entries) := by
    rw [rescaleOver_eq laws hT hentries hmass]
    simpa using List.zip_map' (f := id) (l := entries)
      (g := fun e => (e.1, weightOver pow temperature e.2 / totalOver pow temperature entries))
  refine ⟨?_, ?_, ?_, ?_⟩
  · rw [rescaleOver_eq laws hT hentries hmass, List.map_map]
    rfl
  · rw [hzip]
    intro a ha
    obtain ⟨e, he, rfl⟩ := List.mem_map.mp ha
    rw [div_eq_zero_iff, or_iff_left hpos.ne', weightOver_eq_zero_iff laws hT (hentries e he)]
  · rw [hzip]
    intro a ha b hb
    obtain ⟨e, he, rfl⟩ := List.mem_map.mp ha
    obtain ⟨f, hf, rfl⟩ := List.mem_map.mp hb
    rw [div_le_div_iff_of_pos_right hpos,
      weightOver_le_iff laws hT (hentries e he) (hentries f hf)]
  · rw [rescaleOver_eq laws hT hentries hmass, List.map_map]
    exact Prorata.sum_div hpos.ne'

include hentries hmass in
theorem calibrateOver_eq (hn : (entries.map Prod.fst).Nodup) {top : String × K}
    (htop : top ∈ entries) : calibrateOver pow entries top temperature =
      weightOver pow temperature top.2 / totalOver pow temperature entries := by
  have hfind : (rescaleOver pow entries temperature).find? (fun e => e.1 = top.1) =
      some (top.1, weightOver pow temperature top.2 / totalOver pow temperature entries) := by
    have hkeys : ((rescaleOver pow entries temperature).map Prod.fst).Nodup := by
      rwa [(rescaleOver_tempered laws hT hentries hmass).keys]
    have hmem : (top.1, weightOver pow temperature top.2 / totalOver pow temperature entries) ∈
        rescaleOver pow entries temperature := by
      rw [rescaleOver_eq laws hT hentries hmass]
      exact List.mem_map.mpr ⟨top, htop, rfl⟩
    exact find?_entry hkeys hmem
  rw [calibrateOver, hfind]

include hentries hmass in
theorem calibrateOver_largest (hn : (entries.map Prod.fst).Nodup) {top : String × K}
    (htop : top ∈ entries) (hle : ∀ e ∈ entries, e.2 ≤ top.2) :
    (top.1, calibrateOver pow entries top temperature) ∈ rescaleOver pow entries temperature ∧
      ∀ e ∈ rescaleOver pow entries temperature,
        e.2 ≤ calibrateOver pow entries top temperature := by
  have hpos := totalOver_pos laws hT hentries hmass
  rw [calibrateOver_eq laws hT hentries hmass hn htop, rescaleOver_eq laws hT hentries hmass]
  refine ⟨List.mem_map.mpr ⟨top, htop, rfl⟩, ?_⟩
  intro e he
  obtain ⟨f, hf, rfl⟩ := List.mem_map.mp he
  rw [div_le_div_iff_of_pos_right hpos, weightOver_le_iff laws hT (hentries f hf)
    (hentries top htop)]
  exact hle f hf

end Rescaling

section Scalar

theorem probabilityTotal_pos (p : K) :
    0 < weightOver pow temperature p + weightOver pow temperature (1 - p) := by
  have hp := weightOver_nonneg laws hT p
  have hq := weightOver_nonneg laws hT (1 - p)
  by_cases h : 0 < p
  · exact add_pos_of_pos_of_nonneg (weightOver_pos laws hT h) hq
  · have hcomplement : 0 < 1 - p := by linarith
    exact add_pos_of_nonneg_of_pos hp (weightOver_pos laws hT hcomplement)

theorem calibrateProbabilityOver_eq (p : K) : calibrateProbabilityOver pow temperature p =
    weightOver pow temperature p /
      (weightOver pow temperature p + weightOver pow temperature (1 - p)) := by
  have hpos := probabilityTotal_pos laws hT p
  simp only [calibrateProbabilityOver, if_neg (not_le.mpr hpos)]

theorem calibrateProbabilityOver_complement (p : K) :
    calibrateProbabilityOver pow temperature p +
      calibrateProbabilityOver pow temperature (1 - p) = 1 := by
  have hpos := probabilityTotal_pos laws hT p
  rw [calibrateProbabilityOver_eq laws hT, calibrateProbabilityOver_eq laws hT, sub_sub_cancel,
    add_comm (weightOver pow temperature (1 - p)), ← add_div, div_self hpos.ne']

theorem calibrateProbabilityOver_unit (p : K) : 0 ≤ calibrateProbabilityOver pow temperature p ∧
    calibrateProbabilityOver pow temperature p ≤ 1 := by
  have hp := weightOver_nonneg laws hT p
  have hq := weightOver_nonneg laws hT (1 - p)
  have hpos := probabilityTotal_pos laws hT p
  rw [calibrateProbabilityOver_eq laws hT]
  refine ⟨div_nonneg hp hpos.le, (div_le_one hpos).mpr ?_⟩
  linarith

theorem calibrateProbabilityOver_strictMonoOn :
    StrictMonoOn (calibrateProbabilityOver pow temperature) (Set.Icc 0 1) := by
  intro p hp q hq h
  have hlt := weightOver_lt laws hT h (lt_of_le_of_lt hp.1 h)
  have hcomplement : weightOver pow temperature (1 - q) ≤ weightOver pow temperature (1 - p) :=
    (weightOver_le_iff laws hT (by linarith [hq.2]) (by linarith [hp.2])).mpr (by linarith)
  have hcomplementPos := weightOver_pos laws hT (show 0 < 1 - p by linarith [hq.2])
  have hpn := weightOver_nonneg laws hT p
  rw [calibrateProbabilityOver_eq laws hT, calibrateProbabilityOver_eq laws hT,
    div_lt_div_iff₀ (probabilityTotal_pos laws hT p) (probabilityTotal_pos laws hT q)]
  nlinarith

/-- The two maps agree on a top mass and another one if they sum to one, and
otherwise never. -/
theorem weightOver_pair_iff {p q : K} (hp : 0 < p) (hp1 : p ≤ 1) (hq : 0 ≤ q) :
    weightOver pow temperature p / (weightOver pow temperature p + weightOver pow temperature q) =
      calibrateProbabilityOver pow temperature p ↔ p + q = 1 := by
  have hweight := weightOver_pos laws hT hp
  have hq0 := weightOver_nonneg laws hT q
  have hother := weightOver_nonneg laws hT (1 - p)
  rw [calibrateProbabilityOver_eq laws hT, div_eq_div_iff (by linarith) (by linarith),
    mul_right_inj' hweight.ne', add_right_inj, weightOver_inj laws hT (by linarith) hq]
  constructor <;> intro h <;> linarith

theorem calibrateOver_pair_iff {entries : List (String × K)} (hlen : entries.length = 2)
    (hn : (entries.map Prod.fst).Nodup) (hentries : ∀ e ∈ entries, 0 ≤ e.2 ∧ e.2 ≤ 1)
    (hmass : 0 < (entries.map Prod.snd).sum) {top : String × K} (htop : top ∈ entries)
    (hle : ∀ e ∈ entries, e.2 ≤ top.2) :
    calibrateOver pow entries top temperature = calibrateProbabilityOver pow temperature top.2 ↔
      (entries.map Prod.snd).sum = 1 := by
  rw [calibrateOver_eq laws hT (fun e he => (hentries e he).1) hmass hn htop]
  obtain ⟨a, b, rfl⟩ := List.length_eq_two.mp hlen
  simp only [List.map_cons, List.map_nil, List.sum_cons, List.sum_nil, add_zero, List.mem_cons,
    List.not_mem_nil, or_false, forall_eq_or_imp, forall_eq, totalOver] at *
  rcases htop with rfl | rfl
  · exact weightOver_pair_iff laws hT (by linarith) hentries.1.2 hentries.2.1
  · rw [add_comm (weightOver pow temperature a.2), add_comm a.2]
    exact weightOver_pair_iff laws hT (by linarith) hentries.2.2 hentries.1.1

end Scalar

end Laws

/-- A categorical distribution over an arithmetic of its own, under the same
checks as a rational one. -/
structure Masses (K : Type) [Field K] [LinearOrder K] where
  entries : List (String × K)
  entries_ne : entries ≠ []
  unique : (entries.map Prod.fst).Nodup
  unit : ∀ e ∈ entries, 0 ≤ e.2 ∧ e.2 ≤ 1
  normalized : |(entries.map Prod.snd).sum - 1| ≤ (sumTolerance : K)

namespace Masses

variable {K : Type} [Field K] [LinearOrder K]

/-- The entry of greatest mass; among equals the last supplied. -/
def top (d : Masses K) : String × K :=
  (Extremum.lastMax Prod.snd d.entries).get (Extremum.lastMax_isSome d.entries_ne)

def total (d : Masses K) : K := (d.entries.map Prod.snd).sum

theorem top_mem (d : Masses K) : d.top ∈ d.entries :=
  Extremum.lastMax_mem (Option.some_get _).symm

theorem le_top (d : Masses K) : ∀ e ∈ d.entries, e.2 ≤ d.top.2 :=
  Extremum.le_lastMax (Option.some_get _).symm

theorem total_pos [IsStrictOrderedRing K] (d : Masses K) : 0 < d.total := by
  have htolerance : (sumTolerance : K) < 1 := by
    exact_mod_cast (by decide +kernel : sumTolerance < 1)
  have hclose := (abs_le.mp d.normalized).1
  rw [total]
  linarith

end Masses

section Real

theorem reals_unique (d : Distribution) :
    ((d.entries.map fun e => (e.key, (e.probability : ℝ))).map Prod.fst).Nodup := by
  rw [List.map_map]
  exact d.unique

theorem reals_unit (d : Distribution) :
    ∀ e ∈ d.entries.map fun e => (e.key, (e.probability : ℝ)), 0 ≤ e.2 ∧ e.2 ≤ 1 := by
  intro e he
  obtain ⟨f, hf, rfl⟩ := List.mem_map.mp he
  have hunit := d.unit f hf
  have hle : (f.probability : ℝ) ≤ 1 := by exact_mod_cast hunit.2
  exact ⟨Rat.cast_nonneg.mpr hunit.1, hle⟩

theorem reals_sum (d : Distribution) :
    ((d.entries.map fun e => (e.key, (e.probability : ℝ))).map Prod.snd).sum =
      ((d.entries.map DistributionEntry.probability).sum : ℚ) := by
  rw [List.map_map, ← Rat.coe_castHom, map_list_sum, List.map_map]
  rfl

theorem reals_normalized (d : Distribution) :
    |((d.entries.map fun e => (e.key, (e.probability : ℝ))).map Prod.snd).sum - 1| ≤
      (sumTolerance : ℝ) := by
  rw [reals_sum]
  exact_mod_cast d.normalized

theorem reals_ne (d : Distribution) :
    d.entries.map (fun e => (e.key, (e.probability : ℝ))) ≠ [] := by
  simpa using d.entries_ne

def Distribution.reals (d : Distribution) : Masses ℝ where
  entries := d.entries.map fun e => (e.key, (e.probability : ℝ))
  entries_ne := reals_ne d
  unique := reals_unique d
  unit := reals_unit d
  normalized := reals_normalized d

theorem rpow_laws : PowerLaws fun p x : ℝ => p ^ x where
  pos _ x hp _ := Real.rpow_pos_of_pos hp x
  strict _ _ _ hp h hx := Real.rpow_lt_rpow hp.le h hx

namespace TemperatureCalibration

theorem temperatureFor_pos (t : TemperatureCalibration) (cls : String) :
    (0 : ℝ) < t.temperatureFor cls := by
  rw [temperatureFor, Rat.cast_pos]
  cases h : t.temperatures.get? cls with
  | none => exact t.default_pos
  | some temperature => exact t.temperatures_pos cls temperature h

noncomputable def rescaleReal (t : TemperatureCalibration) (cls : String) (d : Masses ℝ) :
    List (String × ℝ) :=
  rescaleOver (fun p x => p ^ x) d.entries (t.temperatureFor cls)

noncomputable def calibrateReal (t : TemperatureCalibration) (cls : String) (d : Masses ℝ) : ℝ :=
  calibrateOver (fun p x => p ^ x) d.entries d.top (t.temperatureFor cls)

noncomputable def calibrateProbabilityReal (t : TemperatureCalibration) (cls : String) (p : ℝ) :
    ℝ :=
  calibrateProbabilityOver (fun p x => p ^ x) (t.temperatureFor cls) p

end TemperatureCalibration

/-- The distribution map and the scalar map of an artifact are one map. -/
theorem tempering_law (t : TemperatureCalibration) (cls : String) :
    (∀ d : Masses ℝ, d.entries.length = 2 →
      (t.calibrateReal cls d = t.calibrateProbabilityReal cls d.top.2 ↔ d.total = 1)) ∧
    (∀ p, t.calibrateProbabilityReal cls p + t.calibrateProbabilityReal cls (1 - p) = 1) ∧
    StrictMonoOn (t.calibrateProbabilityReal cls) (Set.Icc 0 1) ∧
    (∀ p, t.calibrateProbabilityReal cls p ∈ Set.Icc 0 1) ∧
    ∀ d : Masses ℝ, Tempered d.entries (t.rescaleReal cls d) ∧
      (d.top.1, t.calibrateReal cls d) ∈ t.rescaleReal cls d ∧
        ∀ e ∈ t.rescaleReal cls d, e.2 ≤ t.calibrateReal cls d := by
  have hT := t.temperatureFor_pos cls
  refine ⟨fun d hlen => ?_, fun p => ?_, ?_, fun p => ?_, fun d => ⟨?_, ?_⟩⟩
  · exact calibrateOver_pair_iff rpow_laws hT hlen d.unique d.unit d.total_pos d.top_mem d.le_top
  · exact calibrateProbabilityOver_complement rpow_laws hT p
  · exact calibrateProbabilityOver_strictMonoOn rpow_laws hT
  · exact calibrateProbabilityOver_unit rpow_laws hT p
  · exact rescaleOver_tempered rpow_laws hT (fun e he => (d.unit e he).1) d.total_pos
  · exact calibrateOver_largest rpow_laws hT (fun e he => (d.unit e he).1) d.total_pos d.unique
      d.top_mem d.le_top

theorem unit_version : 1 ≤ 1 := le_refl 1

theorem unit_temperature : (0 : ℚ) < 1 := one_pos

theorem no_class_temperature (cls : String) (t : ℚ)
    (h : (OrdMap.empty : OrdMap String ℚ).get? cls = some t) : 0 < t := by
  cases h

def Sample.unitTemperature : TemperatureCalibration where
  calibrationVersion := 1
  defaultTemperature := 1
  temperatures := OrdMap.empty
  version_pos := unit_version
  default_pos := unit_temperature
  temperatures_pos := no_class_temperature

def Sample.verdict (no yes : ℚ) : CoreResult Distribution :=
  Distribution.fromPairs [("false", no), ("true", yes)]

theorem verdict_ok {no yes : ℚ} (hsome : (Sample.verdict no yes).toOption.isSome = true) :
    ∃ d, Sample.verdict no yes = .ok d ∧ d.reals.entries.length = 2 ∧
      d.reals.total = ((no + yes : ℚ) : ℝ) := by
  cases h : Sample.verdict no yes with
  | error e => simp [h, Except.toOption] at hsome
  | ok d =>
    have hentries : d.entries = [⟨"false", no⟩, ⟨"true", yes⟩] :=
      Distribution.new_entries (by rwa [Sample.verdict, Distribution.fromPairs] at h)
    refine ⟨d, rfl, ?_, ?_⟩
    · simp [Distribution.reals, hentries]
    · refine (reals_sum d).trans ?_
      simp [hentries]

def Sample.doubleTemperature : TemperatureCalibration where
  calibrationVersion := 1
  defaultTemperature := 2
  temperatures := OrdMap.empty
  version_pos := unit_version
  default_pos := two_pos
  temperatures_pos := no_class_temperature

theorem tempering_law_verdict : ∃ d, Sample.verdict (2 / 5) (3 / 5) = .ok d ∧
    Sample.doubleTemperature.calibrateReal "boolean" d.reals =
      Sample.doubleTemperature.calibrateProbabilityReal "boolean" d.reals.top.2 := by
  obtain ⟨d, hd, hlen, htotal⟩ := verdict_ok
    (show (Sample.verdict (2 / 5) (3 / 5)).toOption.isSome = true by decide +kernel)
  refine ⟨d, hd, ((tempering_law Sample.doubleTemperature "boolean").1 d.reals hlen).mpr ?_⟩
  rw [htotal]
  norm_num

theorem overfull_calibrated_apart : ∃ d, Sample.verdict (2 / 5) (3 / 5 + 1 / 10 ^ 7) = .ok d ∧
    Sample.unitTemperature.calibrateReal "boolean" d.reals ≠
      Sample.unitTemperature.calibrateProbabilityReal "boolean" d.reals.top.2 := by
  obtain ⟨d, hd, hlen, htotal⟩ := verdict_ok
    (show (Sample.verdict (2 / 5) (3 / 5 + 1 / 10 ^ 7)).toOption.isSome = true by decide +kernel)
  refine ⟨d, hd, fun heq => ?_⟩
  have hone := (calibrateOver_pair_iff rpow_laws
    (Sample.unitTemperature.temperatureFor_pos "boolean") hlen d.reals.unique d.reals.unit
    d.reals.total_pos d.reals.top_mem d.reals.le_top).mp heq
  have hbad := htotal.symm.trans hone
  norm_num at hbad

end Real

end OpenCodifier
