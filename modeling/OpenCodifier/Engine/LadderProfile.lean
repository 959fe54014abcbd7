import OpenCodifier.Lib.Traverse
import OpenCodifier.Engine.Ladder
import OpenCodifier.Model.Error
import OpenCodifier.Schema.PolicyRecord
set_option autoImplicit false

namespace OpenCodifier

structure CalibrationFit where
  items : Nat
  eceBefore : F64
  eceAfter : F64
  source : String
  aurcBefore : Option F64 := none
  aurcAfter : Option F64 := none
  accuracyAtCoverage : Option (OrdMap String F64) := none

/-- Fitted temperatures as a document gives them, before anything is checked. -/
structure CalibrationArtifact where
  formatVersion : Nat
  scheme : String
  modelId : String
  calibrationVersion : Nat
  defaultTemperature : F64
  temperatures : OrdMap String F64 := OrdMap.empty
  fit : CalibrationFit

def selectivePredictionMinItems : Nat := 200

/-- What rounding in a fitter may add to a measurement. -/
def fitterSlack : ℚ := 1 / 1000000000

def invalidCalibration {α : Type} (reason : String) : EngineResult α :=
  .error (.invalidCalibration reason)

section Texts

/-- The nearest integer, and of two nearest ones the even one. -/
def roundHalfEven (value : ℚ) : Nat :=
  let floor := ⌊value⌋.toNat
  let rest := value - floor
  if rest < 1 / 2 then floor
  else if rest = 1 / 2 then (if floor % 2 = 0 then floor else floor + 1)
  else floor + 1

def sixDigits : F64 → String
  | .nan => "NaN"
  | .negInf => "-inf"
  | .inf => "inf"
  | .finite value =>
    let scaled := roundHalfEven (|value| * 1000000)
    let digits := Nat.toDigits 10 (scaled % 1000000)
    (if value < 0 then "-" else "") ++ toString (scaled / 1000000) ++ "." ++
      String.ofList (List.replicate (6 - digits.length) '0' ++ digits)

end Texts

namespace CalibrationArtifact

variable [RustStd] (a : CalibrationArtifact)

/-- A pair of risk measurements counts only on enough items, and must not get worse. -/
def selectivePrediction (fit : CalibrationFit) : EngineResult Unit :=
  match fit.aurcBefore, fit.aurcAfter with
  | some before, some after =>
    if fit.items < selectivePredictionMinItems then
      invalidCalibration ("selective-prediction evidence on " ++ toString fit.items ++
        " items is below the " ++ toString selectivePredictionMinItems ++
        "-item floor; fit on at least " ++ toString selectivePredictionMinItems ++
        " items or ship without the aurc pair")
    else if F64.lt (before.shift fitterSlack) after then
      invalidCalibration ("fit worsens selective prediction: AURC " ++ sixDigits before ++ " -> " ++
        sixDigits after ++ "; a calibration that trades the risk-coverage curve for ECE must not " ++
        "ship")
    else .ok ()
  | _, _ => .ok ()

def temperatureOk (e : String × F64) : EngineResult Unit :=
  if !e.2.isFinite || F64.le e.2 (.finite 0) then
    invalidCalibration ("temperature for " ++ e.1 ++ " must be finite and > 0, got " ++
      PolicyRecord.display e.2)
  else .ok ()

def allTemperatures : List (String × F64) :=
  ("<default>", a.defaultTemperature) :: a.temperatures.entries

def check [DebugTexts] : EngineResult Unit := do
  if a.formatVersion ≠ 1 then
    invalidCalibration ("calibration format_version must be 1, got " ++ toString a.formatVersion)
  if a.scheme ≠ "temperature" then
    invalidCalibration ("calibration scheme must be \"temperature\", got " ++
      DebugTexts.str a.scheme)
  if a.calibrationVersion = 0 then
    invalidCalibration "calibration_version must be >= 1; 0 is reserved for no calibration"
  if Condition.blank a.modelId then invalidCalibration "model_id must not be empty"
  selectivePrediction a.fit
  a.allTemperatures.forM temperatureOk

structure WellFormed : Prop where
  format : a.formatVersion = 1
  scheme : a.scheme = "temperature"
  version : a.calibrationVersion ≠ 0
  model : ∃ c ∈ a.modelId.toList, RustStd.isWhitespace c = false
  evidence : ∀ before after, a.fit.aurcBefore = some before → a.fit.aurcAfter = some after →
    selectivePredictionMinItems ≤ a.fit.items ∧ F64.lt (before.shift fitterSlack) after = false
  default : ∃ t, a.defaultTemperature = .finite t ∧ 0 < t
  temperatures : ∀ cls x, a.temperatures.get? cls = some x → ∃ t, x = .finite t ∧ 0 < t

omit [RustStd] in
theorem selectivePrediction_ok_iff (fit : CalibrationFit) : selectivePrediction fit = .ok () ↔
    ∀ before after, fit.aurcBefore = some before → fit.aurcAfter = some after →
      selectivePredictionMinItems ≤ fit.items ∧
        F64.lt (before.shift fitterSlack) after = false := by
  unfold selectivePrediction invalidCalibration
  cases fit.aurcBefore with
  | none => simp
  | some before =>
    cases fit.aurcAfter with
    | none => simp
    | some after =>
      by_cases hitems : fit.items < selectivePredictionMinItems
      · simp [hitems]
      · simp [hitems, not_lt.mp hitems]

theorem temperatureOk_iff (e : String × F64) :
    temperatureOk e = .ok () ↔ ∃ t, e.2 = .finite t ∧ 0 < t := by
  rw [temperatureOk, invalidCalibration, ← F64.isFinite_and_pos_iff]
  cases !e.2.isFinite || F64.le e.2 (.finite 0) <;> simp

theorem forM_temperatureOk : a.allTemperatures.forM temperatureOk = .ok () ↔
    (∃ t, a.defaultTemperature = .finite t ∧ 0 < t) ∧
      ∀ cls x, a.temperatures.get? cls = some x → ∃ t, x = .finite t ∧ 0 < t := by
  simp only [Result.forM_ok_iff, allTemperatures, List.forall_mem_cons, temperatureOk_iff]
  refine and_congr_right fun _ => ⟨fun h cls x hx => ?_, fun h e he => ?_⟩
  · exact h (cls, x) ((OrdMap.mem_entries_iff _ _ _).mpr hx)
  · exact h e.1 e.2 ((OrdMap.mem_entries_iff _ _ _).mp he)

theorem check_ok_iff [DebugTexts] : a.check = .ok () ↔ a.WellFormed := by
  have hguard : ∀ (c : Prop) [Decidable c] (reason : String) (rest : EngineResult Unit),
      (do if c then invalidCalibration reason
          rest) = .ok () ↔ ¬ c ∧ rest = .ok () := by
    intro c _ reason rest
    by_cases hc : c
    · simp [hc, invalidCalibration, bind, Except.bind]
    · simp [hc]
  have hmodel : ¬ Condition.blank a.modelId = true ↔
      ∃ c ∈ a.modelId.toList, RustStd.isWhitespace c = false := by
    simp [Condition.blank]
  rw [check, hguard, hguard, hguard, hguard, hmodel, Result.bind_unit_ok,
    selectivePrediction_ok_iff, forM_temperatureOk]
  constructor
  · rintro ⟨hformat, hscheme, hversion, hmodel, hevidence, hdefault, htemperatures⟩
    exact ⟨not_not.mp hformat, not_not.mp hscheme, hversion, hmodel, hevidence, hdefault,
      htemperatures⟩
  · intro h
    exact ⟨not_not.mpr h.format, not_not.mpr h.scheme, h.version, h.model, h.evidence, h.default,
      h.temperatures⟩

end CalibrationArtifact

def TemperatureCalibration.fromArtifact [RustStd] [DebugTexts] (a : CalibrationArtifact) :
    EngineResult TemperatureCalibration :=
  match h : a.check with
  | .error error => .error error
  | .ok () =>
    have hwell := a.check_ok_iff.mp h
    .ok {
      calibrationVersion := a.calibrationVersion
      defaultTemperature := a.defaultTemperature.toRat
      temperatures := a.temperatures.mapValues fun _ t => t.toRat
      version_pos := Nat.one_le_iff_ne_zero.mpr hwell.version
      default_pos := by
        obtain ⟨t, ht, hpos⟩ := hwell.default
        rw [ht]
        exact hpos
      temperatures_pos := fun cls t ht => by
        rw [OrdMap.get?_mapValues] at ht
        obtain ⟨x, hx, rfl⟩ := Option.map_eq_some_iff.mp ht
        obtain ⟨t, rfl, hpos⟩ := hwell.temperatures cls x hx
        exact hpos }

theorem TemperatureCalibration.fromArtifact_exists [RustStd] [DebugTexts]
    (a : CalibrationArtifact) :
    (∃ t, TemperatureCalibration.fromArtifact a = .ok t) ↔ a.WellFormed := by
  rw [← a.check_ok_iff, TemperatureCalibration.fromArtifact]
  split
  · rename_i error h
    simp [h]
  · rename_i h
    simp [h]

/-- The calibration of one rung; a proof-aware one leaves single-entry distributions alone. -/
structure RungCalibration where
  artifact : CalibrationArtifact
  proofAware : Bool := false

/-- The loading form of a ladder: its calibrations are artifacts. -/
structure LadderProfile where
  id : String
  perNode : OrdMap String DecisionPolicy := OrdMap.empty
  perKind : OrdMap NodeKind DecisionPolicy := OrdMap.empty
  perFamily : OrdMap String DecisionPolicy := OrdMap.empty
  calibrations : OrdMap String RungCalibration := OrdMap.empty

namespace RungCalibration

variable [RustStd] [DebugTexts]

def wrapped (c : RungCalibration) (t : TemperatureCalibration) : Calibration :=
  if c.proofAware then proofAwareCalibration t.calibration else t.calibration

def attached (rung : String) (c : RungCalibration) : EngineResult Calibration :=
  match TemperatureCalibration.fromArtifact c.artifact with
  | .error error =>
    .error (.invalidConfig ("rung " ++ DebugTexts.str rung ++ ": " ++ error.display))
  | .ok temperature => .ok (c.wrapped temperature)

theorem attached_ok {rung : String} {c : RungCalibration} {calibration : Calibration} :
    attached rung c = .ok calibration ↔
      ∃ t, TemperatureCalibration.fromArtifact c.artifact = .ok t ∧ c.wrapped t = calibration := by
  rw [attached]
  cases TemperatureCalibration.fromArtifact c.artifact <;> simp

theorem attached_exists (rung : String) (c : RungCalibration) :
    (∃ calibration, attached rung c = .ok calibration) ↔ c.artifact.WellFormed := by
  rw [← TemperatureCalibration.fromArtifact_exists]
  simp only [attached_ok]
  exact ⟨fun ⟨_, t, ht, _⟩ => ⟨t, ht⟩, fun ⟨t, ht⟩ => ⟨_, t, ht, rfl⟩⟩

end RungCalibration

namespace LadderProfile

section Load

variable [RustStd] [DebugTexts] (p : LadderProfile)

def policies : LadderPolicy where
  id := p.id
  perNode := p.perNode
  perKind := p.perKind
  perFamily := p.perFamily

/-- Emptiness and names are looked at while the calibrations are still missing. -/
def intoLadder : EngineResult LadderPolicy :=
  if p.policies.isEmpty then
    .error (.invalidConfig ("ladder profile configures no override; run without --ladder so the " ++
      "request policy governs"))
  else
    match p.policies.validate with
    | .error reason => .error (.invalidConfig reason)
    | .ok () =>
      match p.calibrations.traverse RungCalibration.attached with
      | .error error => .error error
      | .ok calibrations => .ok { p.policies with calibrations }

end Load

section Purpose

variable (p : LadderProfile)

/-- The id can tell cache keys apart, and a request can carry each of the families. -/
def Named : Prop :=
  (p.id ≠ "" ∧ p.id ≠ "none") ∧ ∀ family ∈ p.perFamily.keys, validateId family = .ok ()

def Fitted [RustStd] : Prop :=
  ∀ rung c, p.calibrations.get? rung = some c → c.artifact.WellFormed

def Gates : Prop := p.perNode.keys ≠ [] ∨ p.perFamily.keys ≠ [] ∨ p.perKind.keys ≠ []

def Overrides : Prop := p.Gates ∨ p.calibrations.keys ≠ []

/-- The entry of a profile that is most specific to a question, and the name of its tier. -/
inductive Governs (nodeId : String) (kind : NodeKind) (family : Option String) :
    DecisionPolicy → String → Prop
  | node {policy : DecisionPolicy} (h : p.perNode.get? nodeId = some policy) :
    Governs nodeId kind family policy ("node:" ++ nodeId)
  | family {policy : DecisionPolicy} {name : String} (hnode : p.perNode.get? nodeId = none)
    (hname : family = some name) (h : p.perFamily.get? name = some policy) :
    Governs nodeId kind family policy ("family:" ++ name)
  | kind {policy : DecisionPolicy} (hnode : p.perNode.get? nodeId = none)
    (hfamily : ∀ name ∈ family, p.perFamily.get? name = none)
    (h : p.perKind.get? kind = some policy) :
    Governs nodeId kind family policy ("kind:" ++ kind.asStr)

/-- The rung of a profile that tempers the answers of a node, and the name of its tier. -/
inductive Tempers (nodeId : String) (kind : NodeKind) : RungCalibration → String → Prop
  | node {c : RungCalibration} (h : p.calibrations.get? ("node:" ++ nodeId) = some c) :
    Tempers nodeId kind c ("node:" ++ nodeId)
  | kind {c : RungCalibration} (hnode : p.calibrations.get? ("node:" ++ nodeId) = none)
    (h : p.calibrations.get? ("kind:" ++ kind.asStr) = some c) :
    Tempers nodeId kind c ("kind:" ++ kind.asStr)

/-- A ladder has the entries of a profile and no others, and answers every query by the most
specific of them. -/
structure Carries [RustStd] [DebugTexts] (l : LadderPolicy) : Prop where
  id : l.id = p.id
  perNode : l.perNode = p.perNode
  perKind : l.perKind = p.perKind
  perFamily : l.perFamily = p.perFamily
  calibrations : ∀ rung calibration, l.calibrations.get? rung = some calibration ↔
    ∃ c, p.calibrations.get? rung = some c ∧ RungCalibration.attached rung c = .ok calibration
  governed : ∀ nodeId kind family policy source,
    l.resolve nodeId kind family = some (policy, source) ↔ p.Governs nodeId kind family policy source
  tempered : ∀ nodeId kind calibration source,
    l.resolveCalibration nodeId kind = some (calibration, source) ↔
      ∃ c, p.Tempers nodeId kind c source ∧ RungCalibration.attached source c = .ok calibration

end Purpose

section Policies

variable (p : LadderProfile)

theorem policies_isEmpty : p.policies.isEmpty = true ↔ ¬ p.Gates := by
  simp only [LadderPolicy.isEmpty, policies, Gates, OrdMap.empty, OrdMap.keys, Bool.and_eq_true,
    List.isEmpty_iff, List.map_nil, and_true, not_or, not_not]
  exact and_assoc.trans (and_congr_right fun _ => and_comm)

theorem usable_iff [RustStd] (family : String) :
    (match (Ident.new family : CoreResult DecisionFamily) with
      | .ok _ => .ok ()
      | .error e =>
        .error ("family `" ++ family ++ "` is not a usable family name: " ++ e.display) :
      Except String Unit) = .ok () ↔ validateId family = .ok () := by
  cases h : (Ident.new family : CoreResult DecisionFamily) with
  | ok name =>
    rw [← Ident.new_ok h]
    simp [name.valid]
  | error e =>
    simp only [reduceCtorEq, false_iff]
    intro hvalid
    have hnew := Ident.new_text (⟨family, hvalid⟩ : DecisionFamily)
    rw [h] at hnew
    cases hnew

theorem validate_ok_iff [RustStd] (l : LadderPolicy) (h : l.isEmpty = false) :
    l.validate = .ok () ↔
      (l.id ≠ "" ∧ l.id ≠ "none") ∧ ∀ family ∈ l.perFamily.keys, validateId family = .ok () := by
  rw [LadderPolicy.validate, h]
  by_cases hid : l.id = "" ∨ l.id = "none"
  · rw [if_pos (by simpa using hid)]
    simp only [reduceCtorEq, false_iff, not_and]
    exact fun hne => absurd hid (not_or.mpr hne)
  · rw [if_neg (by simpa using hid), Result.forM_ok_iff]
    simp only [not_or.mp hid, ne_eq, not_false_eq_true, and_self, true_and]
    exact forall₂_congr fun family _ => usable_iff family

end Policies

section Loaded

variable [RustStd] [DebugTexts] {p : LadderProfile}

/-- The loader stops at a profile without policies, and builds the ladder of any other one. -/
theorem intoLadder_ok_iff {l : LadderPolicy} : p.intoLadder = .ok l ↔ p.Gates ∧ p.Named ∧
    ∃ calibrations, p.calibrations.traverse RungCalibration.attached = .ok calibrations ∧
      l = { p.policies with calibrations } := by
  rw [intoLadder]
  by_cases hempty : p.policies.isEmpty = true
  · rw [if_pos hempty]
    simp [(policies_isEmpty p).mp hempty]
  · have hgates : p.Gates := not_not.mp fun h => hempty ((policies_isEmpty p).mpr h)
    have hnamed : p.policies.validate = .ok () ↔ p.Named :=
      validate_ok_iff p.policies (eq_false_of_ne_true hempty)
    rw [if_neg hempty, ← hnamed]
    cases p.policies.validate with
    | error reason => simp
    | ok u =>
      cases p.calibrations.traverse RungCalibration.attached with
      | error error => simp
      | ok calibrations => simp [hgates, eq_comm]

theorem intoLadder_exists : (∃ l, p.intoLadder = .ok l) ↔ p.Gates ∧ p.Named ∧ p.Fitted := by
  have hfitted : (∃ calibrations,
      p.calibrations.traverse RungCalibration.attached = .ok calibrations) ↔ p.Fitted := by
    rw [OrdMap.traverse_exists]
    simp only [RungCalibration.attached_exists]
    rfl
  rw [← hfitted]
  constructor
  · rintro ⟨l, hl⟩
    obtain ⟨hgates, hnamed, calibrations, h, -⟩ := intoLadder_ok_iff.mp hl
    exact ⟨hgates, hnamed, calibrations, h⟩
  · rintro ⟨hgates, hnamed, calibrations, h⟩
    exact ⟨_, intoLadder_ok_iff.mpr ⟨hgates, hnamed, calibrations, h, rfl⟩⟩

omit [RustStd] [DebugTexts] in
theorem resolve_eq_some_iff {l : LadderPolicy} (hnode : l.perNode = p.perNode)
    (hkind : l.perKind = p.perKind) (hfamily : l.perFamily = p.perFamily) {nodeId : String}
    {kind : NodeKind} {family : Option String} {policy : DecisionPolicy} {source : String} :
    l.resolve nodeId kind family = some (policy, source) ↔
      p.Governs nodeId kind family policy source := by
  rw [LadderPolicy.resolve, hnode, hkind, hfamily]
  constructor
  · intro h
    cases hn : p.perNode.get? nodeId with
    | some found =>
      rw [hn] at h
      cases h
      exact .node hn
    | none =>
      rw [hn] at h
      cases family with
      | none =>
        obtain ⟨found, hk, hpair⟩ := Option.map_eq_some_iff.mp h
        cases hpair
        exact .kind hn (by simp) hk
      | some name =>
        rw [Option.bind_some] at h
        cases hf : p.perFamily.get? name with
        | some found =>
          rw [hf] at h
          cases h
          exact .family hn rfl hf
        | none =>
          rw [hf] at h
          obtain ⟨found, hk, hpair⟩ := Option.map_eq_some_iff.mp h
          cases hpair
          exact .kind hn (by simpa using hf) hk
  · intro h
    cases h with
    | node hn => rw [hn]
    | family hn hname hf =>
      subst hname
      rw [hn, Option.bind_some, hf]
      rfl
    | kind hn hf hk =>
      rw [hn, hk]
      cases family with
      | none => rfl
      | some name =>
        rw [Option.bind_some, hf name rfl]
        rfl

theorem resolveCalibration_eq_some_iff {l : LadderPolicy}
    (h : p.calibrations.traverse RungCalibration.attached = .ok l.calibrations) {nodeId : String}
    {kind : NodeKind} {calibration : Calibration} {source : String} :
    l.resolveCalibration nodeId kind = some (calibration, source) ↔
      ∃ c, p.Tempers nodeId kind c source ∧
        RungCalibration.attached source c = .ok calibration := by
  have hget := OrdMap.get?_traverse h
  have hnone : l.calibrations.get? ("node:" ++ nodeId) = none ↔
      p.calibrations.get? ("node:" ++ nodeId) = none := by
    have hall := (OrdMap.traverse_exists p.calibrations).mp ⟨_, h⟩
    rw [Option.eq_none_iff_forall_ne_some, Option.eq_none_iff_forall_ne_some]
    constructor
    · intro hne c hc
      obtain ⟨b, hb⟩ := hall _ c hc
      exact hne b ((hget _ b).mpr ⟨c, hc, hb⟩)
    · intro hne b hb
      obtain ⟨c, hc, -⟩ := (hget _ b).mp hb
      exact hne c hc
  rw [LadderPolicy.resolveCalibration]
  constructor
  · intro hresolve
    cases hn : l.calibrations.get? ("node:" ++ nodeId) with
    | some found =>
      rw [hn] at hresolve
      cases hresolve
      obtain ⟨c, hc, hbuilt⟩ := (hget _ _).mp hn
      exact ⟨c, .node hc, hbuilt⟩
    | none =>
      rw [hn] at hresolve
      obtain ⟨found, hk, hpair⟩ := Option.map_eq_some_iff.mp hresolve
      cases hpair
      obtain ⟨c, hc, hbuilt⟩ := (hget _ _).mp hk
      exact ⟨c, .kind (hnone.mp hn) hc, hbuilt⟩
  · rintro ⟨c, htempers, hbuilt⟩
    cases htempers with
    | node hc => rw [(hget _ _).mpr ⟨c, hc, hbuilt⟩]
    | kind hn hc =>
      rw [hnone.mpr hn, (hget _ _).mpr ⟨c, hc, hbuilt⟩]
      rfl

theorem carries_of_intoLadder {l : LadderPolicy} (h : p.intoLadder = .ok l) : p.Carries l := by
  obtain ⟨-, -, calibrations, hcalibrations, rfl⟩ := intoLadder_ok_iff.mp h
  exact {
    id := rfl
    perNode := rfl
    perKind := rfl
    perFamily := rfl
    calibrations := OrdMap.get?_traverse hcalibrations
    governed := fun _ _ _ _ _ => resolve_eq_some_iff rfl rfl rfl
    tempered := fun _ _ _ _ => resolveCalibration_eq_some_iff hcalibrations }

/-- The loader takes the profiles with an override and well-formed parts, and its ladder answers
by their entries, exactly when a profile of calibrations alone is not among them. -/
theorem intoLadder_lawful_iff (p : LadderProfile) :
    (((∃ l, p.intoLadder = .ok l) ↔ p.Named ∧ p.Fitted ∧ p.Overrides) ∧
        ∀ l, p.intoLadder = .ok l → p.Carries l) ↔
      p.Gates ∨ p.calibrations.keys = [] ∨ ¬ p.Named ∨ ¬ p.Fitted := by
  rw [intoLadder_exists, and_iff_left fun l => carries_of_intoLadder, Overrides]
  tauto

end Loaded

section Samples

attribute [local instance] plainStd

abbrev quoted : DebugTexts := ⟨fun text => "\"" ++ text ++ "\""⟩

attribute [local instance] quoted

def calibratedOnly : LadderProfile where
  id := "cal-v1"
  calibrations := OrdMap.empty.insert "kind:choice" {
    artifact := {
      formatVersion := 1
      scheme := "temperature"
      modelId := "test-model"
      calibrationVersion := 3
      defaultTemperature := .finite 2
      fit := ⟨10, .finite (1 / 5), .finite (1 / 10), "test", none, none, none⟩ } }

theorem intoLadder_refuses_calibrations :
    (calibratedOnly.Named ∧ calibratedOnly.Fitted ∧ calibratedOnly.Overrides) ∧
      ∀ l, calibratedOnly.intoLadder ≠ .ok l := by
  refine ⟨⟨⟨by decide, by decide⟩, fun rung c hc => ?_, .inr (by decide)⟩, fun l hl => ?_⟩
  · rw [calibratedOnly, OrdMap.get?_insert] at hc
    split at hc
    · cases hc
      refine ⟨rfl, rfl, by decide, ⟨'t', by decide, by decide⟩, fun _ _ h => ?_, ⟨2, rfl, by decide⟩,
        fun _ _ h => ?_⟩
      · cases h
      · cases h
    · cases hc
  · cases hl

end Samples

end LadderProfile

end OpenCodifier
