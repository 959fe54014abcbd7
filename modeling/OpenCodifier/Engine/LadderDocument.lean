import OpenCodifier.Engine.GraphDocument
import OpenCodifier.Engine.LadderFit
import OpenCodifier.Engine.LadderProfile
set_option autoImplicit false

namespace OpenCodifier

open Json F64

-- An emitted document repeats no name in an object, and such documents are read here.
section Readers

def asF64 (j : Json) : Option F64 := (asFloat j).map .finite

def readKind {α : Type} (read : Json → Option α) (e : String × Json) : Option (NodeKind × α) := do
  let variant ← NodeKind.variants.find? fun v => v.1 = e.1
  let a ← read e.2
  some (variant.2, a)

def asKindMap {α : Type} (read : Json → Option α) : Json → Option (OrdMap NodeKind α)
  | .obj fields => (fields.mapM (readKind read)).map OrdMap.ofList
  | _ => none

/-- A struct that refuses names that are not its own. -/
def asClosed {α : Type} (names : List String) (read : Fields → Option α) (j : Json) : Option α :=
  (j.fields? names.length).bind fun f => if f.closed names then read f else none

def CalibrationFit.deserialize : Json → Option CalibrationFit :=
  asClosed ["items", "ece_before", "ece_after", "source", "aurc_before", "aurc_after",
      "accuracy_at_coverage"] fun f => do
    let items ← f.required 0 "items" (asUnsigned 64)
    let eceBefore ← f.required 1 "ece_before" asF64
    let eceAfter ← f.required 2 "ece_after" asF64
    let source ← f.required 3 "source" asStr
    let aurcBefore ← f.defaulted 4 "aurc_before" none (asOption asF64)
    let aurcAfter ← f.defaulted 5 "aurc_after" none (asOption asF64)
    let accuracyAtCoverage ← f.defaulted 6 "accuracy_at_coverage" none (asOption (asMap asF64))
    some ⟨items, eceBefore, eceAfter, source, aurcBefore, aurcAfter, accuracyAtCoverage⟩

def CalibrationArtifact.deserialize : Json → Option CalibrationArtifact :=
  asClosed ["format_version", "scheme", "model_id", "calibration_version", "default_temperature",
      "temperatures", "fit"] fun f => do
    let formatVersion ← f.required 0 "format_version" (asUnsigned 32)
    let scheme ← f.required 1 "scheme" asStr
    let modelId ← f.required 2 "model_id" asStr
    let calibrationVersion ← f.required 3 "calibration_version" (asUnsigned 64)
    let defaultTemperature ← f.required 4 "default_temperature" asF64
    let temperatures ← f.defaulted 5 "temperatures" OrdMap.empty (asMap asF64)
    let fit ← f.required 6 "fit" CalibrationFit.deserialize
    some ⟨formatVersion, scheme, modelId, calibrationVersion, defaultTemperature, temperatures,
      fit⟩

def RungCalibration.deserialize : Json → Option RungCalibration :=
  asClosed ["artifact", "proof_aware"] fun f => do
    let artifact ← f.required 0 "artifact" CalibrationArtifact.deserialize
    let proofAware ← f.defaulted 1 "proof_aware" false asBool
    some ⟨artifact, proofAware⟩

def LadderProfile.deserialize [RustStd] : Json → Option LadderProfile :=
  asClosed ["id", "per_node", "per_kind", "per_family", "calibrations"] fun f => do
    let id ← f.required 0 "id" asStr
    let perNode ← f.defaulted 1 "per_node" OrdMap.empty (asMap DecisionPolicy.deserialize)
    let perKind ← f.defaulted 2 "per_kind" OrdMap.empty (asKindMap DecisionPolicy.deserialize)
    let perFamily ← f.defaulted 3 "per_family" OrdMap.empty (asMap DecisionPolicy.deserialize)
    let calibrations ←
      f.defaulted 4 "calibrations" OrdMap.empty (asMap RungCalibration.deserialize)
    some ⟨id, perNode, perKind, perFamily, calibrations⟩

end Readers

namespace LadderFit

section Emitted

variable [RustStd] [DebugTexts] {id : String} {fit : BooleanThresholdFit} {base : DecisionPolicy}

def kindOnly (id : String) (kind : NodeKind) (policy : DecisionPolicy) : LadderProfile where
  id := id
  perKind := OrdMap.ofList [(kind, policy)]

def kindFields (id : String) (kinds : Value) : List (String × Option Value) :=
  [("id", some (.str id)), ("per_kind", some kinds)]

omit [DebugTexts] in
theorem asKindMap_boolean (policy : DecisionPolicy) :
    asKindMap DecisionPolicy.deserialize (Value.struct [("boolean", some policy.serialize)]).1 =
      some (OrdMap.ofList [(NodeKind.boolean, policy)]) := by
  have hvariant : (NodeKind.variants.find? fun v => v.1 = "boolean") =
      some ("boolean", .boolean) := by decide
  have hread : readKind DecisionPolicy.deserialize ("boolean", policy.serialize.1) =
      some (.boolean, policy) := by
    rw [readKind, hvariant, DecisionPolicy.deserialize_serialize]
    rfl
  show ((List.mapM (readKind DecisionPolicy.deserialize) [("boolean", policy.serialize.1)]).map
    OrdMap.ofList) = _
  rw [List.mapM_cons, List.mapM_nil, hread]
  rfl

omit [DebugTexts] in
theorem deserialize_emitted (id : String) (policy : DecisionPolicy) :
    LadderProfile.deserialize (Value.struct (kindFields id
      (.struct [("boolean", some policy.serialize)]))).1 = some (kindOnly id .boolean policy) := by
  have hnames (kinds : Value) : ((kindFields id kinds).map Prod.fst).Nodup := by
    simp [kindFields]
  have hclosed (kinds : Value) : (Fields.keyed (Value.structFields (kindFields id kinds))).closed
      ["id", "per_node", "per_kind", "per_family", "calibrations"] = true :=
    Value.closed_struct (hnames kinds) (by simp [kindFields])
  rw [Value.struct_val, LadderProfile.deserialize, asClosed, fields?_obj, Option.bind_some,
    if_pos (hclosed _), Value.required_struct (hnames _) rfl, Value.asStr_str]
  have hkinds := asKindMap_boolean policy
  rw [Value.struct_val] at hkinds
  simp only [Fields.defaulted, Fields.slot_keyed, kindFields, Option.bind_eq_bind,
    Option.bind_some]
  simp [hkinds, kindOnly]

theorem intoLadder_kindOnly {kind : NodeKind} {policy : DecisionPolicy}
    (hid : id ≠ "" ∧ id ≠ "none") : ∃ ladder, (kindOnly id kind policy).intoLadder = .ok ladder :=
  LadderProfile.intoLadder_exists.mpr ⟨.inr (.inr (by simp [kindOnly, OrdMap.ofList, OrdMap.insert,
    OrdMap.keys, insertSorted, OrdMap.empty])), ⟨hid, fun _ h => absurd h List.not_mem_nil⟩,
    fun _ _ h => by cases h⟩

/-- What is emitted for a fit is read back and loads, and its ladder decides every Boolean node at
the fitted boundary. -/
def Loads (id : String) (fit : BooleanThresholdFit) (base : DecisionPolicy) : Prop :=
  ∃ document profile ladder, emitBooleanProfile id fit base = .ok document ∧
    LadderProfile.deserialize document.1 = some profile ∧ profile.intoLadder = .ok ladder ∧
    ladder.id = id ∧ ∀ nodeId family, ∃ policy,
      ladder.resolve nodeId .boolean family = some (policy, "kind:boolean") ∧
        policy.booleanThreshold = some fit.threshold

omit [DebugTexts] in
theorem emitBooleanProfile_eq (hid : id ≠ "" ∧ id ≠ "none")
    (hrange : 0 ≤ fit.threshold ∧ fit.threshold < 1) : ∃ policy : DecisionPolicy,
      policy.booleanThreshold = some fit.threshold ∧ emitBooleanProfile id fit base =
        .ok (.struct (kindFields id (.struct [("boolean", some policy.serialize)]))) := by
  refine ⟨{ base with
    booleanThreshold := some fit.threshold
    booleanThreshold_range := by simpa using hrange }, rfl, ?_⟩
  rw [emitBooleanProfile, if_neg (not_or.mpr hid), DecisionPolicy.withBooleanThreshold,
    dif_pos hrange]
  rfl

/-- The validator's range is all that decides whether the emitted profile loads. -/
theorem loads_iff (hid : id ≠ "" ∧ id ≠ "none") :
    Loads id fit base ↔ 0 ≤ fit.threshold ∧ fit.threshold < 1 := by
  constructor
  · rintro ⟨document, -, -, hemit, -⟩
    by_contra hrange
    rw [emitBooleanProfile, if_neg (not_or.mpr hid), DecisionPolicy.withBooleanThreshold,
      dif_neg hrange] at hemit
    cases hemit
  · intro hrange
    obtain ⟨policy, hthreshold, hemit⟩ := @emitBooleanProfile_eq _ id fit base hid hrange
    obtain ⟨ladder, hladder⟩ := @intoLadder_kindOnly _ _ id .boolean policy hid
    have hcarries := LadderProfile.carries_of_intoLadder hladder
    refine ⟨_, _, ladder, hemit, deserialize_emitted id policy, hladder, hcarries.id,
      fun nodeId family => ⟨policy, ?_, hthreshold⟩⟩
    rw [hcarries.governed]
    exact .kind rfl (fun _ _ => rfl) (OrdMap.get?_insert_self _ _ _)

/-- The fit is the smallest threshold of the grid with the highest score, no worse than the argmax
boundary, and what is emitted for it loads under every valid id. -/
def FitLoads (evidence : List BooleanEvidence) : Prop :=
  ∃ step ≤ 50, ∃ fit, fitBooleanThreshold evidence = some fit ∧
    (fit.threshold = gridThreshold step ∧ fit.f1 = f1At evidence fit.threshold ∧
      fit.f1AtArgmax = f1At evidence (1 / 2) ∧ fit.f1AtArgmax ≤ fit.f1 ∧
      (∀ k ≤ 50, f1At evidence (gridThreshold k) ≤ fit.f1) ∧
      ∀ k < step, f1At evidence (gridThreshold k) < fit.f1) ∧
    ∀ id base, id ≠ "" ∧ id ≠ "none" → Loads id fit base

end Emitted

/-- The fit loads exactly when a boundary below the last one of the grid scores as high as the
last. -/
theorem fitLoads_iff [RustStd] [DebugTexts] (evidence : List BooleanEvidence)
    (h : evidence ≠ []) : FitLoads evidence ↔
      ∃ k < 50, f1At evidence (gridThreshold 50) ≤ f1At evidence (gridThreshold k) := by
  obtain ⟨step, hstep, hfit, hmax, hfirst⟩ := fitBooleanThreshold_eq evidence h
  constructor
  · rintro ⟨step', hstep', fit, hsome, ⟨hthreshold, hf1, -, -, hbest, -⟩, hloads⟩
    have hrange := (loads_iff ⟨by decide, by decide⟩).mp
      (hloads "fit-v1" .defaults ⟨by decide, by decide⟩)
    rw [hthreshold] at hrange hf1
    have hlt := (gridThreshold_bounds step' (by omega)).2.2.2.mp hrange.2
    exact ⟨step', hlt, hf1 ▸ hbest 50 le_rfl⟩
  · rintro ⟨k, hk, hle⟩
    have hlt : step < 50 := by
      by_contra hnot
      have hfifty : step = 50 := by omega
      rw [hfifty] at hfirst
      exact absurd hle (not_le.mpr (hfirst k hk))
    refine ⟨step, hstep, _, hfit, ⟨rfl, rfl, rfl, ?_, hmax, hfirst⟩, fun id base hid => ?_⟩
    · rw [← gridThreshold_zero]
      exact hmax 0 (by omega)
    · obtain ⟨-, hnonneg, -, hone⟩ := gridThreshold_bounds step (by omega)
      exact (loads_iff hid).mpr ⟨hnonneg, hone.mpr hlt⟩

section Samples

attribute [local instance] plainStd LadderProfile.quoted

/-- Every boundary up to nine tenths tells these rows apart. -/
def separated : List BooleanEvidence := [⟨nearest (9 / 10), true⟩, ⟨nearest (1 / 5), false⟩]

theorem fitLoads_separated : FitLoads separated :=
  (fitLoads_iff separated (by decide)).mpr ⟨0, by decide, by decide +kernel⟩

/-- Rows that 1.00 and 0.50 tell apart equally well, up to the rounding of their scores. -/
def tied : List BooleanEvidence :=
  [⟨1, true⟩, ⟨1, true⟩, ⟨nearest (199 / 200), true⟩, ⟨nearest (199 / 200), false⟩,
    ⟨nearest (199 / 200), false⟩, ⟨nearest (1 / 10), true⟩]

example : f1At tied (gridThreshold 0) = 6004799503160660 / 9007199254740992 ∧
    (fitBooleanThreshold tied).map BooleanThresholdFit.threshold = some 1 := by decide +kernel

def topHeavy : List BooleanEvidence := [⟨1, true⟩, ⟨nearest (199 / 200), false⟩]

theorem fitBooleanThreshold_topHeavy :
    fitBooleanThreshold topHeavy = some ⟨1, 1, nearest (2 / 3), 2⟩ := by decide +kernel

theorem not_fitLoads_topHeavy : topHeavy ≠ [] ∧ ¬ FitLoads topHeavy := by
  refine ⟨by decide, ?_⟩
  rintro ⟨-, -, fit, hfit, -, hloads⟩
  rw [fitBooleanThreshold_topHeavy] at hfit
  cases hfit
  have hrange := (loads_iff ⟨by decide, by decide⟩).mp
    (hloads "fit-v1" .defaults ⟨by decide, by decide⟩)
  exact absurd hrange.2 (lt_irrefl 1)

end Samples

end LadderFit

end OpenCodifier
