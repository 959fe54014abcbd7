import OpenCodifier.Engine.Classifier
import OpenCodifier.Engine.Graph
import OpenCodifier.Core.Response
import OpenCodifier.Engine.Error
set_option autoImplicit false

namespace OpenCodifier

/-- A map from raw distributions to the confidence a gate may read. -/
structure Calibration where
  calibrate : String → Distribution → ℚ
  calibrateProbability : String → ℚ → ℚ
  version : Nat

def identityCalibration : Calibration where
  calibrate := fun _ d => d.top.probability
  calibrateProbability := fun _ p => p
  version := 0

/-- A single-entry distribution is a proof and keeps its raw probability. -/
def proofAwareCalibration (inner : Calibration) : Calibration where
  calibrate := fun cls d =>
    if d.entries.length = 1 then d.top.probability else inner.calibrate cls d
  calibrateProbability := inner.calibrateProbability
  version := inner.version

structure TemperatureCalibration where
  calibrationVersion : Nat
  defaultTemperature : ℚ
  temperatures : OrdMap String ℚ
  version_pos : 1 ≤ calibrationVersion
  default_pos : 0 < defaultTemperature
  temperatures_pos : ∀ cls t, temperatures.get? cls = some t → 0 < t

namespace TemperatureCalibration

variable [RustStd] (t : TemperatureCalibration)

def temperatureFor (cls : String) : ℚ := (t.temperatures.get? cls).getD t.defaultTemperature

def weight (temperature probability : ℚ) : ℚ :=
  if 0 < probability then RustStd.powf probability (1 / temperature) else 0

def rescale (d : Distribution) (temperature : ℚ) : List (String × ℚ) :=
  let rescaled := d.entries.map fun e => (e.key, weight temperature e.probability)
  let total := (rescaled.map Prod.snd).sum
  if total ≤ 0 then d.entries.map fun e => (e.key, e.probability)
  else rescaled.map fun e => (e.1, e.2 / total)

def calibration : Calibration where
  calibrate := fun cls d =>
    match (rescale d (t.temperatureFor cls)).find? fun e => e.1 = d.top.key with
    | some e => e.2
    | none => d.top.probability
  calibrateProbability := fun cls p =>
    let temperature := t.temperatureFor cls
    let total := weight temperature p + weight temperature (1 - p)
    if total ≤ 0 then p else weight temperature p / total
  version := t.calibrationVersion

end TemperatureCalibration

def questionClass : DecisionQuestion → String
  | .choice _ => "choice"
  | .boolean _ => "boolean"
  | .score _ => "score"

theorem NodeKind.ctorIdx_injective : Function.Injective NodeKind.ctorIdx := by
  intro a b h
  cases a <;> cases b <;> first | rfl | exact absurd h (by decide)

instance : LinearOrder NodeKind := LinearOrder.lift' NodeKind.ctorIdx NodeKind.ctorIdx_injective

inductive RungModality where
  | text
  | image
  deriving DecidableEq

def RungModality.isImage : RungModality → Bool
  | text => false
  | image => true

/-- One decider a question can escalate to, with its own calibration and gate
policy when it carries them. -/
structure Rung where
  classifier : Classifier
  calibration : Option Calibration := none
  policy : Option DecisionPolicy := none
  modality : RungModality := .text

/-- Gate policies per node, per family and per kind, and calibrations per rung
key. -/
structure LadderPolicy where
  id : String
  perNode : OrdMap String DecisionPolicy := OrdMap.empty
  perKind : OrdMap NodeKind DecisionPolicy := OrdMap.empty
  perFamily : OrdMap String DecisionPolicy := OrdMap.empty
  calibrations : OrdMap String Calibration := OrdMap.empty

namespace LadderPolicy

variable (l : LadderPolicy)

def isEmpty : Bool :=
  l.perNode.keys.isEmpty && l.perKind.keys.isEmpty && l.perFamily.keys.isEmpty &&
    l.calibrations.keys.isEmpty

/-- A ladder with overrides needs an id of its own, and its families must be names. -/
def validate [RustStd] : Except String Unit :=
  if !l.isEmpty && (l.id = "" || l.id = "none") then
    .error ("a non-empty ladder needs a distinct `id` (got \"" ++ l.id ++
      "\"); the id is the cache-key discriminator for ladder-gated decisions")
  else
    l.perFamily.keys.forM fun family =>
      match (Ident.new family : CoreResult DecisionFamily) with
      | .ok _ => .ok ()
      | .error e =>
        .error ("family `" ++ family ++ "` is not a usable family name: " ++ e.display)

/-- The most specific override: node id, then family, then node kind. -/
def resolve (nodeId : String) (kind : NodeKind) (family : Option String) :
    Option (DecisionPolicy × String) :=
  match l.perNode.get? nodeId with
  | some policy => some (policy, "node:" ++ nodeId)
  | none =>
    match family.bind fun f => (l.perFamily.get? f).map fun p => (p, "family:" ++ f) with
    | some found => some found
    | none => (l.perKind.get? kind).map fun policy => (policy, "kind:" ++ kind.asStr)

def resolveCalibration (nodeId : String) (kind : NodeKind) : Option (Calibration × String) :=
  match l.calibrations.get? ("node:" ++ nodeId) with
  | some calibration => some (calibration, "node:" ++ nodeId)
  | none =>
    (l.calibrations.get? ("kind:" ++ kind.asStr)).map fun calibration =>
      (calibration, "kind:" ++ kind.asStr)

end LadderPolicy

end OpenCodifier
