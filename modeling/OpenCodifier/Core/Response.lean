import Mathlib.Data.String.Basic
import OpenCodifier.Core.Answer
import OpenCodifier.Core.Policy
import OpenCodifier.Lib.OrdMap
import OpenCodifier.Core.Ids
set_option autoImplicit false

namespace OpenCodifier

inductive FactValue where
  | text (value : String)
  | integer (value : Int)
  | float (value : ℚ)
  | boolean (value : Bool)
  | list (items : List String)
  deriving DecidableEq

namespace FactValue

def asF64 : FactValue → Option ℚ
  | integer value => some value
  | float value => some value
  | _ => none

def asStr : FactValue → Option String
  | text value => some value
  | _ => none

def isBoolean (expected : Bool) : FactValue → Bool
  | boolean value => value == expected
  | _ => false

def listContains (item : String) : FactValue → Bool
  | list items => items.any fun candidate => candidate == item
  | _ => false

end FactValue

inductive ImageMediaType where
  | png
  | jpeg
  deriving DecidableEq

structure ImageInput where
  mediaType : ImageMediaType
  data : List UInt8
  deriving DecidableEq

/-- The text and the typed facts a decision is evaluated against. Facts iterate
in key order whatever order they were inserted in. -/
structure State where
  text : String
  facts : OrdMap String FactValue
  images : List ImageInput
  deriving DecidableEq

namespace State

def fromText (text : String) : State := ⟨text, OrdMap.empty, []⟩

def withFact (s : State) (key : String) (value : FactValue) : State :=
  { s with facts := s.facts.insert key value }

def withImage (s : State) (image : ImageInput) : State :=
  { s with images := s.images ++ [image] }

def fact (s : State) (key : String) : Option FactValue := s.facts.get? key

def hasImages (s : State) : Bool := !s.images.isEmpty

@[simp] theorem withFact_text (s : State) (k : String) (v : FactValue) :
    (s.withFact k v).text = s.text := rfl

@[simp] theorem withFact_images (s : State) (k : String) (v : FactValue) :
    (s.withFact k v).images = s.images := rfl

end State

inductive DecisionOutcome where
  | accept
  | verified
  | verify
  | abstain
  | escalate
  | noValidCandidate
  deriving DecidableEq

def DecisionOutcome.isDecisive : DecisionOutcome → Bool
  | accept => true
  | verified => true
  | _ => false

structure ConfidenceReport where
  topProbability : ℚ
  margin : ℚ
  entropy : ℚ
  calibratedConfidence : ℚ
  oodScore : ℚ
  verifierAgreement : Option Bool
  deriving DecidableEq

def DecisionPolicy.uncertaintyGateTrips (p : DecisionPolicy) (report : ConfidenceReport) : Bool :=
  p.entropyCeiling ≤ (report.entropy : WithTop ℚ)
    || report.margin < p.minMargin
    || p.oodCeiling < (report.oodScore : WithTop ℚ)

namespace ConfidenceReport

def fromDistribution [RustStd] (d : Distribution) (calibrated oodScore : ℚ)
    (verifierAgreement : Option Bool) : ConfidenceReport where
  topProbability := d.top.probability
  margin := d.margin
  entropy := d.entropy
  calibratedConfidence := calibrated
  oodScore := oodScore
  verifierAgreement := verifierAgreement

def acceptingRisk : RiskLevel → Bool
  | .low => true
  | .medium => true
  | _ => false

def outcomeFor (r : ConfidenceReport) (p : DecisionPolicy) : DecisionOutcome :=
  if r.calibratedConfidence < p.abstainBelow then .abstain
  else if p.escalateBelow.any fun t => r.calibratedConfidence < t then .escalate
  else if p.minConfidence ≤ r.calibratedConfidence && acceptingRisk p.risk
      && !p.uncertaintyGateTrips r then .accept
  else .verify

theorem outcomeFor_cases (r : ConfidenceReport) (p : DecisionPolicy) :
    r.outcomeFor p = .abstain ∨ r.outcomeFor p = .escalate ∨ r.outcomeFor p = .accept ∨
      r.outcomeFor p = .verify := by
  unfold outcomeFor
  split
  · simp
  · split
    · simp
    · split <;> simp

theorem outcomeFor_escalate_iff (r : ConfidenceReport) (p : DecisionPolicy) :
    r.outcomeFor p = .escalate ↔ p.abstainBelow ≤ r.calibratedConfidence ∧
      ∃ t, p.escalateBelow = some t ∧ r.calibratedConfidence < t := by
  unfold outcomeFor
  split
  · rename_i h
    simp [h]
  · rename_i h
    split
    · rename_i he
      simp only [true_iff]
      refine ⟨not_lt.mp h, ?_⟩
      cases hp : p.escalateBelow with
      | none => simp [hp] at he
      | some t => exact ⟨t, rfl, by simpa [hp] using he⟩
    · rename_i he
      constructor
      · split <;> simp
      · rintro ⟨_, t, ht, hlt⟩
        exact absurd (by simpa [ht] using hlt) he

theorem outcomeFor_accept {r : ConfidenceReport} {p : DecisionPolicy}
    (h : r.outcomeFor p = .accept) :
    p.minConfidence ≤ r.calibratedConfidence ∧ p.uncertaintyGateTrips r = false := by
  unfold outcomeFor at h
  split at h
  · cases h
  · split at h
    · cases h
    · split at h
      · rename_i hacc
        simp only [Bool.and_eq_true, decide_eq_true_eq, Bool.not_eq_true'] at hacc
        exact ⟨hacc.1.1, hacc.2⟩
      · cases h

theorem outcomeFor_congr {r s : ConfidenceReport} (p : DecisionPolicy)
    (hm : r.margin = s.margin) (he : r.entropy = s.entropy)
    (hc : r.calibratedConfidence = s.calibratedConfidence) (ho : r.oodScore = s.oodScore) :
    r.outcomeFor p = s.outcomeFor p := by
  simp [outcomeFor, DecisionPolicy.uncertaintyGateTrips, hm, he, hc, ho]

end ConfidenceReport

structure TraceEntry where
  node : String
  detail : OrdMap String FactValue
  deriving DecidableEq

def TraceEntry.new (node : String) (detail : List (String × FactValue)) : TraceEntry :=
  ⟨node, OrdMap.ofList detail⟩

structure DecisionMetrics where
  candidatesIn : Nat
  candidatesOut : Nat
  cacheHit : Bool
  verificationTriggered : Bool
  deriving DecidableEq

end OpenCodifier
