import OpenCodifier.Schema.Native
import OpenCodifier.Schema.PolicyGates
set_option autoImplicit false

namespace OpenCodifier

open Json

/-- A field the decoder may miss: where it stands, how its default can be written out, and whether
the encoder writes it at its default. -/
structure OptionalField where
  path : List Step
  key : String
  defaults : List Value
  written : Bool

inductive RequestField where
  | policy
  | metadata
  | facts
  | images
  | gate (g : PolicyGate)
  | requestId
  | family
  | maxImageBytes
  | maxImages
  deriving DecidableEq

namespace RequestField

abbrev inState : Step := ⟨"state", 0⟩

abbrev inPolicy : Step := ⟨"policy", 2⟩

abbrev inMetadata : Step := ⟨"metadata", 3⟩

abbrev inLimits : Step := ⟨"limits", 1⟩

def spec : RequestField → OptionalField
  | policy => ⟨[], "policy", [DecisionPolicy.defaults.serialize], true⟩
  | metadata => ⟨[], "metadata", [RequestMetadata.serialize {}], true⟩
  | facts => ⟨[inState], "facts", [.object .empty], true⟩
  | images => ⟨[inState], "images", [.array []], false⟩
  | gate g => ⟨[inPolicy], g.key, g.defaults, false⟩
  | requestId => ⟨[inMetadata], "request_id", [.null], true⟩
  | family => ⟨[inMetadata], "family", [.null], false⟩
  | maxImageBytes => ⟨[inMetadata, inLimits], "max_image_bytes", [.nat 2097152], false⟩
  | maxImages => ⟨[inMetadata, inLimits], "max_images", [.nat 4], false⟩

end RequestField

inductive ResponseField where
  | escalation
  | verifierAgreement
  | partialAnswer
  | truncated
  deriving DecidableEq

namespace ResponseField

abbrev inConfidence : Step := ⟨"confidence", 2⟩

abbrev inEscalation : Step := ⟨"escalation", 5⟩

abbrev inPayload : Step := ⟨"payload", 4⟩

def spec : ResponseField → OptionalField
  | escalation => ⟨[], "escalation", [.null], false⟩
  | verifierAgreement => ⟨[inConfidence], "verifier_agreement", [.null], true⟩
  | partialAnswer => ⟨[inEscalation, inPayload], "partial_answer", [.null], true⟩
  | truncated => ⟨[inEscalation, inPayload], "truncated", [.bool false], false⟩

end ResponseField

section Law

variable {α σ : Type} (deserialize : Json → Option α) (serialize : α → Value)
  (spec : σ → OptionalField)

/-- What a codec makes of a default that is written out: it reads as before, and the search for an
unknown key notices it exactly where the encoder would not have written it. -/
structure Tolerates : Prop where
  reads : ∀ {site : σ} {value : Value} {j j' : Json}, value ∈ (spec site).defaults →
    addAt (spec site).key value.1 (spec site).path j = some j' → deserialize j' = deserialize j
  noticed : ∀ {site : σ} {value : Value} {j j' : Json} {a : α},
    value ∈ (spec site).defaults →
    addAt (spec site).key value.1 (spec site).path j = some j' → deserialize j = some a →
    Noticed (spec site).path (spec site).key value.1 (spec site).written j (serialize a).1

def addAll : List (σ × Value) → Json → Option Json
  | [], j => some j
  | (site, value) :: rest, j => do
    let j ← addAt (spec site).key value.1 (spec site).path j
    addAll rest j

/-- Every field is one the encoder writes, or goes into an array where it is added. -/
def AllWritten : List (σ × Value) → Json → Prop
  | [], _ => True
  | (site, value) :: rest, j =>
    ((spec site).written = true ∨ ¬ Keyed (spec site).path j) ∧
      ∀ j', addAt (spec site).key value.1 (spec site).path j = some j' → AllWritten rest j'

variable {deserialize serialize spec}

theorem canonical_addAll {additions : List (σ × Value)} {j j' : Json} (hj : j.Canonical)
    (h : addAll spec additions j = some j') : j'.Canonical := by
  induction additions generalizing j with
  | nil =>
    cases h
    exact hj
  | cons e rest ih =>
    obtain ⟨site, value⟩ := e
    obtain ⟨j1, hadd, hrest⟩ := Option.bind_eq_some_iff.mp h
    exact ih (canonical_addAt value.2 hj hadd) hrest

/-- Additions leave what is read as it is, and are all tolerated exactly when all are written. -/
theorem Tolerates.addAll_law (ht : Tolerates deserialize serialize spec)
    {additions : List (σ × Value)} (hd : ∀ e ∈ additions, e.2 ∈ (spec e.1).defaults)
    {j j' : Json} (hj : j.Canonical) (h : addAll spec additions j = some j') {a : α}
    (ha : deserialize j = some a) :
    deserialize j' = some a ∧
      (unknownKey j' (serialize a).1 = none ↔
        unknownKey j (serialize a).1 = none ∧ AllWritten spec additions j) := by
  induction additions generalizing j with
  | nil =>
    cases h
    exact ⟨ha, by simp [AllWritten]⟩
  | cons e rest ih =>
    obtain ⟨site, value⟩ := e
    obtain ⟨j1, hadd, hrest⟩ := Option.bind_eq_some_iff.mp h
    have hvalue := hd (site, value) List.mem_cons_self
    have hread : deserialize j1 = some a := by rw [ht.reads hvalue hadd, ha]
    have hone := unknownKey_addAt hj hadd (serialize a).1
    have hnoticed := ht.noticed hvalue hadd ha
    unfold Noticed at hnoticed
    obtain ⟨hsame, hiff⟩ := ih (fun e he => hd e (List.mem_cons_of_mem _ he))
      (canonical_addAt value.2 hj hadd) hrest hread
    refine ⟨hsame, ?_⟩
    rw [hiff, hone, hnoticed, AllWritten]
    simp only [hadd, Option.some.injEq, forall_eq', and_assoc]

end Law

end OpenCodifier
