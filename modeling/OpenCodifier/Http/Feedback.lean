import OpenCodifier.Http.Routes
set_option autoImplicit false

namespace OpenCodifier

open Json

inductive EvidenceLine where
  | blank
  | text (parsed : Except String Json)

structure FeedbackRow where
  pTrue : ℚ
  label : Bool
  source : String
  digest : Option String
  deriving DecidableEq

namespace FeedbackRow

def sources : List String := ["human", "host_model", "outcome"]

def value (row : FeedbackRow) : Value :=
  .struct [("p_true", some (.float row.pTrue)), ("label", some (.bool row.label)),
    ("source", some (.str row.source)), ("digest", some (.ofOption (row.digest.map .str)))]

def line (row : FeedbackRow) : EvidenceLine := .text (.ok row.value.1)

/-- What both appenders check before they write a row. -/
def Recorded (row : FeedbackRow) : Prop :=
  (0 ≤ row.pTrue ∧ row.pTrue ≤ 1) ∧ row.source ∈ sources

instance (row : FeedbackRow) : Decidable row.Recorded :=
  inferInstanceAs (Decidable ((_ ∧ _) ∧ _))

end FeedbackRow

namespace Http

def FeedbackBody.deserialize (j : Json) : Option FeedbackRow := do
  let f ← j.fields? 4
  if !f.once ["p_true", "label", "source", "digest"] then none
  let pTrue ← f.required 0 "p_true" asFloat
  let label ← f.required 1 "label" asBool
  let source ← f.required 2 "source" asStr
  let digest ← f.defaulted 3 "digest" none (asOption asStr)
  some ⟨pTrue, label, source, digest⟩

variable [SerdeTexts]

def feedbackRow (body : Body) : Except HttpError FeedbackRow :=
  let refuse (error : String) : Except HttpError FeedbackRow :=
    .error (.schema (.invalidValue "body" ("not a feedback document: " ++ error)))
  match body with
  | .error error => refuse error
  | .ok document =>
    match FeedbackBody.deserialize document with
    | none => refuse (SerdeTexts.refusal "FeedbackBody" document)
    | some row =>
      if ¬ (0 ≤ row.pTrue ∧ row.pTrue ≤ 1) then
        .error (.schema (.invalidValue "p_true" "must be within [0, 1]"))
      else if row.source ∉ FeedbackRow.sources then
        .error (.schema (.invalidValue "source" "must be one of: human, host_model, outcome"))
      else .ok row

/-- Append a row to the sink; without a sink or a row the file stays as it is. -/
def feedbackHandler (sink : Option (List EvidenceLine)) (body : Body) :
    Option (List EvidenceLine) × Except HttpError Value :=
  match sink with
  | none => (none, .error .feedbackDisabled)
  | some file =>
    match feedbackRow body with
    | .error e => (some file, .error e)
    | .ok row =>
      (some (file ++ [row.line]),
        .ok (.struct [("appended", some (.nat 1)), ("source", some (.str row.source))]))

theorem feedbackRow_recorded {body : Body} {row : FeedbackRow} (h : feedbackRow body = .ok row) :
    row.Recorded := by
  simp only [feedbackRow] at h
  split at h
  · cases h
  · split at h
    · cases h
    · split_ifs at h with hp hs
      cases h
      exact ⟨hp, hs⟩

/-- A recorded row is the row of its own document. -/
theorem feedbackRow_value {row : FeedbackRow} (h : row.Recorded) :
    feedbackRow (.ok row.value.1) = .ok row := by
  have hread : FeedbackBody.deserialize row.value.1 = some row := by
    obtain ⟨pTrue, label, source, digest⟩ := row
    cases digest <;>
      simp [FeedbackBody.deserialize, FeedbackRow.value, Fields.required, Fields.defaulted, asFloat,
        asBool, asStr, asOption, Value.ofOption, Value.float, Value.bool, Value.str, Value.null]
  simp only [feedbackRow, hread, not_not.mpr h.1, not_not.mpr h.2, if_false]

end Http

end OpenCodifier
