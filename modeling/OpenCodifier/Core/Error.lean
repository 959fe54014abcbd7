import Mathlib.Data.Rat.Defs
import Mathlib.Algebra.Order.Ring.Rat
set_option autoImplicit false

namespace OpenCodifier

/-- What can go wrong while building canonical values. The image variant that
only the native decoder raises is left out. -/
inductive CoreError where
  | emptyField (field : String)
  | emptyCandidates (question : String)
  | duplicateCandidate (id : String)
  | tooFewLevels (question : String) (count : Nat)
  | duplicateLevel (label : String)
  | invalidPolicy (reason : String)
  | invalidId (value : String) (reason : String)
  | invalidProbability (value : ℚ)
  | distributionNotNormalized (sum : ℚ) (tolerance : ℚ)
  | emptyQuestions
  | unsupportedMediaType (mediaType : String)
  | imageTooLarge (bytes : Nat) (limit : Nat)
  | tooManyImages (count : Nat) (limit : Nat)
  | invalidEscalation (reason : String)
  deriving DecidableEq

def CoreError.code : CoreError → String
  | .emptyField _ => "ir.empty_field"
  | .emptyCandidates _ => "ir.empty_candidates"
  | .duplicateCandidate _ => "ir.duplicate_candidate"
  | .tooFewLevels _ _ => "ir.too_few_levels"
  | .duplicateLevel _ => "ir.duplicate_level"
  | .invalidPolicy _ => "ir.invalid_policy"
  | .invalidId _ _ => "ir.invalid_id"
  | .invalidProbability _ => "ir.invalid_probability"
  | .distributionNotNormalized _ _ => "ir.distribution_not_normalized"
  | .emptyQuestions => "ir.empty_questions"
  | .unsupportedMediaType _ => "ir.unsupported_media_type"
  | .imageTooLarge _ _ => "ir.image_too_large"
  | .tooManyImages _ _ => "ir.too_many_images"
  | .invalidEscalation _ => "ir.invalid_escalation"

abbrev CoreResult := Except CoreError

def sumTolerance : ℚ := 1 / 1000000

/-- Floats are modelled as exact rationals, so finiteness is not a test. -/
def isUnitInterval (value : ℚ) : Bool := decide (0 ≤ value ∧ value ≤ 1)

theorem isUnitInterval_iff (value : ℚ) : isUnitInterval value = true ↔ 0 ≤ value ∧ value ≤ 1 := by
  simp [isUnitInterval]

/-- The parts of the standard library that the rational model has no closed form
for, as parameters: transcendental functions, the display of a float, and the
Unicode tables behind `char` and `str::to_lowercase`. -/
class RustStd where
  log2 : ℚ → ℚ
  ln : ℚ → ℚ
  exp : ℚ → ℚ
  sqrt : ℚ → ℚ
  powf : ℚ → ℚ → ℚ
  display : ℚ → String
  isAlphanumeric : Char → Bool
  isWhitespace : Char → Bool
  toLowercase : String → String

/-- The text `thiserror` derives for an error. -/
def CoreError.display [RustStd] : CoreError → String
  | .emptyField field => "required field `" ++ field ++ "` must not be empty"
  | .emptyCandidates question =>
    "choice question `" ++ question ++ "` must have at least one candidate"
  | .duplicateCandidate id => "duplicate candidate id `" ++ id ++ "`"
  | .tooFewLevels question count =>
    "score question `" ++ question ++ "` needs at least two ordered levels, got " ++ toString count
  | .duplicateLevel label => "duplicate score level `" ++ label ++ "`"
  | .invalidPolicy reason => "invalid decision policy: " ++ reason
  | .invalidId value reason => "invalid identifier `" ++ value ++ "`: " ++ reason
  | .invalidProbability value =>
    "probability/confidence out of range: " ++ RustStd.display value
  | .distributionNotNormalized sum tolerance =>
    "distribution sums to " ++ RustStd.display sum ++ ", expected 1.0 (tolerance "
      ++ RustStd.display tolerance ++ ")"
  | .emptyQuestions => "request must contain at least one question"
  | .unsupportedMediaType mediaType =>
    "unsupported image media type `" ++ mediaType ++ "` (supported: image/png, image/jpeg)"
  | .imageTooLarge bytes limit =>
    "encoded image is " ++ toString bytes ++ " bytes, wire ceiling is " ++ toString limit
  | .tooManyImages count limit =>
    "request carries " ++ toString count ++ " images, limit is " ++ toString limit
  | .invalidEscalation reason => "invalid escalation report: " ++ reason

end OpenCodifier
