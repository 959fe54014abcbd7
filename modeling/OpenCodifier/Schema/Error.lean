import OpenCodifier.Lib.Json
import OpenCodifier.Core.Error
set_option autoImplicit false

namespace OpenCodifier

inductive SchemaError where
  | unsupportedConstruct (construct context : String)
  | unsupportedGenerationField (field : String)
  | missingField (field context : String)
  | invalidType (field expected got : String)
  | invalidValue (field reason : String)
  | limitExceeded (limit : String) (actual max : Nat)
  | emptyQuestions
  | core (error : CoreError)
  | json (reason : String)
  deriving DecidableEq

abbrev SchemaResult := Except SchemaError

namespace SchemaError

def unsupported (construct : String) : SchemaError := .unsupportedConstruct construct ""

def missing (field : String) : SchemaError := .missingField field ""

def jsonTypeName : Json → String
  | .null => "null"
  | .bool _ => "boolean"
  | .num _ => "number"
  | .str _ => "string"
  | .arr _ => "array"
  | .obj _ => "object"

def invalidTypeOf (field expected : String) (got : Json) : SchemaError :=
  .invalidType field expected (jsonTypeName got)

def code : SchemaError → String
  | unsupportedConstruct _ _ => "schema.unsupported_construct"
  | unsupportedGenerationField _ => "schema.unsupported_generation_field"
  | missingField _ _ => "schema.missing_field"
  | invalidType _ _ _ => "schema.invalid_type"
  | invalidValue _ _ => "schema.invalid_value"
  | limitExceeded _ _ _ => "schema.limit_exceeded"
  | emptyQuestions => "schema.empty_questions"
  | core error =>
    if error.code = "ir.empty_questions" then "schema.empty_questions"
    else if error.code = "ir.empty_field" then "schema.missing_field"
    else "schema.invalid_value"
  | json _ => "schema.invalid_json"

def display [RustStd] : SchemaError → String
  | unsupportedConstruct construct context =>
    "unsupported construct `" ++ construct ++ "`" ++ context
  | unsupportedGenerationField field =>
    "free-form generation field `" ++ field ++ "` cannot become a decision task"
  | missingField field context => "missing required field `" ++ field ++ "`" ++ context
  | invalidType field expected got =>
    "field `" ++ field ++ "` has an invalid type: expected " ++ expected ++ ", got " ++ got
  | invalidValue field reason => "invalid value for `" ++ field ++ "`: " ++ reason
  | limitExceeded limit actual max =>
    "limit `" ++ limit ++ "` exceeded: " ++ toString actual ++ " > " ++ toString max
  | emptyQuestions => "request must contain at least one question"
  | core error => error.display
  | json reason => "payload is not valid JSON: " ++ reason

end SchemaError

/-- The texts a deserializer gives for the documents it refuses, by the type it was to read. -/
class SerdeTexts where
  refusal : String → Json → String

def ofCoreSchema {α : Type} : CoreResult α → SchemaResult α
  | .ok a => .ok a
  | .error e => .error (.core e)

theorem ofCoreSchema_ok_iff {α : Type} {x : CoreResult α} {a : α} :
    ofCoreSchema x = .ok a ↔ x = .ok a := by
  cases x <;> simp [ofCoreSchema]

theorem ofCoreSchema_ok {α : Type} {x : CoreResult α} {a : α} (h : ofCoreSchema x = .ok a) :
    x = .ok a := by
  cases x with
  | ok b =>
    cases h
    rfl
  | error e => cases h

end OpenCodifier
