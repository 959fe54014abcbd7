import Mathlib.Data.String.Basic
set_option autoImplicit false

namespace OpenCodifier

inductive ModelError where
  | invalidManifest (manifest reason : String)
  | sha256Mismatch (artifact expected actual : String)
  | unreadableArtifact (artifact reason : String)
  | contractViolation (reason : String)
  | promptTooLong (id : String) (tokens maxTokens : Nat)
  | tokenizer (reason : String)
  deriving DecidableEq

def ModelError.display : ModelError → String
  | invalidManifest manifest reason =>
    "invalid model manifest \x60" ++ manifest ++ "\x60: " ++ reason
  | sha256Mismatch artifact expected actual =>
    "model artifact \x60" ++ artifact ++ "\x60 sha256 mismatch: expected " ++ expected ++ ", got " ++
      actual
  | unreadableArtifact artifact reason =>
    "model artifact \x60" ++ artifact ++ "\x60 could not be read: " ++ reason
  | contractViolation reason => "candidate-conditioned contract violated: " ++ reason
  | promptTooLong id tokens maxTokens =>
    "prompt is " ++ toString tokens ++ " tokens, above the " ++ toString maxTokens ++
      " token budget for \x60" ++ id ++ "\x60"
  | tokenizer reason => "tokenizer failed: " ++ reason

abbrev ModelResult := Except ModelError

class DebugTexts where
  str : String → String

end OpenCodifier
