import OpenCodifier.Schema.Error
import OpenCodifier.Core.Request
set_option autoImplicit false

namespace OpenCodifier

open Json

/-- The two directions of an adapter that a server uses: a request in, a response out. -/
structure WireFormat where
  name : String
  decodeRequest : Value → Limits → SchemaResult DecisionRequest
  encodeResponse : DecisionResponse → SchemaResult Value

section Ceilings

def within (limit : String) (actual max : Nat) : SchemaResult Unit :=
  if max < actual then .error (.limitExceeded limit actual max) else .ok ()

@[simp] theorem within_ok_iff (limit : String) (actual max : Nat) :
    within limit actual max = .ok () ↔ actual ≤ max := by
  unfold within
  split
  · simp only [reduceCtorEq, false_iff]
    omega
  · simp only [true_iff]
    omega

def enforceLimits (stateBytes questionCount : Nat) (limits : Limits) : SchemaResult Unit := do
  within "max_input_bytes" stateBytes limits.maxInputBytes
  if questionCount = 0 then .error .emptyQuestions
  else within "max_questions" questionCount limits.maxQuestions

/-- Every format but the native one keys answers by question id. -/
def enforceUniqueQuestions (request : DecisionRequest) : SchemaResult Unit :=
  match firstRepeat [] request.questionIds with
  | some id =>
    .error (.invalidValue "questions" ("question id `" ++ id.text ++
      "` appears twice; every format but native keys answers by id"))
  | none => .ok ()

theorem enforceUniqueQuestions_ok_iff (request : DecisionRequest) :
    enforceUniqueQuestions request = .ok () ↔ request.questionIds.Nodup := by
  have hnone := firstRepeat_none [] request.questionIds
  unfold enforceUniqueQuestions
  split
  · rename_i id h
    simp [← hnone.trans (and_iff_left (by simp)), h]
  · rename_i h
    simpa using (hnone.mp h).1

def enforceCandidateLimit (candidateCount : Nat) (limits : Limits) : SchemaResult Unit :=
  within "max_candidates" candidateCount limits.maxCandidates

end Ceilings

section Support

def asObject (field : String) : Json → SchemaResult (List (String × Json))
  | .obj fields => .ok fields
  | j => .error (.invalidTypeOf field "object" j)

def asString (field : String) : Json → SchemaResult String
  | .str value => .ok value
  | j => .error (.invalidTypeOf field "string" j)

def requiredString (fields : List (String × Json)) (field : String) : SchemaResult String :=
  match lookup fields field with
  | some j => asString field j
  | none => .error (.missing field)

def requiredObject (fields : List (String × Json)) (field : String) :
    SchemaResult (List (String × Json)) :=
  match lookup fields field with
  | some j => asObject field j
  | none => .error (.missing field)

def requiredArray (fields : List (String × Json)) (field : String) : SchemaResult (List Json) :=
  match lookup fields field with
  | some (.arr items) => .ok items
  | some j => .error (.invalidTypeOf field "array" j)
  | none => .error (.missing field)

def optionalString (fields : List (String × Json)) (field : String) :
    SchemaResult (Option String) :=
  match lookup fields field with
  | none => .ok none
  | some .null => .ok none
  | some j => some <$> asString field j

/-- An empty text counts as a missing one. -/
def nonEmpty (field value : String) : SchemaResult String :=
  if value = "" then .error (.missingField field " must not be empty") else .ok value

/-- A value the canonical types refuse, named after the field it came in. -/
def orInvalid [RustStd] {α : Type} (field : String) : CoreResult α → SchemaResult α
  | .ok a => .ok a
  | .error e => .error (.invalidValue field e.display)

theorem asObject_ok {field : String} {j : Json} {fields : List (String × Json)}
    (h : asObject field j = .ok fields) : j = .obj fields := by
  cases j with
  | obj fields' =>
    cases h
    rfl
  | _ => cases h

theorem requiredObject_ok {fields inner : List (String × Json)} {field : String}
    (h : requiredObject fields field = .ok inner) : lookup fields field = some (.obj inner) := by
  unfold requiredObject at h
  split at h
  · rename_i j hj
    rw [hj, asObject_ok h]
  · cases h

theorem orInvalid_ok [RustStd] {α : Type} {field : String} {x : CoreResult α} {a : α}
    (h : orInvalid field x = .ok a) : x = .ok a := by
  cases x with
  | ok b =>
    cases h
    rfl
  | error e => cases h

end Support

end OpenCodifier
