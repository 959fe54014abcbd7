import Mathlib.Data.String.Basic
import Mathlib.Order.Basic
import OpenCodifier.Core.Error
set_option autoImplicit false

namespace OpenCodifier

def maxIdLen : Nat := 128

def idChar (c : Char) : Bool :=
  c.isAlphanum || c = '_' || c = '-' || c = '.'

def validateId (value : String) : CoreResult Unit :=
  if value = "" then
    .error (.invalidId value "must not be empty")
  else if value.utf8ByteSize > maxIdLen then
    .error (.invalidId value ("exceeds " ++ toString maxIdLen ++ " bytes"))
  else if !value.toList.all idChar then
    .error (.invalidId value "only [A-Za-z0-9_.-] are allowed")
  else .ok ()

/-- The four identifier types the source's macro generates. -/
inductive IdKind where
  | candidate
  | question
  | node
  | family
  deriving DecidableEq

/-- An identifier of one kind: only validated text can be wrapped. -/
structure Ident (kind : IdKind) where
  text : String
  valid : validateId text = .ok ()
  deriving DecidableEq

abbrev CandidateId := Ident .candidate
abbrev QuestionId := Ident .question
abbrev NodeId := Ident .node
abbrev DecisionFamily := Ident .family

instance (kind : IdKind) : LawfulBEq (Ident kind) := inferInstance

namespace Ident

variable {kind : IdKind}

def new (value : String) : CoreResult (Ident kind) :=
  match h : validateId value with
  | .ok () => .ok ⟨value, h⟩
  | .error e => .error e

theorem text_injective : Function.Injective (Ident.text : Ident kind → String) := by
  intro a b h
  cases a
  cases b
  cases h
  rfl

/-- Identifiers are ordered by their text. -/
instance : LinearOrder (Ident kind) := LinearOrder.lift' Ident.text text_injective

theorem ext_text {a b : Ident kind} (h : a.text = b.text) : a = b := text_injective h

theorem new_text (a : Ident kind) : Ident.new a.text = .ok a := by
  obtain ⟨text, valid⟩ := a
  unfold Ident.new
  split
  · rfl
  · rename_i e h
    rw [valid] at h
    cases h

theorem new_ok {value : String} {a : Ident kind} (h : Ident.new value = .ok a) :
    a.text = value := by
  unfold Ident.new at h
  split at h
  · cases h
    rfl
  · cases h

end Ident

example : ((Ident.new "tool-gate_1" : CoreResult NodeId).toOption.map Ident.text)
    = some "tool-gate_1" := by decide

end OpenCodifier
