import OpenCodifier.Lib.Base64
import OpenCodifier.Lib.Json
import OpenCodifier.Core.Response
set_option autoImplicit false

namespace OpenCodifier

open Json

section Identifiers

variable {kind : IdKind}

def Ident.serialize (id : Ident kind) : Value := .str id.text

def Ident.deserialize (j : Json) : Option (Ident kind) := do
  let value ← asStr j
  (Ident.new value).toOption

@[simp] theorem Ident.deserialize_serialize (id : Ident kind) :
    Ident.deserialize id.serialize.1 = some id := by
  simp [deserialize, serialize, Ident.new_text, Except.toOption]

end Identifiers

namespace FactValue

def contents : List (String × (Json → Option FactValue)) :=
  [("text", fun j => (Json.asStr j).map .text), ("integer", fun j => (asI64 j).map .integer),
    ("float", fun j => (asFloat j).map .float), ("boolean", fun j => (asBool j).map .boolean),
    ("list", fun j => (asList Json.asStr j).map .list)]

def tagged (kind : String) (content : Value) : Value :=
  .struct [("kind", some (.str kind)), ("value", some content)]

def serialize : FactValue → Value
  | text value => tagged "text" (.str value)
  | integer value => tagged "integer" (.int value)
  | float value => tagged "float" (.float value)
  | boolean value => tagged "boolean" (.bool value)
  | list items => tagged "list" (.array (items.map .str))

def deserialize (j : Json) : Option FactValue := do
  let f ← j.fields? 2
  let read ← f.required 0 "kind" (asVariant contents)
  f.required 1 "value" read

/-- An integer fact holds a 64-bit word. -/
def FitsWords : FactValue → Prop
  | integer value => -2 ^ 63 ≤ value ∧ value < 2 ^ 63
  | _ => True

instance : DecidablePred FactValue.FitsWords
  | integer _ => inferInstanceAs (Decidable (_ ∧ _))
  | text _ | float _ | boolean _ | list _ => instDecidableTrue

theorem deserialize_serialize {value : FactValue} (h : value.FitsWords) :
    deserialize value.serialize.1 = some value := by
  cases value with
  | text value => simp [deserialize, serialize, tagged, Fields.required, contents]
  | integer value =>
    have hread := Value.asI64_int h
    simp [deserialize, serialize, tagged, Fields.required, contents, hread]
  | float value => simp [deserialize, serialize, tagged, Fields.required, contents]
  | boolean value => simp [deserialize, serialize, tagged, Fields.required, contents]
  | list items =>
    have hread : asList Json.asStr (Value.array (items.map .str)).1 = some items :=
      Value.asList_array fun a _ => Value.asStr_str a
    simp [deserialize, serialize, tagged, Fields.required, contents, hread]

end FactValue

section Images

/-- The wire ceiling on one encoded image. -/
def maxEncodedImageBytes : Nat := 16 * 1024 * 1024

namespace ImageMediaType

def asStr : ImageMediaType → String
  | png => "image/png"
  | jpeg => "image/jpeg"

/-- The canonical names and the file extensions. -/
def tryFrom (value : String) : Option ImageMediaType :=
  if value = "image/png" ∨ value = "png" then some png
  else if value = "image/jpeg" ∨ value = "jpeg" ∨ value = "jpg" then some jpeg
  else none

theorem tryFrom_asStr (mediaType : ImageMediaType) : tryFrom mediaType.asStr = some mediaType := by
  cases mediaType <;> rfl

end ImageMediaType

namespace ImageInput

def serialize (image : ImageInput) : Value :=
  .struct [("media_type", some (.str image.mediaType.asStr)),
    ("data", some (.str (String.ofList (Base64.encode image.data))))]

def deserialize (j : Json) : Option ImageInput := do
  let f ← j.fields? 2
  let mediaType ← f.required 0 "media_type" Json.asStr
  let data ← f.required 1 "data" Json.asStr
  let mediaType ← ImageMediaType.tryFrom mediaType
  if maxEncodedImageBytes < data.utf8ByteSize then none
  else do
    let bytes ← Base64.decode data.toList
    some ⟨mediaType, bytes⟩

def FitsWire (image : ImageInput) : Prop :=
  4 * ((image.data.length + 2) / 3) ≤ maxEncodedImageBytes

instance (image : ImageInput) : Decidable image.FitsWire := inferInstanceAs (Decidable (_ ≤ _))

theorem utf8ByteSize_ofList {l : List Char} (h : ∀ c ∈ l, c.utf8Size = 1) :
    (String.ofList l).utf8ByteSize = l.length := by
  induction l with
  | nil => rfl
  | cons c l ih =>
    rw [String.ofList_cons, String.utf8ByteSize_append, String.utf8ByteSize_singleton,
      ih fun d hd => h d (List.mem_cons_of_mem _ hd), h c List.mem_cons_self, List.length_cons,
      Nat.add_comm]

theorem deserialize_serialize_eq (image : ImageInput) :
    deserialize image.serialize.1 = if image.FitsWire then some image else none := by
  have hsize := utf8ByteSize_ofList (Base64.utf8Size_encode image.data)
  rw [Base64.length_encode] at hsize
  by_cases hfits : image.FitsWire
  · rw [if_pos hfits]
    rw [FitsWire, ← hsize] at hfits
    simp [deserialize, serialize, Fields.required, ImageMediaType.tryFrom_asStr,
      Base64.decode_encode, not_lt.mpr hfits]
  · rw [if_neg hfits]
    rw [FitsWire, ← hsize, not_le] at hfits
    simp [deserialize, serialize, Fields.required, hfits]

theorem deserialize_serialize {image : ImageInput} (h : image.FitsWire) :
    deserialize image.serialize.1 = some image := by
  rw [deserialize_serialize_eq, if_pos h]

end ImageInput

end Images

namespace State

def serialize (s : State) : Value :=
  .struct [("text", some (.str s.text)),
    ("facts", some (.object (s.facts.mapValues fun _ value => value.serialize))),
    ("images", Value.skipIf (s.images = []) (.array (s.images.map ImageInput.serialize)))]

def deserialize (j : Json) : Option State := do
  let f ← j.fields? 3
  let text ← f.required 0 "text" asStr
  let facts ← f.defaulted 1 "facts" OrdMap.empty (asMap FactValue.deserialize)
  let images ← f.defaulted 2 "images" [] (asList ImageInput.deserialize)
  some ⟨text, facts, images⟩

def FitsWords (s : State) : Prop := ∀ e ∈ s.facts.entries, e.2.FitsWords

theorem deserialize_serialize {s : State} (hw : s.FitsWords) (hi : ∀ image ∈ s.images, image.FitsWire) :
    deserialize s.serialize.1 = some s := by
  have hfacts : asMap FactValue.deserialize
      (Value.object (s.facts.mapValues fun _ value => value.serialize)).1 = some s.facts :=
    Value.asMap_object fun e he => FactValue.deserialize_serialize (hw e he)
  have himages : asList ImageInput.deserialize
      (Value.array (s.images.map ImageInput.serialize)).1 = some s.images :=
    Value.asList_array fun image h => ImageInput.deserialize_serialize (hi image h)
  by_cases hempty : s.images = []
  · simp [deserialize, serialize, Fields.required, Fields.defaulted, hfacts, Value.skipIf, hempty]
    rw [← hempty]
  · simp [deserialize, serialize, Fields.required, Fields.defaulted, hfacts, Value.skipIf, hempty,
      himages]

theorem deserialize_serialize_none {s : State} (h : ∃ image ∈ s.images, ¬ image.FitsWire) :
    deserialize s.serialize.1 = none := by
  have himages : asList ImageInput.deserialize
      (Value.array (s.images.map ImageInput.serialize)).1 = none := by
    obtain ⟨image, himage, hfits⟩ := h
    refine Value.asList_array_none ⟨image, himage, ?_⟩
    rw [ImageInput.deserialize_serialize_eq, if_neg hfits]
  have hne : s.images ≠ [] := by
    obtain ⟨image, himage, -⟩ := h
    exact List.ne_nil_of_mem himage
  simp [deserialize, serialize, Fields.required, Fields.defaulted, Value.skipIf, hne, himages]

end State

end OpenCodifier
