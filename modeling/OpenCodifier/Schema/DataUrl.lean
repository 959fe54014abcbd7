import OpenCodifier.Schema.Codec
import OpenCodifier.Schema.StateSerde
set_option autoImplicit false

namespace OpenCodifier

open Json

/-- `str::strip_prefix`. -/
def stripPrefix (mark text : List Char) : Option (List Char) :=
  if mark.isPrefixOf text then some (text.drop mark.length) else none

def splitAtText (mark : List Char) : List Char → Option (List Char × List Char)
  | [] => if mark = [] then some ([], []) else none
  | c :: rest =>
    match stripPrefix mark (c :: rest) with
    | some after => some ([], after)
    | none => (splitAtText mark rest).map fun parts => (c :: parts.1, parts.2)

@[simp] theorem stripPrefix_append (mark text : List Char) :
    stripPrefix mark (mark ++ text) = some text := by
  simp [stripPrefix]

theorem splitAtText_append {c : Char} {before : List Char} (mark after : List Char)
    (h : c ∉ before) : splitAtText (c :: mark) (before ++ (c :: mark) ++ after) =
      some (before, after) := by
  induction before with
  | nil =>
    have hstrip := stripPrefix_append (c :: mark) after
    simp only [List.cons_append] at hstrip
    simp [splitAtText, hstrip]
  | cons b before ih =>
    have hb := List.ne_of_not_mem_cons h
    have hrest := List.not_mem_of_not_mem_cons h
    have hstrip : stripPrefix (c :: mark) (b :: (before ++ (c :: mark) ++ after)) = none := by
      simp [stripPrefix, hb]
    rw [List.cons_append, List.cons_append, splitAtText, hstrip, ih hrest]
    rfl

section Images

def mediaTypeOf (value : String) : SchemaResult ImageMediaType :=
  match ImageMediaType.tryFrom value with
  | some mediaType => .ok mediaType
  | none => .error (.core (.unsupportedMediaType value))

def decodeBase64Image (field payload : String) : SchemaResult (List UInt8) :=
  match Base64.decode payload.toList with
  | some bytes => .ok bytes
  | none => .error (.invalidValue field "payload is not valid base64")

def parseImageDataUrl (field url : String) : SchemaResult ImageInput :=
  match stripPrefix "data:".toList url.toList with
  | none => .error (.invalidValue field "image reference must be a `data:` URL")
  | some rest =>
    match splitAtText ";base64,".toList rest with
    | none => .error (.invalidValue field "image reference must carry `;base64,` encoded data")
    | some (media, payload) => do
      let mediaType ← mediaTypeOf (String.ofList media)
      let bytes ← decodeBase64Image field (String.ofList payload)
      pure ⟨mediaType, bytes⟩

def dataUrl (image : ImageInput) : String :=
  "data:" ++ image.mediaType.asStr ++ ";base64," ++ String.ofList (Base64.encode image.data)

theorem decodeBase64Image_encode (field : String) (bytes : List UInt8) :
    decodeBase64Image field (String.ofList (Base64.encode bytes)) = .ok bytes := by
  simp [decodeBase64Image, Base64.decode_encode]

theorem parseImageDataUrl_dataUrl (field : String) (image : ImageInput) :
    parseImageDataUrl field (dataUrl image) = .ok image := by
  have hmedia : ';' ∉ image.mediaType.asStr.toList := by
    cases image.mediaType <;> decide
  have hsplit := splitAtText_append "base64,".toList (Base64.encode image.data) hmedia
  have hurl : (dataUrl image).toList = "data:".toList ++ (image.mediaType.asStr.toList ++
      (';' :: "base64,".toList) ++ Base64.encode image.data) := by
    simp [dataUrl]
  have hmark : ";base64,".toList = ';' :: "base64,".toList := by decide
  simp only [parseImageDataUrl, hurl, stripPrefix_append, hmark, hsplit]
  simp [mediaTypeOf, ImageMediaType.tryFrom_asStr, decodeBase64Image_encode, bind, Except.bind,
    pure, Except.pure]

end Images

end OpenCodifier
