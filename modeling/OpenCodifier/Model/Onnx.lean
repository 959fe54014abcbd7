import OpenCodifier.Model.Kai
import OpenCodifier.Model.Vision
set_option autoImplicit false

namespace OpenCodifier

open Kai (violation flattened orViolation)

structure Encoding where
  ids : List Nat
  attentionMask : List Nat
  aligned : attentionMask.length = ids.length

namespace Encoding

def width (encodings : List Encoding) : Nat :=
  ((encodings.map fun encoding => encoding.ids.length).max?).getD 1

def castId (value : Nat) : ℚ := castF32 value

def inputIds (padId width : Nat) (encodings : List Encoding) : List ℚ :=
  (encodings.map fun encoding =>
    Batch.padded width (castId padId) (encoding.ids.map castId)).flatten

/-- The mask, zero at every pad position. -/
def attentionMasks (width : Nat) (encodings : List Encoding) : List ℚ :=
  (encodings.map fun encoding =>
    Batch.padded width 0 (encoding.attentionMask.map castId)).flatten

end Encoding

section Texts

structure OnnxSiglip2Embedder where
  text : InferenceBackend
  demandsAttentionMask : Bool
  tokenizer : String → Except String Encoding
  padId : Nat
  dims : Nat

namespace OnnxSiglip2Embedder

/-- The rows of an output, with its width checked. -/
def rowsOf (embeddings : DenseTensor) (batch dims : Nat) : ModelResult (List (List ℚ)) :=
  let width := embeddings.shape[1]?.getD 0
  if embeddings.shape.head? ≠ some batch then
    violation ("\x60" ++ poolerOutput ++ "\x60 must return " ++ toString batch ++
      " rows, got first shape " ++ debugShape embeddings.shape)
  else if width ≠ dims then
    violation ("\x60" ++ poolerOutput ++ "\x60 row width " ++ toString width ++
      " does not match the config's hidden_size " ++ toString dims)
  else
    (List.range batch).mapM fun row =>
      orViolation ("\x60" ++ poolerOutput ++ "\x60 lost row " ++ toString row ++ " of " ++
        toString batch) (embeddings.row row)

def pooledRows (outputs : OrdMap String DenseTensor) (tower : String) (batch dims : Nat) :
    ModelResult (List (List ℚ)) := do
  let embeddings ← orViolation
    ("the " ++ tower ++ " graph did not return \x60" ++ poolerOutput ++ "\x60")
    (outputs.get? poolerOutput)
  rowsOf embeddings batch dims

variable (self : OnnxSiglip2Embedder)

def encode (text : String) : ModelResult Encoding :=
  match self.tokenizer text with
  | .ok encoding => .ok encoding
  | .error error => .error (.tokenizer ("prompt encode failed: " ++ error))

/-- The inputs of the text graph; it gets the mask only when it demands one. -/
def tensors (encodings : List Encoding) (width : Nat) : ModelResult (OrdMap String DenseTensor) := do
  let batch := encodings.length
  let inputIds ← flattened (fun error => "\x60" ++ inputIdsName ++ "\x60: " ++ error.display)
    (DenseTensor.new [batch, width] (Encoding.inputIds self.padId width encodings))
  let tensors := OrdMap.empty.insert inputIdsName inputIds
  if self.demandsAttentionMask then do
    let attentionMask ← flattened
      (fun error => "\x60" ++ attentionMaskName ++ "\x60: " ++ error.display)
      (DenseTensor.new [batch, width] (Encoding.attentionMasks width encodings))
    pure (tensors.insert attentionMaskName attentionMask)
  else pure tensors

def embedEncodings (encodings : List Encoding) : ModelResult (List (List ℚ)) :=
  let width := Encoding.width encodings
  if width = 0 then violation "a prompt encoded to zero tokens; refusing an empty row"
  else do
    let tensors ← self.tensors encodings width
    let outputs ← flattened (fun error => "text graph failed: " ++ error.display)
      (self.text.infer tensors)
    pooledRows outputs "text" encodings.length self.dims

def embedTexts (texts : List String) : ModelResult (List (List ℚ)) :=
  if texts = [] then .ok []
  else do
    let encodings ← texts.mapM self.encode
    self.embedEncodings encodings

def toEmbedder (modelId : String)
    (embedImages : List ImageInput → Except String (List (List ℚ))) : ImageTextEmbedder where
  modelId := modelId
  embedImages := embedImages
  embedTexts texts := (self.embedTexts texts).mapError ModelError.display

end OnnxSiglip2Embedder

end Texts

section Pairs

/-- The column of entailment in the logits. -/
def entailIndex : Nat := 0

def softmaxAt [RustStd] (values : List ℚ) (index : Nat) : ℚ :=
  let maximum := values.foldl max (values.headD 0)
  let shifted := values.map fun logit => RustStd.exp (logit - maximum)
  shifted.getD index 0 / shifted.sum

structure OnnxNliScorer where
  backend : InferenceBackend
  tokenizer : String × String → Except String Encoding
  padId : Nat

namespace OnnxNliScorer

variable [RustStd] (self : OnnxNliScorer)

def encode (premise hypothesis : String) : ModelResult Encoding :=
  match self.tokenizer (premise, hypothesis) with
  | .ok encoding => .ok encoding
  | .error error => .error (.tokenizer ("pair encode failed: " ++ error))

/-- The inputs of the graph, always with a mask. -/
def tensors (encodings : List Encoding) : ModelResult (OrdMap String DenseTensor) := do
  let batch := encodings.length
  let width := Encoding.width encodings
  let inputIds ← flattened RuntimeError.display
    (DenseTensor.new [batch, width] (Encoding.inputIds self.padId width encodings))
  let attentionMask ← flattened RuntimeError.display
    (DenseTensor.new [batch, width] (Encoding.attentionMasks width encodings))
  pure ((OrdMap.empty.insert inputIdsName inputIds).insert attentionMaskName attentionMask)

def masses (logits : DenseTensor) (batch : Nat) : ModelResult (List ℚ) :=
  let classes := logits.shape[1]?.getD 0
  if classes < entailIndex + 1 then
    violation ("\x60" ++ logitsOutput ++ "\x60 row width " ++ toString classes ++
      " has no entailment column " ++ toString entailIndex)
  else
    (List.range batch).mapM fun row => do
      let values ← orViolation ("\x60" ++ logitsOutput ++ "\x60 lost row " ++ toString row ++
        " of " ++ toString batch) (logits.row row)
      pure (softmaxAt values entailIndex)

def scoreEncodings (encodings : List Encoding) : ModelResult (List ℚ) := do
  let tensors ← self.tensors encodings
  let outputs ← flattened (fun error => "graph execution failed: " ++ error.display)
    (self.backend.infer tensors)
  let logits ← orViolation ("the graph did not return \x60" ++ logitsOutput ++ "\x60")
    (outputs.get? logitsOutput)
  masses logits encodings.length

def entailmentProbabilities (premise : String) (hypotheses : List String) :
    ModelResult (List ℚ) :=
  if hypotheses = [] then
    violation "no hypotheses to score: the question verbalized to zero rows"
  else do
    let encodings ← hypotheses.mapM (self.encode premise)
    self.scoreEncodings encodings

end OnnxNliScorer

end Pairs

end OpenCodifier
