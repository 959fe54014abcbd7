import Mathlib.Data.List.Dedup
import OpenCodifier.Lib.Neighbours
import OpenCodifier.Lib.Result
import OpenCodifier.Core.Error
import OpenCodifier.Model.Error
import OpenCodifier.Model.Tensor
set_option autoImplicit false

namespace OpenCodifier

inductive KaiKind where
  | choice
  | noul
  | score
  deriving DecidableEq

def KaiKind.takesScoreBias : KaiKind → Bool
  | score => true
  | _ => false

structure KaiEncoding where
  ids : List Int
  optionPos : List Nat
  answerPos : Nat
  keys : List String
  kind : KaiKind
  deriving DecidableEq

namespace Kai

def minCandidates : Nat := 2

def maxCandidates : Nat := 255

def padId : Int := 0

def violation {α : Type} (reason : String) : ModelResult α := .error (.contractViolation reason)

/-- A token position as an index of the graph. -/
def castPosition (position : Nat) : Int := position

/-- A failure of the runtime layer, flattened into a reason. -/
def flattened {α : Type} (reason : RuntimeError → String) : Except RuntimeError α → ModelResult α
  | .ok a => .ok a
  | .error e => violation (reason e)

def orViolation {α : Type} (reason : String) : Option α → ModelResult α
  | some a => .ok a
  | none => violation reason

end Kai

open Kai

namespace KaiEncoding

/-- The pointer invariants, checked in the order of the source. -/
def validate (self : KaiEncoding) : ModelResult Unit :=
  let count := self.keys.length
  if self.optionPos.length ≠ count then
    violation ("pointer count " ++ toString self.optionPos.length ++
      " must equal the candidate count " ++ toString count)
  else if count < minCandidates ∨ maxCandidates < count then
    violation ("candidate count " ++ toString count ++ " outside " ++ toString minCandidates ++
      "..=" ++ toString maxCandidates)
  else if self.optionPos.dedup.length ≠ count then violation "option pointers must be distinct"
  else if !(Neighbours.windows self.optionPos).all fun pair => pair.1 < pair.2 then
    violation "option pointers must be strictly increasing"
  else if self.answerPos ≠ self.ids.length - 1 then
    -- the last index of no tokens wraps in the text
    violation ("answer_pos " ++ toString self.answerPos ++ " must be the last token index " ++
      toString ((self.ids.length + (2 ^ 64 - 1)) % 2 ^ 64))
  else
    match self.optionPos.find? fun position => self.answerPos ≤ position with
    | some position =>
      violation ("option pointer " ++ toString position ++ " must be below answer_pos " ++
        toString self.answerPos)
    | none => .ok ()

end KaiEncoding

structure KaiBatch where
  inputIds : List Int
  attentionMask : List Int
  answerPos : List Int
  optionPos : List Int
  batch : Nat
  length : Nat
  width : Nat
  deriving DecidableEq

namespace KaiBatch

def fillRow (self : KaiBatch) (entry : KaiEncoding × Nat) : ModelResult KaiBatch :=
  let encoding := entry.1
  let row := entry.2
  if encoding.keys.length ≠ encoding.optionPos.length then
    violation ("row " ++ toString row ++ ": " ++ toString encoding.keys.length ++ " keys but " ++
      toString encoding.optionPos.length ++ " option pointers")
  else
    .ok { self with
      inputIds := Batch.write self.inputIds (row * self.length) encoding.ids
      attentionMask := Batch.write self.attentionMask (row * self.length)
        (encoding.ids.map fun _ => 1)
      answerPos := self.answerPos.set row (castPosition encoding.answerPos)
      optionPos := Batch.write self.optionPos (row * self.width)
        (encoding.optionPos.map castPosition) }

def collate : List KaiEncoding → ModelResult KaiBatch
  | [] => violation "cannot collate an empty batch"
  | first :: rest =>
    let encodings := first :: rest
    let batch := encodings.length
    let length := ((encodings.map fun encoding => encoding.ids.length).max?).getD first.ids.length
    let width := ((encodings.map fun encoding => encoding.keys.length).max?).getD first.keys.length
    encodings.zipIdx.foldlM fillRow {
      inputIds := List.replicate (batch * length) padId
      attentionMask := List.replicate (batch * length) 0
      answerPos := List.replicate batch 0
      optionPos := List.replicate (batch * width) 0
      batch, length, width }

def build (name : String) (shape : List Nat) (data : List Int) : ModelResult DenseTensor :=
  flattened (fun error => "\x60" ++ name ++ "\x60: " ++ error.display)
    (DenseTensor.new shape (data.map castF32))

/-- The named tensors that the backend consumes. -/
def toTensors (self : KaiBatch) : ModelResult (OrdMap String DenseTensor) := do
  let inputIds ← build inputIdsName [self.batch, self.length] self.inputIds
  let attentionMask ← build attentionMaskName [self.batch, self.length] self.attentionMask
  let answerPos ← build answerPosName [self.batch] self.answerPos
  let optionPos ← build optionPosName [self.batch, self.width] self.optionPos
  pure (OrdMap.ofList [(inputIdsName, inputIds), (attentionMaskName, attentionMask),
    (answerPosName, answerPos), (optionPosName, optionPos)])

end KaiBatch

namespace Kai

/-- The fitted offsets, by the number of levels. -/
def scoreBiasTable : List (Nat × List ℚ) :=
  [(5, [39188 / 1000000, 203049 / 1000000, 79362 / 1000000, -15162 / 100000, -169979 / 1000000])]

def scoreBias (levels : Nat) : Option (List ℚ) :=
  (scoreBiasTable.find? fun entry => entry.1 = levels).map Prod.snd

def applyScoreBias (logits : List ℚ) : List ℚ × Bool :=
  match scoreBias logits.length with
  | some offsets =>
    if offsets.length = logits.length then
      ((logits.zip offsets).map fun e => e.1 + e.2, true)
    else (logits, false)
  | none => (logits, false)

variable [RustStd]

/-- Softmax without a fallback. -/
def softmax : List ℚ → ModelResult (List ℚ)
  | [] => violation "softmax needs at least one logit"
  | first :: rest =>
    let logits := first :: rest
    let maximum := rest.foldl max first
    let exponentials := logits.map fun logit => RustStd.exp (logit - maximum)
    let sum := exponentials.sum
    if sum ≤ 0 then violation "softmax exponentials do not sum"
    else .ok (exponentials.map fun value => value / sum)

/-- The distribution of a row of logits: the bias first, then softmax. -/
def probabilities (kind : KaiKind) (keys : List String) (logits : List ℚ) :
    ModelResult (List ℚ) :=
  if logits.length ≠ keys.length then
    violation (toString logits.length ++ " logits must match " ++ toString keys.length ++ " keys")
  else softmax (if kind.takesScoreBias then (applyScoreBias logits).1 else logits)

def rowDistribution (logits : DenseTensor) (entry : KaiEncoding × Nat) : ModelResult (List ℚ) := do
  let row ← orViolation ("row " ++ toString entry.2 ++ " missing") (logits.row entry.2)
  probabilities entry.1.kind entry.1.keys (row.take entry.1.keys.length)

/-- One distribution for each encoding. -/
def scoreBatch (backend : InferenceBackend) (encodings : List KaiEncoding) :
    ModelResult (List (List ℚ)) := do
  let batch ← KaiBatch.collate encodings
  let tensors ← batch.toTensors
  let outputs ← flattened (fun error => "backend failed: " ++ error.display)
    (backend.infer tensors)
  let logits ← orViolation ("backend did not return \x60" ++ logitsOutput ++ "\x60")
    (outputs.get? logitsOutput)
  if logits.shape ≠ [batch.batch, batch.width] then
    violation ("\x60" ++ logitsOutput ++ "\x60 must have shape [" ++ toString batch.batch ++ ", " ++
      toString batch.width ++ "], got " ++ debugShape logits.shape)
  else encodings.zipIdx.mapM (rowDistribution logits)

end Kai

end OpenCodifier
