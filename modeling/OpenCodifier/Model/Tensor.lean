import Mathlib.Algebra.BigOperators.Ring.List
import Mathlib.Data.String.Basic
import Mathlib.Algebra.Order.Field.Rat
import OpenCodifier.Lib.OrdMap
import OpenCodifier.Lib.Batch
set_option autoImplicit false

namespace OpenCodifier

inductive RuntimeError where
  | invalidTensor (reason : String)
  | missingInput (name : String)
  | backendFailed (modelId message : String)
  deriving DecidableEq

def RuntimeError.display : RuntimeError → String
  | invalidTensor reason => "invalid tensor: " ++ reason
  | missingInput name => "required input \x60" ++ name ++ "\x60 was not supplied"
  | backendFailed modelId message => "backend \x60" ++ modelId ++ "\x60 failed: " ++ message

def maxTensorElements : Nat := 2 ^ 24

def debugShape (shape : List Nat) : String :=
  "[" ++ ", ".intercalate (shape.map toString) ++ "]"

/-- A dense row-major tensor of finite numbers. -/
structure DenseTensor where
  shape : List Nat
  data : List ℚ
  shape_ne : shape ≠ []
  dims_pos : ∀ dim ∈ shape, 0 < dim
  count : data.length = shape.prod
  small : shape.prod ≤ maxTensorElements
  deriving DecidableEq

namespace DenseTensor

/-- The constructor's scan of the dimensions; the product saturates. -/
def checkDims (shape : List Nat) : Nat → Nat → List Nat → Except RuntimeError Nat
  | _, expected, [] => .ok expected
  | index, expected, dim :: rest =>
    if dim = 0 then .error (.invalidTensor ("dimension " ++ toString index ++ " is zero"))
    else
      let expected := min (expected * dim) (2 ^ 64 - 1)
      if maxTensorElements < expected then
        .error (.invalidTensor ("shape " ++ debugShape shape ++ " implies " ++ toString expected ++
          " elements, above the " ++ toString maxTensorElements ++ " limit"))
      else checkDims shape (index + 1) expected rest

theorem checkDims_ok {shape rest : List Nat} {index expected : Nat}
    (h : expected ≤ maxTensorElements) {total : Nat} :
    checkDims shape index expected rest = .ok total ↔
      (∀ dim ∈ rest, 0 < dim) ∧ expected * rest.prod ≤ maxTensorElements ∧
        total = expected * rest.prod := by
  induction rest generalizing index expected with
  | nil =>
    simp only [checkDims, Except.ok.injEq, List.prod_nil, mul_one, List.not_mem_nil, false_imp_iff,
      implies_true, true_and, h]
    exact eq_comm
  | cons dim rest ih =>
    rw [checkDims, List.prod_cons, List.forall_mem_cons, ← mul_assoc]
    split
    · rename_i hzero
      simp [hzero]
    · rename_i hzero
      dsimp only
      split
      · rename_i hlarge
        refine ⟨nofun, fun ⟨⟨_, hpos⟩, hle, _⟩ => ?_⟩
        have hrest : 1 ≤ rest.prod :=
          Nat.one_le_iff_ne_zero.mpr (List.prod_ne_zero fun hm => absurd (hpos 0 hm) (lt_irrefl 0))
        have hmul := Nat.mul_le_mul_left (expected * dim) hrest
        have hmin := Nat.min_le_left (expected * dim) (2 ^ 64 - 1)
        omega
      · rename_i hsmall
        have hmax : maxTensorElements < 2 ^ 64 - 1 := by decide
        have hexact : min (expected * dim) (2 ^ 64 - 1) = expected * dim := by omega
        rw [hexact] at hsmall ⊢
        rw [ih (not_lt.mp hsmall)]
        have hpos : 0 < dim := Nat.pos_of_ne_zero hzero
        simp only [hpos, true_and]

def new (shape : List Nat) (data : List ℚ) : Except RuntimeError DenseTensor :=
  if hne : shape = [] then .error (.invalidTensor "shape is empty")
  else match h : checkDims shape 0 1 shape with
    | .error e => .error e
    | .ok expected =>
      if hc : data.length ≠ expected then
        .error (.invalidTensor ("shape " ++ debugShape shape ++ " implies " ++ toString expected ++
          " elements, data carries " ++ toString data.length))
      else
        .ok {
          shape, data
          shape_ne := hne
          dims_pos := ((checkDims_ok (by decide)).mp h).1
          count := by
            have htotal := ((checkDims_ok (by decide)).mp h).2.2
            rw [one_mul] at htotal
            omega
          small := by
            have hle := ((checkDims_ok (by decide)).mp h).2.1
            rwa [one_mul] at hle }

theorem new_ok {shape : List Nat} {data : List ℚ} (hne : shape ≠ [])
    (hpos : ∀ dim ∈ shape, 0 < dim) (hcount : data.length = shape.prod)
    (hsmall : shape.prod ≤ maxTensorElements) :
    ∃ t, new shape data = .ok t ∧ t.shape = shape ∧ t.data = data := by
  have hdims : checkDims shape 0 1 shape = .ok shape.prod :=
    (checkDims_ok (by decide)).mpr ⟨hpos, by rwa [one_mul], (one_mul _).symm⟩
  unfold new
  rw [dif_neg hne]
  split
  · rename_i e he
    rw [hdims] at he
    cases he
  · rename_i expected he
    rw [hdims] at he
    cases he
    rw [dif_neg (not_not.mpr hcount)]
    exact ⟨_, rfl, rfl, rfl⟩

theorem shape_of_new {shape : List Nat} {data : List ℚ} {t : DenseTensor}
    (h : new shape data = .ok t) : t.shape = shape ∧ t.data = data := by
  unfold new at h
  split at h
  · cases h
  · split at h
    · cases h
    · split at h
      · cases h
      · cases h
        exact ⟨rfl, rfl⟩

def row (t : DenseTensor) (r : Nat) : Option (List ℚ) :=
  match t.shape with
  | [rows, width] => if rows ≤ r then none else some (Batch.row width t.data r)
  | _ => none

theorem row_of_rows {t : DenseTensor} {rows : List (List ℚ)} {width : Nat}
    (hshape : t.shape = [rows.length, width]) (hdata : t.data = rows.flatten)
    (hwidth : ∀ xs ∈ rows, xs.length = width) (r : Nat) : t.row r = rows[r]? := by
  rw [row, hshape]
  dsimp only
  split
  · rename_i hr
    exact (List.getElem?_eq_none hr).symm
  · rename_i hr
    have hget := List.getElem?_eq_getElem (not_le.mp hr)
    rw [hget, hdata, Batch.row_flatten hwidth hget]

def Holds (rows width : Nat) : Prop := 0 < rows ∧ 0 < width ∧ rows * width ≤ maxTensorElements

instance (rows width : Nat) : Decidable (Holds rows width) :=
  inferInstanceAs (Decidable (_ ∧ _ ∧ _))

theorem new_rows {rows : List (List ℚ)} {width : Nat} (h : ∀ xs ∈ rows, xs.length = width)
    (hholds : Holds rows.length width) :
    ∃ t, new [rows.length, width] rows.flatten = .ok t ∧ t.shape = [rows.length, width] ∧
      ∀ r, t.row r = rows[r]? := by
  obtain ⟨hrows, hwidth, hsmall⟩ := hholds
  have hall : rows.map List.length = List.replicate rows.length width :=
    List.eq_replicate_iff.mpr ⟨List.length_map _, by simpa using h⟩
  have hprod : [rows.length, width].prod = rows.length * width := by
    rw [List.prod_cons, List.prod_singleton]
  obtain ⟨t, hnew, hshape, hdata⟩ := @new_ok [rows.length, width] rows.flatten
    (List.cons_ne_nil _ _) (by simpa using ⟨hrows, hwidth⟩)
    (by rw [List.length_flatten, hall, List.sum_replicate, hprod]; rfl) (by rwa [hprod])
  exact ⟨t, hnew, hshape, fun r => row_of_rows hshape hdata h r⟩

theorem holds_of_shape {t : DenseTensor} {rows width : Nat} (h : t.shape = [rows, width]) :
    Holds rows width := by
  have hpos := t.dims_pos
  have hsmall := t.small
  rw [h] at hpos hsmall
  rw [List.prod_cons, List.prod_singleton] at hsmall
  exact ⟨hpos rows (by simp), hpos width (by simp), hsmall⟩

theorem new_refused {rows width : Nat} (h : ¬ Holds rows width) (data : List ℚ) :
    ∃ error, new [rows, width] data = .error error := by
  cases hnew : new [rows, width] data with
  | error error => exact ⟨error, rfl⟩
  | ok t => exact absurd (holds_of_shape (shape_of_new hnew).1) h

theorem length_rows (t : DenseTensor) {rows width : Nat} (h : t.shape = [rows, width]) {r : Nat}
    {xs : List ℚ} (hr : t.row r = some xs) : xs.length = width := by
  have hcount := t.count
  rw [row, h] at hr
  dsimp only at hr
  split at hr
  · cases hr
  · rename_i hlt
    cases hr
    rw [h, List.prod_cons, List.prod_singleton] at hcount
    have hfits : (r + 1) * width ≤ rows * width := Nat.mul_le_mul_right width (by omega)
    rw [Nat.succ_mul] at hfits
    rw [Batch.row, List.length_take, List.length_drop]
    omega

end DenseTensor

/-- Rounds half to even after a shift. -/
def shiftEven (n shift : Nat) : Nat :=
  let high := n / 2 ^ shift
  let low := n % 2 ^ shift
  if 2 ^ shift < 2 * low ∨ (2 ^ shift = 2 * low ∧ high % 2 = 1) then high + 1 else high

/-- The nearest number with a significand of 24 bits, `as f32`. -/
def castF32 (value : Int) : ℚ :=
  let shift := Nat.log2 value.natAbs - 23
  ((value.sign * (shiftEven value.natAbs shift * 2 ^ shift : Nat) : Int) : ℚ)

theorem castF32_zero : castF32 0 = 0 := by decide +kernel

theorem castF32_one : castF32 1 = 1 := by decide +kernel

structure InferenceBackend where
  modelId : String
  infer : OrdMap String DenseTensor → Except RuntimeError (OrdMap String DenseTensor)

section Names

def inputIdsName : String := "input_ids"

def attentionMaskName : String := "attention_mask"

def answerPosName : String := "answer_pos"

def optionPosName : String := "option_pos"

def logitsOutput : String := "logits"

def poolerOutput : String := "pooler_output"

end Names

end OpenCodifier
