import OpenCodifier.Model.Kai
import OpenCodifier.Engine.Sample
set_option autoImplicit false

namespace OpenCodifier

open Kai
open Batch (Rowwise)

/-- What a graph is fed for one row: the ids under the mask, the query position, and the option
positions. -/
structure KaiRow where
  ids : List ℚ
  answer : ℚ
  options : List ℚ
  deriving DecidableEq

namespace KaiRow

def read (inputs : OrdMap String DenseTensor) (r : Nat) : Option KaiRow := do
  let ids ← (inputs.get? inputIdsName).bind fun t => t.row r
  let mask ← (inputs.get? attentionMaskName).bind fun t => t.row r
  let answer ← (inputs.get? answerPosName).bind fun t => t.data[r]?
  let options ← (inputs.get? optionPosName).bind fun t => t.row r
  pure ⟨Batch.kept 1 ids mask, answer, options⟩

def filled (row : KaiRow) (lanes : Nat) : KaiRow :=
  { row with options := row.options ++ List.replicate lanes 0 }

end KaiRow

/-- The inputs are the rows of one batch, in tensors whose shapes agree. -/
structure KaiRow.Hold (inputs : OrdMap String DenseTensor) (rows : List KaiRow)
    (length width : Nat) : Prop where
  ids : ∃ t, inputs.get? inputIdsName = some t ∧ t.shape = [rows.length, length]
  mask : ∃ t, inputs.get? attentionMaskName = some t ∧ t.shape = [rows.length, length]
  answers : ∃ t, inputs.get? answerPosName = some t ∧ t.shape = [rows.length]
  options : ∃ t, inputs.get? optionPosName = some t ∧ t.shape = [rows.length, width]
  read : ∀ r, KaiRow.read inputs r = rows[r]?

/-- The graph computes the logits of each row, if it can, from what it is fed for that row, and
zero-filled lanes do not change those of the row's own options. -/
structure RowLocal (backend : InferenceBackend) (g : KaiRow → Option (List ℚ)) : Prop where
  fill : ∀ row lanes, (g (row.filled lanes)).map (List.take row.options.length) = g row
  infer : ∀ inputs rows length width, KaiRow.Hold inputs rows length width →
    match rows.mapM g with
    | some logits => ∃ outputs tensor, backend.infer inputs = .ok outputs ∧
        outputs.get? logitsOutput = some tensor ∧ tensor.shape = [rows.length, width] ∧
        ∀ r, tensor.row r = logits[r]?
    | none => ∃ error, backend.infer inputs = .error error

namespace KaiEncoding

theorem validate_ok {e : KaiEncoding} (h : e.validate = .ok ()) :
    e.keys.length = e.optionPos.length ∧ 2 ≤ e.keys.length ∧ e.optionPos.Nodup ∧
      e.answerPos = e.ids.length - 1 ∧ ∀ position ∈ e.optionPos, position < e.answerPos := by
  unfold validate at h
  dsimp only at h
  split at h
  · cases h
  rename_i hcount
  split at h
  · cases h
  rename_i hrange
  split at h
  · cases h
  rename_i hdistinct
  split at h
  · cases h
  split at h
  · cases h
  rename_i hanswer
  split at h
  · cases h
  rename_i hbelow
  rw [not_not] at hcount hdistinct hanswer
  have hdedup : e.optionPos.dedup = e.optionPos :=
    (List.dedup_sublist _).eq_of_length (hdistinct.trans hcount.symm)
  refine ⟨hcount.symm, ?_, List.dedup_eq_self.mp hdedup, hanswer, fun position hp => ?_⟩
  · rw [minCandidates] at hrange
    omega
  · have hno := List.find?_eq_none.mp hbelow position hp
    simpa using hno

theorem options_lt_ids {e : KaiEncoding} (h : e.validate = .ok ()) :
    e.optionPos.length < e.ids.length := by
  obtain ⟨hkeys, htwo, hnodup, hanswer, hbelow⟩ := validate_ok h
  have hsub : e.optionPos ⊆ List.range e.answerPos := fun p hp => List.mem_range.mpr (hbelow p hp)
  have hle := (hnodup.subperm hsub).length_le
  rw [List.length_range] at hle
  omega

/-- What the graph is fed for an encoding alone. -/
def fed (e : KaiEncoding) : KaiRow where
  ids := e.ids.map castF32
  answer := castF32 (castPosition e.answerPos)
  options := e.optionPos.map fun position => castF32 (castPosition position)

end KaiEncoding

namespace KaiBatch

def longest (es : List KaiEncoding) : Nat := ((es.map fun e => e.ids.length).max?).getD 0

def widest (es : List KaiEncoding) : Nat := ((es.map fun e => e.keys.length).max?).getD 0

def ofRows (es : List KaiEncoding) : KaiBatch where
  inputIds := (es.map fun e => Batch.padded (longest es) padId e.ids).flatten
  attentionMask := (es.map fun e => Batch.padded (longest es) 0 (e.ids.map fun _ => 1)).flatten
  answerPos := es.map fun e => castPosition e.answerPos
  optionPos := (es.map fun e =>
    Batch.padded (widest es) 0 (e.optionPos.map castPosition)).flatten
  batch := es.length
  length := longest es
  width := widest es

def partly (length width : Nat) (done : List KaiEncoding) (left : Nat) : KaiBatch where
  inputIds := (done.map fun e => Batch.padded length padId e.ids).flatten ++
    List.replicate (left * length) padId
  attentionMask := (done.map fun e => Batch.padded length 0 (e.ids.map fun _ => 1)).flatten ++
    List.replicate (left * length) 0
  answerPos := (done.map fun e => castPosition e.answerPos) ++ List.replicate left 0
  optionPos := (done.map fun e =>
    Batch.padded width 0 (e.optionPos.map castPosition)).flatten ++
    List.replicate (left * width) 0
  batch := done.length + left
  length := length
  width := width

theorem length_padded_rows {α : Type} {width : Nat} (fill : α) {rows : List (List α)}
    (h : ∀ xs ∈ rows, xs.length ≤ width) :
    ((rows.map fun xs => Batch.padded width fill xs).flatten).length = rows.length * width := by
  rw [List.length_flatten, List.map_map]
  have hall : rows.map (List.length ∘ fun xs => Batch.padded width fill xs) =
      List.replicate rows.length width :=
    List.eq_replicate_iff.mpr ⟨by rw [List.length_map], fun n hn => by
      obtain ⟨xs, hxs, rfl⟩ := List.mem_map.mp hn
      exact Batch.length_padded fill (h xs hxs)⟩
  rw [hall, List.sum_replicate]
  rfl

/-- One turn of the loop fills the next row. -/
theorem fillRow_partly {length width : Nat} {done : List KaiEncoding} {e : KaiEncoding}
    (hkeys : e.keys.length = e.optionPos.length)
    (hids : ∀ d ∈ done ++ [e], d.ids.length ≤ length)
    (hoptions : ∀ d ∈ done ++ [e], d.optionPos.length ≤ width) (left : Nat) :
    fillRow (partly length width done (left + 1)) (e, done.length) =
      .ok (partly length width (done ++ [e]) left) := by
  have hidRows := @length_padded_rows Int length padId (done.map KaiEncoding.ids)
    (by simpa using fun d hd => hids d (List.mem_append_left _ hd))
  have hmaskRows := @length_padded_rows Int length 0 (done.map fun d => d.ids.map fun _ => 1)
    (by simpa using fun d hd => hids d (List.mem_append_left _ hd))
  have hoptionRows := @length_padded_rows Int width 0
    (done.map fun d => d.optionPos.map castPosition)
    (by simpa using fun d hd => hoptions d (List.mem_append_left _ hd))
  simp only [List.map_map, List.length_map, Function.comp_def] at hidRows hmaskRows hoptionRows
  have he : e ∈ done ++ [e] := by simp
  have hwriteIds := Batch.write_next (done.map fun d => Batch.padded length padId d.ids).flatten padId
    (hids e he) left
  have hwriteMask := Batch.write_next
    (done.map fun d => Batch.padded length (0 : Int) (d.ids.map fun _ => 1)).flatten 0
    (show (e.ids.map fun _ => (1 : Int)).length ≤ length by simpa using hids e he) left
  have hwriteOptions := Batch.write_next
    (done.map fun d => Batch.padded width 0 (d.optionPos.map castPosition)).flatten 0
    (show (e.optionPos.map castPosition).length ≤ width by simpa using hoptions e he) left
  rw [hidRows] at hwriteIds
  rw [hmaskRows] at hwriteMask
  rw [hoptionRows] at hwriteOptions
  have hanswer := Batch.set_next (done.map fun d => castPosition d.answerPos) 0
    (castPosition e.answerPos) left
  rw [List.length_map] at hanswer
  rw [fillRow, if_neg (not_not.mpr hkeys)]
  simp only [partly, hwriteIds, hwriteMask, hwriteOptions, hanswer]
  simp only [List.map_append, List.map_cons, List.map_nil, List.flatten_append,
    List.flatten_singleton, List.length_append, List.length_singleton]
  congr 2
  omega

theorem foldlM_fillRow {length width : Nat} (done todo : List KaiEncoding)
    (hkeys : ∀ e ∈ todo, e.keys.length = e.optionPos.length)
    (hids : ∀ e ∈ done ++ todo, e.ids.length ≤ length)
    (hoptions : ∀ e ∈ done ++ todo, e.optionPos.length ≤ width) :
    (todo.zipIdx done.length).foldlM fillRow (partly length width done todo.length) =
      .ok (partly length width (done ++ todo) 0) := by
  induction todo generalizing done with
  | nil =>
    rw [List.append_nil]
    rfl
  | cons e todo ih =>
    rw [List.forall_mem_cons] at hkeys
    have hassoc : done ++ e :: todo = (done ++ [e]) ++ todo := by simp
    rw [hassoc] at hids hoptions ⊢
    have hstep := fillRow_partly hkeys.1 (fun d hd => hids d (List.mem_append_left _ hd))
      (fun d hd => hoptions d (List.mem_append_left _ hd)) todo.length
    have hrest := ih (done ++ [e]) hkeys.2 hids hoptions
    rw [List.length_append, List.length_singleton] at hrest
    rw [List.zipIdx_cons, List.foldlM_cons, List.length_cons, hstep]
    exact hrest

/-- Collating gives the batch of the padded rows. -/
theorem collate_eq {es : List KaiEncoding} (hne : es ≠ [])
    (hkeys : ∀ e ∈ es, e.keys.length = e.optionPos.length) :
    collate es = .ok (ofRows es) := by
  obtain ⟨first, rest, rfl⟩ := List.exists_cons_of_ne_nil hne
  have hids : ∀ e ∈ [] ++ (first :: rest), e.ids.length ≤ longest (first :: rest) :=
    fun _ he => Batch.le_largest (fun e => e.ids.length) he
  have hoptions : ∀ e ∈ [] ++ (first :: rest), e.optionPos.length ≤ widest (first :: rest) :=
    fun e he => hkeys e he ▸ Batch.le_largest (fun e => e.keys.length) he
  have hfold := foldlM_fillRow [] (first :: rest) hkeys hids hoptions
  have hstart : ∀ (f : KaiEncoding → Nat) (d : Nat), (((first :: rest).map f).max?).getD d =
      (((first :: rest).map f).max?).getD 0 := fun f d => by simp
  rw [collate]
  simp only [hstart (fun e => e.ids.length) first.ids.length,
    hstart (fun e => e.keys.length) first.keys.length]
  refine Eq.trans ?_ (hfold.trans ?_)
  · simp only [partly, List.map_nil, List.flatten_nil, List.nil_append, List.length_nil, zero_add]
    rfl
  · simp only [partly, ofRows, List.nil_append, Nat.zero_mul, List.replicate_zero, List.append_nil,
      Nat.add_zero]

def Fits (es : List KaiEncoding) : Prop := es.length * longest es ≤ maxTensorElements

instance (es : List KaiEncoding) : Decidable (Fits es) := inferInstanceAs (Decidable (_ ≤ _))

theorem build_ok (name : String) {shape : List Nat} {data : List Int} (hne : shape ≠ [])
    (hpos : ∀ dim ∈ shape, 0 < dim) (hcount : data.length = shape.prod)
    (hsmall : shape.prod ≤ maxTensorElements) :
    ∃ t, build name shape data = .ok t ∧ t.shape = shape ∧ t.data = data.map castF32 := by
  obtain ⟨t, ht, hshape, hdata⟩ := DenseTensor.new_ok hne hpos
    (show (data.map castF32).length = shape.prod by rw [List.length_map, hcount]) hsmall
  exact ⟨t, by rw [build, ht]; rfl, hshape, hdata⟩

theorem build_small {name : String} {shape : List Nat} {data : List Int} {t : DenseTensor}
    (h : build name shape data = .ok t) : shape.prod ≤ maxTensorElements := by
  rw [build] at h
  cases hnew : DenseTensor.new shape (data.map castF32) with
  | error e =>
    rw [hnew] at h
    cases h
  | ok t' => exact (DenseTensor.shape_of_new hnew).1 ▸ t'.small

theorem row_built {t : DenseTensor} {width : Nat} {fill : Int} {es : List KaiEncoding}
    {f : KaiEncoding → List Int} (hshape : t.shape = [es.length, width])
    (hdata : t.data = ((es.map fun e => Batch.padded width fill (f e)).flatten).map castF32)
    (h : ∀ e ∈ es, (f e).length ≤ width) (r : Nat) :
    t.row r = es[r]?.map fun e => Batch.padded width (castF32 fill) ((f e).map castF32) := by
  have hrows : t.data = (es.map fun e =>
      Batch.padded width (castF32 fill) ((f e).map castF32)).flatten := by
    rw [hdata, List.map_flatten, List.map_map]
    congr 1
    exact List.map_congr_left fun _ _ => Batch.map_padded castF32 width fill _
  rw [DenseTensor.row_of_rows (by rw [hshape, List.length_map]) hrows, List.getElem?_map]
  intro xs hxs
  obtain ⟨e, he, rfl⟩ := List.mem_map.mp hxs
  exact Batch.length_padded _ (by rw [List.length_map]; exact h e he)

theorem longest_pos {es : List KaiEncoding} (hne : es ≠ [])
    (hvalid : ∀ e ∈ es, e.validate = .ok ()) : 0 < longest es ∧ 0 < widest es ∧
      widest es ≤ longest es := by
  obtain ⟨e, he⟩ := List.exists_mem_of_ne_nil es hne
  obtain ⟨hkeys, htwo, -⟩ := KaiEncoding.validate_ok (hvalid e he)
  have hlt := KaiEncoding.options_lt_ids (hvalid e he)
  have hlong : e.ids.length ≤ longest es := Batch.le_largest (fun e => e.ids.length) he
  have hwide : e.keys.length ≤ widest es := Batch.le_largest (fun e => e.keys.length) he
  obtain ⟨w, hw, hwidest⟩ := Batch.largest_mem (fun e => e.keys.length) hne
  have hwkeys := (KaiEncoding.validate_ok (hvalid w hw)).1
  have hwlt := KaiEncoding.options_lt_ids (hvalid w hw)
  have hwlong : w.ids.length ≤ longest es := Batch.le_largest (fun e => e.ids.length) hw
  have hwidest' : widest es = w.keys.length := hwidest
  omega

theorem prod_two (a b : Nat) : [a, b].prod = a * b := by
  rw [List.prod_cons, List.prod_singleton]

theorem ids_le {es : List KaiEncoding} : ∀ e ∈ es, e.ids.length ≤ longest es :=
  fun _ he => Batch.le_largest (fun e => e.ids.length) he

theorem mask_le {es : List KaiEncoding} :
    ∀ e ∈ es, (e.ids.map fun _ => (1 : Int)).length ≤ longest es := fun e he => by
  rw [List.length_map]
  exact ids_le e he

theorem options_le {es : List KaiEncoding} (hvalid : ∀ e ∈ es, e.validate = .ok ()) :
    ∀ e ∈ es, (e.optionPos.map castPosition).length ≤ widest es := fun e he => by
  rw [List.length_map, ← (KaiEncoding.validate_ok (hvalid e he)).1]
  exact Batch.le_largest (fun e => e.keys.length) he

theorem build_rows (name : String) {es : List KaiEncoding} (hne : es ≠ []) {width : Nat}
    (hwidth : 0 < width) (fill : Int) {f : KaiEncoding → List Int}
    (h : ∀ e ∈ es, (f e).length ≤ width) (hsmall : es.length * width ≤ maxTensorElements) :
    ∃ t, build name [es.length, width] ((es.map fun e => Batch.padded width fill (f e)).flatten) = .ok t ∧
      t.shape = [es.length, width] ∧
      t.data = ((es.map fun e => Batch.padded width fill (f e)).flatten).map castF32 := by
  have hlength := @length_padded_rows Int width fill (es.map f) (by simpa using h)
  simp only [List.map_map, List.length_map, Function.comp_def] at hlength
  have hrows := List.length_pos_of_ne_nil hne
  refine build_ok name (List.cons_ne_nil _ _) ?_ (by rw [prod_two, hlength]) (by rwa [prod_two])
  simp only [List.forall_mem_cons, List.not_mem_nil, false_imp_iff, implies_true, and_true]
  exact ⟨hrows, hwidth⟩

theorem toTensors_data {es : List KaiEncoding} (hne : es ≠ [])
    (hvalid : ∀ e ∈ es, e.validate = .ok ()) (hfits : Fits es) :
    ∃ inputs ids mask answers options, (ofRows es).toTensors = .ok inputs ∧
      (inputs.get? inputIdsName = some ids ∧ inputs.get? attentionMaskName = some mask ∧
        inputs.get? answerPosName = some answers ∧ inputs.get? optionPosName = some options) ∧
      (ids.shape = [es.length, longest es] ∧ ids.data =
        ((es.map fun e => Batch.padded (longest es) padId e.ids).flatten).map castF32) ∧
      (mask.shape = [es.length, longest es] ∧ mask.data =
        ((es.map fun e => Batch.padded (longest es) 0 (e.ids.map fun _ => 1)).flatten).map castF32) ∧
      (answers.shape = [es.length] ∧
        answers.data = (es.map fun e => castPosition e.answerPos).map castF32) ∧
      options.shape = [es.length, widest es] ∧ options.data =
        ((es.map fun e => Batch.padded (widest es) 0 (e.optionPos.map castPosition)).flatten).map
          castF32 := by
  obtain ⟨hlong, hwide, hle⟩ := longest_pos hne hvalid
  have hsmall : es.length * longest es ≤ maxTensorElements := hfits
  have hsmallWide := (Nat.mul_le_mul_left es.length hle).trans hsmall
  have hsmallRows := (Nat.le_mul_of_pos_right es.length hlong).trans hsmall
  obtain ⟨ids, hbuildIds, hids⟩ := build_rows inputIdsName hne hlong padId ids_le hsmall
  obtain ⟨mask, hbuildMask, hmask⟩ := build_rows attentionMaskName hne hlong 0 mask_le hsmall
  obtain ⟨answers, hbuildAnswers, hanswers⟩ := build_ok answerPosName
    (List.cons_ne_nil es.length []) (by simpa using List.length_pos_of_ne_nil hne)
    (show (es.map fun e => castPosition e.answerPos).length = _ by simp) (by simpa using hsmallRows)
  obtain ⟨options, hbuildOptions, hoptions⟩ :=
    build_rows optionPosName hne hwide 0 (options_le hvalid) hsmallWide
  have hnames : ([(inputIdsName, ids), (attentionMaskName, mask), (answerPosName, answers),
      (optionPosName, options)].map Prod.fst).Nodup := by
    change [inputIdsName, attentionMaskName, answerPosName, optionPosName].Nodup
    decide
  refine ⟨OrdMap.ofList [(inputIdsName, ids), (attentionMaskName, mask), (answerPosName, answers),
      (optionPosName, options)], ids, mask, answers, options, ?_,
    ⟨OrdMap.get?_ofList_of_mem hnames (e := (inputIdsName, ids)) (by simp),
      OrdMap.get?_ofList_of_mem hnames (e := (attentionMaskName, mask)) (by simp),
      OrdMap.get?_ofList_of_mem hnames (e := (answerPosName, answers)) (by simp),
      OrdMap.get?_ofList_of_mem hnames (e := (optionPosName, options)) (by simp)⟩,
    hids, hmask, hanswers, hoptions⟩
  simp only [toTensors, ofRows, hbuildIds, hbuildMask, hbuildAnswers, hbuildOptions, bind,
    Except.bind]
  rfl

/-- The tensors of a batch within the limit hold what each encoding is alone, with zero-filled
lanes up to the widest. -/
theorem toTensors_ok {es : List KaiEncoding} (hne : es ≠ [])
    (hvalid : ∀ e ∈ es, e.validate = .ok ()) (hfits : Fits es) :
    ∃ inputs, (ofRows es).toTensors = .ok inputs ∧ KaiRow.Hold inputs
      (es.map fun e => e.fed.filled (widest es - e.optionPos.length)) (longest es) (widest es) := by
  obtain ⟨inputs, ids, mask, answers, options, htensors, ⟨hgetIds, hgetMask, hgetAnswers,
    hgetOptions⟩, ⟨hshapeIds, hdataIds⟩, ⟨hshapeMask, hdataMask⟩, ⟨hshapeAnswers, hdataAnswers⟩,
    hshapeOptions, hdataOptions⟩ := toTensors_data hne hvalid hfits
  refine ⟨inputs, htensors, ⟨ids, hgetIds, ?_⟩, ⟨mask, hgetMask, ?_⟩,
    ⟨answers, hgetAnswers, ?_⟩, ⟨options, hgetOptions, ?_⟩, fun r => ?_⟩
  · rw [hshapeIds, List.length_map]
  · rw [hshapeMask, List.length_map]
  · rw [hshapeAnswers, List.length_map]
  · rw [hshapeOptions, List.length_map]
  rw [KaiRow.read, hgetIds, hgetMask, hgetAnswers, hgetOptions]
  simp only [Option.bind_some, row_built hshapeIds hdataIds ids_le r,
    row_built hshapeMask hdataMask mask_le r,
    row_built hshapeOptions hdataOptions (options_le hvalid) r, hdataAnswers, List.map_map,
    List.getElem?_map]
  cases hr : es[r]? with
  | none => rfl
  | some e =>
    have hones : e.ids.map (castF32 ∘ fun _ => 1) =
        List.replicate (e.ids.map castF32).length 1 := by
      rw [List.length_map, Function.comp_def, castF32_one, List.map_const']
    simp only [Option.map_some, Option.bind_eq_bind, Option.bind_some, castF32_zero, hones,
      Function.comp_apply]
    rw [Batch.kept_padded (by norm_num) _ _ (by simp), Batch.kept_all]
    simp [KaiEncoding.fed, KaiRow.filled, Batch.padded, Function.comp_def]

theorem toTensors_refused {es : List KaiEncoding} (hfits : ¬ Fits es) :
    ∃ error, (ofRows es).toTensors = .error error := by
  cases h : (ofRows es).toTensors with
  | error error => exact ⟨error, rfl⟩
  | ok inputs =>
    obtain ⟨ids, hids, -⟩ := Result.bind_ok.mp h
    have hsmall := build_small hids
    rw [prod_two] at hsmall
    exact absurd hsmall hfits

end KaiBatch

namespace Kai

section Scoring

variable [RustStd] {backend : InferenceBackend} {g : KaiRow → Option (List ℚ)}

def distributionOf (g : KaiRow → Option (List ℚ)) (e : KaiEncoding) : Option (List ℚ) :=
  (g e.fed).bind fun logits => (probabilities e.kind e.keys logits).toOption

theorem rows_read (h : RowLocal backend g) {es : List KaiEncoding}
    (hvalid : ∀ e ∈ es, e.validate = .ok ()) {tensor : DenseTensor} {logits : List (List ℚ)}
    {width : Nat}
    (hlogits : List.Forall₂ (fun (e : KaiEncoding) out =>
      g (e.fed.filled (width - e.optionPos.length)) = some out) es logits)
    (hrow : ∀ r, tensor.row r = logits[r]?) :
    (es.zipIdx.mapM (rowDistribution tensor)).toOption = es.mapM (distributionOf g) := by
  rw [Batch.toOption_mapM]
  refine Batch.mapM_zipIdx fun r e hr => ?_
  obtain ⟨out, hout, hg⟩ := Batch.forall₂_getElem? hlogits hr
  have hfill := h.fill e.fed (width - e.optionPos.length)
  have hkeys := (KaiEncoding.validate_ok (hvalid e (List.mem_of_getElem? hr))).1
  have hwidth : e.fed.options.length = e.keys.length := by
    rw [hkeys, KaiEncoding.fed, List.length_map]
  rw [hg, Option.map_some, hwidth] at hfill
  rw [rowDistribution, hrow, hout, distributionOf, ← hfill]
  rfl

/-- On a batch within the limit every encoding has its own distribution; beyond it there is
none. -/
theorem scoreBatch_eq (h : RowLocal backend g) {es : List KaiEncoding} (hne : es ≠ [])
    (hvalid : ∀ e ∈ es, e.validate = .ok ()) :
    (scoreBatch backend es).toOption =
      if KaiBatch.Fits es then es.mapM (distributionOf g) else none := by
  have hcollate := KaiBatch.collate_eq hne fun e he => (KaiEncoding.validate_ok (hvalid e he)).1
  rw [scoreBatch, hcollate]
  simp only [bind, Except.bind]
  by_cases hfits : KaiBatch.Fits es
  · rw [if_pos hfits]
    obtain ⟨inputs, htensors, hhold⟩ := KaiBatch.toTensors_ok hne hvalid hfits
    have hinfer := h.infer inputs _ _ _ hhold
    rw [htensors]
    dsimp only
    rw [List.mapM_map] at hinfer
    cases hlogits : es.mapM (g ∘ fun e =>
        e.fed.filled (KaiBatch.widest es - e.optionPos.length)) with
    | none =>
      rw [hlogits] at hinfer
      obtain ⟨error, herror⟩ := hinfer
      obtain ⟨e, he, hnone⟩ := Batch.mapM_eq_none.mp hlogits
      rw [Function.comp_apply] at hnone
      have hfill := h.fill e.fed (KaiBatch.widest es - e.optionPos.length)
      rw [hnone, Option.map_none] at hfill
      have hdistribution : distributionOf g e = none := by rw [distributionOf, ← hfill]; rfl
      rw [herror, Batch.mapM_eq_none.mpr ⟨e, he, hdistribution⟩]
      rfl
    | some logits =>
      rw [hlogits] at hinfer
      obtain ⟨outputs, tensor, houtputs, hget, hshape, hrow⟩ := hinfer
      have hread := rows_read h hvalid (Batch.mapM_eq_some.mp hlogits) hrow
      rw [List.length_map] at hshape
      rw [houtputs, flattened]
      simp only [hget, orViolation, KaiBatch.ofRows, hshape, ne_eq, not_true_eq_false, if_false]
      exact hread
  · obtain ⟨error, herror⟩ := KaiBatch.toTensors_refused hfits
    rw [if_neg hfits, herror]
    rfl

omit [RustStd] in
theorem fits_one {es : List KaiEncoding} (hfits : KaiBatch.Fits es) {e : KaiEncoding}
    (he : e ∈ es) : KaiBatch.Fits [e] := by
  have hlong : e.ids.length ≤ KaiBatch.longest es := KaiBatch.ids_le e he
  have hone : KaiBatch.longest [e] = e.ids.length := rfl
  have hrows := List.length_pos_of_mem he
  rw [KaiBatch.Fits] at hfits ⊢
  rw [hone, List.length_singleton, Nat.one_mul]
  exact (hlong.trans (Nat.le_mul_of_pos_left _ hrows)).trans hfits

omit [RustStd] in
/-- Each row of the batch, restricted to its mask and to its own lanes, is its encoding. -/
theorem rows_restricted {es : List KaiEncoding} (hvalid : ∀ e ∈ es, e.validate = .ok ()) {r : Nat}
    {e : KaiEncoding} (hr : es[r]? = some e) :
    Batch.kept 1 (Batch.row (KaiBatch.longest es) (KaiBatch.ofRows es).inputIds r)
        (Batch.row (KaiBatch.longest es) (KaiBatch.ofRows es).attentionMask r) = e.ids ∧
      (Batch.row (KaiBatch.widest es) (KaiBatch.ofRows es).optionPos r).take e.keys.length =
        e.optionPos.map castPosition ∧
      (KaiBatch.ofRows es).answerPos[r]? = some (castPosition e.answerPos) := by
  have hrow : ∀ {width : Nat} (fill : Int) (f : KaiEncoding → List Int),
      (∀ e ∈ es, (f e).length ≤ width) →
      Batch.row width ((es.map fun e => Batch.padded width fill (f e)).flatten) r =
        Batch.padded width fill (f e) := by
    intro width fill f h
    refine Batch.row_flatten (fun xs hxs => ?_) (by rw [List.getElem?_map, hr]; rfl)
    obtain ⟨e', he', rfl⟩ := List.mem_map.mp hxs
    exact Batch.length_padded fill (h e' he')
  have hkeys := (KaiEncoding.validate_ok (hvalid e (List.mem_of_getElem? hr))).1
  refine ⟨?_, ?_, ?_⟩
  · rw [KaiBatch.ofRows, hrow padId (fun e => e.ids) KaiBatch.ids_le,
      hrow 0 (fun e => e.ids.map fun _ => 1) KaiBatch.mask_le,
      Batch.kept_padded (by norm_num) _ _ (by simp), List.map_const', Batch.kept_all]
  · rw [KaiBatch.ofRows, hrow 0 (fun e => e.optionPos.map castPosition)
      (KaiBatch.options_le hvalid), hkeys, ← List.length_map castPosition, Batch.take_padded]
  · rw [KaiBatch.ofRows, List.getElem?_map, hr]
    rfl

/-- Collating valid encodings loses nothing, a batch within the limit of a tensor gives each
encoding the distribution that it has alone, and any other batch is refused as a whole. -/
theorem scoreBatch_rowwise (h : RowLocal backend g) {es : List KaiEncoding}
    (hvalid : ∀ e ∈ es, e.validate = .ok ()) :
    (es ≠ [] → ∃ batch, KaiBatch.collate es = .ok batch ∧ ∀ r e, es[r]? = some e →
      Batch.kept 1 (Batch.row batch.length batch.inputIds r)
          (Batch.row batch.length batch.attentionMask r) = e.ids ∧
        (Batch.row batch.width batch.optionPos r).take e.keys.length =
          e.optionPos.map castPosition ∧
        batch.answerPos[r]? = some (castPosition e.answerPos)) ∧
    (KaiBatch.Fits es → Rowwise (scoreBatch backend) es) ∧
    (es = [] ∨ ¬ KaiBatch.Fits es → (scoreBatch backend es).toOption = none) := by
  refine ⟨fun hne => ⟨KaiBatch.ofRows es, KaiBatch.collate_eq hne fun e he =>
    (KaiEncoding.validate_ok (hvalid e he)).1, fun r e hr => rows_restricted hvalid hr⟩,
    fun hfits => ?_, fun hno => ?_⟩
  · refine @Batch.rowwise_of_mapM _ _ _ (scoreBatch backend) (distributionOf g) es
      (fun hne => ?_) fun e he => ?_
    · rw [scoreBatch_eq h hne hvalid, if_pos hfits]
    · have hone : ∀ e' ∈ [e], e'.validate = .ok () := by simpa using hvalid e he
      rw [scoreBatch_eq h (List.cons_ne_nil _ _) hone, if_pos (fits_one hfits he)]
  · by_cases hne : es = []
    · rw [hne]
      rfl
    · rw [scoreBatch_eq h hne hvalid, if_neg (hno.resolve_left hne)]

end Scoring

section Samples

/-- A graph that scores every lane by its position, the query position and the ids. -/
def laneBackend (f : List ℚ → ℚ → ℚ → ℚ) : InferenceBackend where
  modelId := "lanes"
  infer inputs :=
    match inputs.get? optionPosName with
    | none => .error (.missingInput optionPosName)
    | some options =>
      match (List.range (options.shape.headD 0)).mapM (KaiRow.read inputs) with
      | none => .error (.backendFailed "lanes" "the shapes disagree")
      | some rows => do
        let logits ← DenseTensor.new options.shape
          ((rows.map fun row => row.options.map (f row.ids row.answer)).flatten)
        pure (OrdMap.empty.insert logitsOutput logits)

def lanes (f : List ℚ → ℚ → ℚ → ℚ) (row : KaiRow) : Option (List ℚ) :=
  some (row.options.map (f row.ids row.answer))

theorem laneBackend_rowLocal (f : List ℚ → ℚ → ℚ → ℚ) : RowLocal (laneBackend f) (lanes f) where
  fill row n := by simp [lanes, KaiRow.filled]
  infer inputs rows length width hhold := by
    obtain ⟨options, hget, hshape⟩ := hhold.options
    let logits := rows.map fun row => row.options.map (f row.ids row.answer)
    have hrows : rows.mapM (lanes f) = some logits := Result.mapM_some_eq_map fun row _ => rfl
    have hwidth : ∀ xs ∈ logits, xs.length = width := by
      intro xs hxs
      obtain ⟨row, hrow, rfl⟩ := List.mem_map.mp hxs
      obtain ⟨r, hr⟩ := List.mem_iff_getElem?.mp hrow
      have hread := (hhold.read r).trans hr
      simp only [KaiRow.read, hget, Option.bind_some, Option.bind_eq_bind, Option.bind_eq_some_iff]
        at hread
      obtain ⟨_, -, _, -, _, -, lane, hlane, hpure⟩ := hread
      cases hpure
      rw [List.length_map]
      exact options.length_rows hshape hlane
    have hcount : logits.flatten.length = options.shape.prod := by
      have hall : logits.map List.length = List.replicate rows.length width :=
        List.eq_replicate_iff.mpr ⟨by simp [logits], by simpa using hwidth⟩
      rw [List.length_flatten, hall, hshape, List.sum_replicate, KaiBatch.prod_two]
      rfl
    obtain ⟨tensor, hnew, htshape, htdata⟩ :=
      DenseTensor.new_ok options.shape_ne options.dims_pos hcount options.small
    rw [hrows]
    refine ⟨OrdMap.empty.insert logitsOutput tensor, tensor, ?_, OrdMap.get?_insert_self _ _ _,
      htshape.trans hshape, fun r => ?_⟩
    · have hall : (List.range (options.shape.headD 0)).mapM (KaiRow.read inputs) = some rows := by
        rw [hshape]
        exact Batch.mapM_range hhold.read
      rw [laneBackend]
      simp only [hget, hall]
      change (DenseTensor.new options.shape logits.flatten >>= _) = _
      rw [hnew]
      rfl
    · refine DenseTensor.row_of_rows ?_ htdata hwidth r
      rw [htshape, hshape, List.length_map]

attribute [local instance] plainStd

def pairEncoding : KaiEncoding := ⟨[11, 12, 13, 14, 15], [1, 2], 4, ["a", "b"], .choice⟩

def scoreEncoding : KaiEncoding :=
  ⟨[21, 22, 23, 24, 25, 26, 27], [1, 2, 3, 4, 5], 6, ["0", "1", "2", "3", "4"], .score⟩

/-- Two encodings of different lengths and kinds. -/
theorem scoreBatch_rowwise_two :
    (RowLocal (laneBackend fun _ answer lane => answer - lane)
        (lanes fun _ answer lane => answer - lane) ∧
      ∀ e ∈ [pairEncoding, scoreEncoding], e.validate = .ok ()) ∧
    Rowwise (scoreBatch (laneBackend fun _ answer lane => answer - lane))
      [pairEncoding, scoreEncoding] := by
  have hvalid : ∀ e ∈ [pairEncoding, scoreEncoding], e.validate = .ok () := by decide +kernel
  exact ⟨⟨laneBackend_rowLocal _, hvalid⟩,
    (scoreBatch_rowwise (laneBackend_rowLocal _) hvalid).2.1 (by decide +kernel)⟩

/-- So many copies of an encoding that each is scored alone and all together are refused. -/
theorem crowd_refused :
    ∃ (backend : InferenceBackend) (g : KaiRow → Option (List ℚ)) (es : List KaiEncoding),
      RowLocal backend g ∧ es ≠ [] ∧ (∀ e ∈ es, e.validate = .ok ()) ∧
        (∀ e ∈ es, (scoreBatch backend [e]).toOption.isSome = true) ∧
        (scoreBatch backend es).toOption = none ∧ ¬ Rowwise (scoreBatch backend) es := by
  have hlocal := laneBackend_rowLocal fun _ _ _ => 0
  have hone : ∀ e ∈ [pairEncoding], e.validate = .ok () := by decide +kernel
  have hcrowd : ∀ e ∈ List.replicate 4194304 pairEncoding, e = pairEncoding :=
    fun e he => List.eq_of_mem_replicate he
  have hvalid : ∀ e ∈ List.replicate 4194304 pairEncoding, e.validate = .ok () :=
    fun e he => hcrowd e he ▸ hone _ (List.mem_singleton.mpr rfl)
  have hmem : pairEncoding ∈ List.replicate 4194304 pairEncoding :=
    List.mem_replicate.mpr ⟨by decide, rfl⟩
  have hlarge : ¬ KaiBatch.Fits (List.replicate 4194304 pairEncoding) := by
    have hlong : pairEncoding.ids.length ≤ _ := KaiBatch.ids_le _ hmem
    have hfive : pairEncoding.ids.length = 5 := rfl
    rw [KaiBatch.Fits, List.length_replicate, maxTensorElements]
    omega
  have hscored : (scoreBatch (laneBackend fun _ _ _ => 0) [pairEncoding]).toOption =
      some [[1 / 2, 1 / 2]] := by
    rw [scoreBatch_eq hlocal (List.cons_ne_nil _ _) hone]
    decide +kernel
  have hrefused : (scoreBatch (laneBackend fun _ _ _ => 0)
      (List.replicate 4194304 pairEncoding)).toOption = none := by
    rw [scoreBatch_eq hlocal (List.ne_nil_of_mem hmem) hvalid, if_neg hlarge]
  refine ⟨laneBackend fun _ _ _ => 0, lanes fun _ _ _ => 0, List.replicate 4194304 pairEncoding,
    hlocal, List.ne_nil_of_mem hmem, hvalid, fun e he => ?_, hrefused, fun hrow => ?_⟩
  · rw [hcrowd e he, hscored]
    rfl
  · have hall := hrow (List.ne_nil_of_mem hmem)
    rw [hrefused] at hall
    obtain ⟨e, he, hnone⟩ := Batch.mapM_eq_none.mp hall.symm
    rw [hcrowd e he, hscored] at hnone
    cases hnone

end Samples

end Kai

end OpenCodifier
