import OpenCodifier.Model.Onnx
import OpenCodifier.Engine.Sample
set_option autoImplicit false

namespace OpenCodifier

open Kai (violation flattened orViolation)
open Batch (kept longest Rowwise)

/-- What a text graph is fed for one row: its ids with their positions, all of them or, when a
mask is fed, those that the mask keeps. -/
structure TextRow where
  masked : Bool
  cells : List (ℚ × Nat)
  deriving DecidableEq

namespace TextRow

def read (inputs : OrdMap String DenseTensor) (r : Nat) : Option TextRow := do
  let ids ← (inputs.get? inputIdsName).bind fun t => t.row r
  match inputs.get? attentionMaskName with
  | none => pure ⟨false, ids.zipIdx⟩
  | some mask => (mask.row r).map fun mask => ⟨true, kept 1 ids.zipIdx mask⟩

def ofEncoding (masked : Bool) (padId width : Nat) (e : Encoding) : TextRow :=
  if masked then
    ⟨true, kept 1 (e.ids.map Encoding.castId).zipIdx (e.attentionMask.map Encoding.castId)⟩
  else ⟨false, (Batch.padded width (Encoding.castId padId) (e.ids.map Encoding.castId)).zipIdx⟩

theorem length_bare (padId : Nat) {width : Nat} {e : Encoding} (h : e.ids.length ≤ width) :
    (ofEncoding false padId width e).cells.length = width := by
  rw [ofEncoding, if_neg (by decide), List.length_zipIdx]
  exact Batch.length_padded _ (by rwa [List.length_map])

end TextRow

structure TextRow.Hold (inputs : OrdMap String DenseTensor) (rows : List TextRow)
    (width : Nat) : Prop where
  ids : ∃ t, inputs.get? inputIdsName = some t ∧ t.shape = [rows.length, width]
  mask : ∀ t, inputs.get? attentionMaskName = some t → t.shape = [rows.length, width]
  read : ∀ r, TextRow.read inputs r = rows[r]?

/-- The graph computes each row of its output, if it can, from what it is fed for that row. -/
structure TextLocal (backend : InferenceBackend) (output : String) (size : Nat)
    (g : TextRow → Option (List ℚ)) : Prop where
  answers : ∀ inputs rows width vectors, TextRow.Hold inputs rows width →
    rows.mapM g = some vectors → DenseTensor.Holds rows.length size →
    ∃ outputs tensor, backend.infer inputs = .ok outputs ∧ outputs.get? output = some tensor ∧
      tensor.shape = [rows.length, size] ∧ ∀ r, tensor.row r = vectors[r]?
  refuses : ∀ inputs rows width, TextRow.Hold inputs rows width →
    rows.mapM g = none ∨ ¬ DenseTensor.Holds rows.length size →
    ∃ error, backend.infer inputs = .error error

namespace Encoding

theorem width_eq {es : List Encoding} (hne : es ≠ []) : width es = longest ids es := by
  obtain ⟨e, es, rfl⟩ := List.exists_cons_of_ne_nil hne
  simp [width, longest]

theorem length_ids_le {es : List Encoding} : ∀ e ∈ es, (e.ids.map castId).length ≤ longest ids es :=
  fun e he => by
    rw [List.length_map]
    exact Batch.le_longest ids he

theorem length_mask_le {es : List Encoding} :
    ∀ e ∈ es, (e.attentionMask.map castId).length ≤ longest ids es := fun e he => by
  rw [List.length_map, e.aligned]
  exact Batch.le_longest ids he

theorem built {es : List Encoding} {width : Nat} (fill : ℚ) {f : Encoding → List ℚ}
    (h : ∀ e ∈ es, (f e).length ≤ width) (hholds : DenseTensor.Holds es.length width) :
    ∃ t, DenseTensor.new [es.length, width] ((es.map fun e => Batch.padded width fill (f e)).flatten) =
      .ok t ∧ t.shape = [es.length, width] ∧ ∀ r, t.row r = es[r]?.map fun e =>
        Batch.padded width fill (f e) := by
  have hwidth : ∀ xs ∈ es.map (fun e => Batch.padded width fill (f e)), xs.length = width := by
    intro xs hxs
    obtain ⟨e, he, rfl⟩ := List.mem_map.mp hxs
    exact Batch.length_padded fill (h e he)
  have hnew := DenseTensor.new_rows hwidth (by rwa [List.length_map])
  simpa only [List.length_map, List.getElem?_map] using hnew

theorem hold_bare {es : List Encoding} {padId width : Nat} {t : DenseTensor}
    (hshape : t.shape = [es.length, width]) (hrow : ∀ r, t.row r = es[r]?.map fun e =>
      Batch.padded width (castId padId) (e.ids.map castId)) :
    TextRow.Hold (OrdMap.empty.insert inputIdsName t)
      (es.map (TextRow.ofEncoding false padId width)) width := by
  have hids : (OrdMap.empty.insert inputIdsName t).get? inputIdsName = some t :=
    OrdMap.get?_insert_self _ _ _
  have hmask : (OrdMap.empty.insert inputIdsName t).get? attentionMaskName = none := by
    rw [OrdMap.get?_insert_of_ne _ _ (by decide)]
    rfl
  refine ⟨⟨t, hids, by rw [hshape, List.length_map]⟩, fun m hm => ?_, fun r => ?_⟩
  · rw [hmask] at hm
    cases hm
  · rw [TextRow.read, hids, hmask, Option.bind_some, hrow, List.getElem?_map]
    cases es[r]? <;> rfl

/-- Under a mask the rows of a batch are those of the encodings, whatever the width. -/
theorem hold_masked {es : List Encoding} {padId width : Nat} {t m : DenseTensor}
    (hshape : t.shape = [es.length, width]) (hrow : ∀ r, t.row r = es[r]?.map fun e =>
      Batch.padded width (castId padId) (e.ids.map castId))
    (hmshape : m.shape = [es.length, width]) (hmrow : ∀ r, m.row r = es[r]?.map fun e =>
      Batch.padded width 0 (e.attentionMask.map castId)) :
    TextRow.Hold ((OrdMap.empty.insert inputIdsName t).insert attentionMaskName m)
      (es.map (TextRow.ofEncoding true padId width)) width := by
  have hids : ((OrdMap.empty.insert inputIdsName t).insert attentionMaskName m).get?
      inputIdsName = some t := by
    rw [OrdMap.get?_insert_of_ne _ _ (by decide), OrdMap.get?_insert_self]
  have hmask : ((OrdMap.empty.insert inputIdsName t).insert attentionMaskName m).get?
      attentionMaskName = some m := OrdMap.get?_insert_self _ _ _
  refine ⟨⟨t, hids, by rw [hshape, List.length_map]⟩, fun m' hm => ?_, fun r => ?_⟩
  · rw [hmask] at hm
    cases hm
    rw [hmshape, List.length_map]
  · rw [TextRow.read, hids, hmask, Option.bind_some, hrow, List.getElem?_map]
    simp only [hmrow]
    cases hr : es[r]? with
    | none => rfl
    | some e =>
      obtain ⟨rest, hrest⟩ := Batch.zipIdx_padded width (castId padId) (e.ids.map castId)
      have haligned : (e.ids.map castId).zipIdx.length = (e.attentionMask.map castId).length := by
        simp [e.aligned]
      have hkept := Batch.kept_append (show (0 : ℚ) ≠ 1 by norm_num) haligned rest
        (width - (e.attentionMask.map castId).length)
      simp only [Option.map_some, Option.bind_eq_bind, Option.bind_some, hrest]
      rw [Batch.padded, hkept]
      rfl

end Encoding

section Neutral

variable {α β : Type}

/-- The texts reach the graph and its output comes back: all are encoded, and the padded inputs
and the output are within the limit of a tensor. -/
def Fed (encode : α → Option Encoding) (size : Nat) (xs : List α) : Prop :=
  ∃ es, xs.mapM encode = some es ∧ DenseTensor.Holds es.length (longest Encoding.ids es) ∧
    DenseTensor.Holds es.length size

/-- When padding cannot be read: the batch reaches the graph exactly when each text alone does, and
then the graph is fed a mask or no text is padded. -/
def Neutral (encode : α → Option Encoding) (masked : Bool) (size : Nat) (xs : List α) : Prop :=
  xs ≠ [] → (Fed encode size xs ↔ ∀ x ∈ xs, Fed encode size [x]) ∧
    (Fed encode size xs →
      masked = true ∨ ∃ n, ∀ x ∈ xs, ∀ e, encode x = some e → e.ids.length = n)

/-- A run that encodes the texts and reads its result for each from the row that the graph is
fed. -/
def ReadsRows (run : List α → ModelResult (List β)) (encode : α → Option Encoding)
    (masked : Bool) (padId size : Nat) (h : TextRow → Option β) : Prop :=
  ∀ xs, xs ≠ [] → (run xs).toOption = (xs.mapM encode).bind fun es =>
    if DenseTensor.Holds es.length (longest Encoding.ids es) ∧ DenseTensor.Holds es.length size then
      es.mapM fun e => h (TextRow.ofEncoding masked padId (longest Encoding.ids es) e)
    else none

variable {run : List α → ModelResult (List β)} {encode : α → Option Encoding} {masked : Bool}
  {padId size : Nat} {h : TextRow → Option β} {xs : List α}

theorem ReadsRows.of_fed (hrun : ReadsRows run encode masked padId size h) (hne : xs ≠ [])
    {es : List Encoding} (hes : xs.mapM encode = some es)
    (hwidth : DenseTensor.Holds es.length (longest Encoding.ids es))
    (hsize : DenseTensor.Holds es.length size) : (run xs).toOption =
      es.mapM fun e => h (TextRow.ofEncoding masked padId (longest Encoding.ids es) e) := by
  rw [hrun xs hne, hes, Option.bind_some, if_pos ⟨hwidth, hsize⟩]

theorem ReadsRows.of_not_fed (hrun : ReadsRows run encode masked padId size h) (hne : xs ≠ [])
    (hfed : ¬ Fed encode size xs) : (run xs).toOption = none := by
  rw [hrun xs hne]
  cases hes : xs.mapM encode with
  | none => rfl
  | some es =>
    rw [Option.bind_some, if_neg]
    exact fun ⟨hwidth, hsize⟩ => hfed ⟨es, hes, hwidth, hsize⟩

theorem ReadsRows.alone (hrun : ReadsRows run encode masked padId size h) {x : α}
    (hfed : Fed encode size [x]) : ∃ e, encode x = some e ∧
      (run [x]).toOption.bind List.head? =
        h (TextRow.ofEncoding masked padId e.ids.length e) := by
  obtain ⟨es, hes, hwidth, hsize⟩ := hfed
  obtain ⟨e, he, rfl⟩ := Batch.mapM_singleton.mp hes
  refine ⟨e, he, ?_⟩
  rw [hrun.of_fed (List.cons_ne_nil _ _) hes hwidth hsize, Batch.mapM_singleton_head]
  rfl

/-- Where padding cannot be read, each text has in the batch what it has alone. -/
theorem ReadsRows.rowwise (hrun : ReadsRows run encode masked padId size h)
    (hneutral : Neutral encode masked size xs) : Rowwise run xs := by
  intro hne
  obtain ⟨hiff, hsame⟩ := hneutral hne
  by_cases hfed : Fed encode size xs
  · have halone := hiff.mp hfed
    obtain ⟨es, hes, hwidth, hsize⟩ := hfed
    rw [hrun.of_fed hne hes hwidth hsize]
    refine (Batch.mapM_through hes fun x hx e he hxe => ?_).symm
    obtain ⟨e', he', hhead⟩ := hrun.alone (halone x hx)
    rw [hxe] at he'
    cases he'
    rw [hhead]
    congr 1
    obtain hmask | ⟨n, hn⟩ := hsame ⟨es, hes, hwidth, hsize⟩
    · rw [TextRow.ofEncoding, TextRow.ofEncoding, if_pos hmask, if_pos hmask]
    · obtain ⟨w, hw, hlong⟩ := Batch.longest_mem Encoding.ids (List.ne_nil_of_mem he)
      obtain ⟨x', hx', hxw⟩ := Batch.mem_of_mapM hes hw
      rw [hlong, hn x' hx' w hxw, hn x hx e hxe]
  · rw [hrun.of_not_fed hne hfed]
    have hno : ¬ ∀ x ∈ xs, Fed encode size [x] := fun h => hfed (hiff.mpr h)
    rw [not_forall] at hno
    simp only [Classical.not_imp] at hno
    obtain ⟨x, hx, hxfed⟩ := hno
    refine (Batch.mapM_eq_none.mpr ⟨x, hx, ?_⟩).symm
    rw [hrun.of_not_fed (List.cons_ne_nil _ _) hxfed]
    rfl

/-- Of a graph that always answers, the batch is fed exactly when each text alone is. -/
theorem ReadsRows.fed_iff (hrun : ReadsRows run encode masked padId size h)
    (htotal : ∀ row, h row ≠ none) (hne : xs ≠ []) (hrows : Rowwise run xs) :
    Fed encode size xs ↔ ∀ x ∈ xs, Fed encode size [x] := by
  have hsome : ∀ ys : List α, ys ≠ [] → ((run ys).toOption = none ↔ ¬ Fed encode size ys) := by
    intro ys hys
    refine ⟨fun hnone ⟨es, hes, hwidth, hsize⟩ => ?_, hrun.of_not_fed hys⟩
    rw [hrun.of_fed hys hes hwidth hsize] at hnone
    obtain ⟨e, _, he⟩ := Batch.mapM_eq_none.mp hnone
    exact htotal _ he
  rw [← not_iff_not, ← hsome xs hne, hrows hne, Batch.mapM_eq_none, not_forall]
  refine exists_congr fun x => ?_
  rw [Classical.not_imp]
  refine and_congr_right fun _ => ⟨fun hnone hfed => ?_, fun hfed => ?_⟩
  · obtain ⟨e, _, hhead⟩ := hrun.alone hfed
    rw [hnone] at hhead
    exact htotal _ hhead.symm
  · rw [hrun.of_not_fed (List.cons_ne_nil _ _) hfed]
    rfl

/-- Without a mask, a graph that counts its cells tells padded texts from others. -/
theorem ReadsRows.same_length (hrun : ReadsRows run encode masked padId size h)
    (hbare : masked = false) {v : Nat → β} (hcount : ∀ row, h row = some (v row.cells.length))
    (hv : Function.Injective v) (hne : xs ≠ []) (hrows : Rowwise run xs)
    (hfed : Fed encode size xs) : ∃ n, ∀ x ∈ xs, ∀ e, encode x = some e → e.ids.length = n := by
  subst hbare
  have halone := (hrun.fed_iff (fun row => by rw [hcount]; nofun) hne hrows).mp hfed
  obtain ⟨es, hes, hwidth, hsize⟩ := hfed
  have hbatch : (run xs).toOption = some (es.map fun _ => v (longest Encoding.ids es)) := by
    rw [hrun.of_fed hne hes hwidth hsize]
    refine Result.mapM_some_eq_map fun e he => ?_
    rw [hcount, TextRow.length_bare padId (Batch.le_longest Encoding.ids he)]
  rw [hrows hne] at hbatch
  refine ⟨longest Encoding.ids es, fun x hx e he => ?_⟩
  obtain ⟨y, hy, hxy⟩ := Batch.mapM_mem hbatch hx
  obtain ⟨_, -, rfl⟩ := List.mem_map.mp hy
  obtain ⟨e', he', hhead⟩ := hrun.alone (halone x hx)
  rw [he] at he'
  cases he'
  rw [hxy, hcount, TextRow.length_bare padId (Nat.le_refl _)] at hhead
  exact (hv (Option.some.inj hhead)).symm

end Neutral

theorem TextLocal.infer {backend : InferenceBackend} {output : String} {size : Nat}
    {g : TextRow → Option (List ℚ)} (h : TextLocal backend output size g)
    {inputs : OrdMap String DenseTensor} {rows : List TextRow} {width : Nat}
    (hhold : TextRow.Hold inputs rows width) :
    (∃ error, backend.infer inputs = .error error ∧
      (rows.mapM g = none ∨ ¬ DenseTensor.Holds rows.length size)) ∨
    ∃ outputs tensor vectors, backend.infer inputs = .ok outputs ∧
      outputs.get? output = some tensor ∧ tensor.shape = [rows.length, size] ∧
      rows.mapM g = some vectors ∧ DenseTensor.Holds rows.length size ∧
      (∀ r, tensor.row r = vectors[r]?) ∧ vectors.length = rows.length := by
  by_cases hsize : DenseTensor.Holds rows.length size
  · cases hvectors : rows.mapM g with
    | none =>
      obtain ⟨error, herror⟩ := h.refuses inputs rows width hhold (.inl hvectors)
      exact .inl ⟨error, herror, .inl rfl⟩
    | some vectors =>
      obtain ⟨outputs, tensor, hinfer, hget, hshape, hrow⟩ :=
        h.answers inputs rows width vectors hhold hvectors hsize
      exact .inr ⟨outputs, tensor, vectors, hinfer, hget, hshape, rfl, hsize, hrow,
        (Batch.mapM_eq_some.mp hvectors).length_eq.symm⟩
  · obtain ⟨error, herror⟩ := h.refuses inputs rows width hhold (.inr hsize)
    exact .inl ⟨error, herror, .inr hsize⟩

namespace OnnxSiglip2Embedder

variable {self : OnnxSiglip2Embedder}

theorem tensors_hold {es : List Encoding}
    (hwidth : DenseTensor.Holds es.length (longest Encoding.ids es)) :
    ∃ inputs, self.tensors es (longest Encoding.ids es) = .ok inputs ∧ TextRow.Hold inputs
      (es.map (TextRow.ofEncoding self.demandsAttentionMask self.padId (longest Encoding.ids es)))
      (longest Encoding.ids es) := by
  obtain ⟨t, ht, hshape, hrow⟩ :=
    Encoding.built (Encoding.castId self.padId) Encoding.length_ids_le hwidth
  obtain ⟨m, hm, hmshape, hmrow⟩ := Encoding.built 0 Encoding.length_mask_le hwidth
  cases hdemands : self.demandsAttentionMask with
  | false =>
    refine ⟨_, ?_, Encoding.hold_bare hshape hrow⟩
    rw [tensors, Encoding.inputIds, ht, hdemands]
    rfl
  | true =>
    refine ⟨_, ?_, Encoding.hold_masked hshape hrow hmshape hmrow⟩
    rw [tensors, Encoding.inputIds, Encoding.attentionMasks, ht, hm, hdemands]
    rfl

theorem tensors_refused {es : List Encoding} {width : Nat}
    (hwidth : ¬ DenseTensor.Holds es.length width) :
    (self.tensors es width).toOption = none := by
  obtain ⟨error, herror⟩ := DenseTensor.new_refused hwidth (Encoding.inputIds self.padId width es)
  rw [tensors, herror]
  rfl

theorem rowsOf_eq {tensor : DenseTensor} {batch size dims : Nat} {vectors : List (List ℚ)}
    (hshape : tensor.shape = [batch, size]) (hrow : ∀ r, tensor.row r = vectors[r]?)
    (hlength : vectors.length = batch) :
    (rowsOf tensor batch dims).toOption = if size = dims then some vectors else none := by
  rw [rowsOf, hshape]
  simp only [List.head?_cons, ne_eq, not_true_eq_false, if_false, List.getElem?_cons_succ,
    List.getElem?_cons_zero, Option.getD_some]
  by_cases hdims : size = dims
  · rw [if_neg (not_not.mpr hdims), if_pos hdims, Batch.toOption_mapM, ← hlength]
    refine Batch.mapM_range fun r => ?_
    rw [hrow]
    cases vectors[r]? <;> rfl
  · rw [if_pos hdims, if_neg hdims]
    rfl

theorem embedEncodings_eq {size : Nat} {g : TextRow → Option (List ℚ)}
    (hlocal : TextLocal self.text poolerOutput size g) {es : List Encoding} (hne : es ≠ []) :
    (self.embedEncodings es).toOption =
      if (DenseTensor.Holds es.length (longest Encoding.ids es) ∧
        DenseTensor.Holds es.length size) ∧ size = self.dims then
        es.mapM fun e =>
          g (TextRow.ofEncoding self.demandsAttentionMask self.padId (longest Encoding.ids es) e)
      else none := by
  rw [embedEncodings, Encoding.width_eq hne]
  by_cases hwidth : DenseTensor.Holds es.length (longest Encoding.ids es)
  · rw [if_neg (Nat.pos_iff_ne_zero.mp hwidth.2.1)]
    obtain ⟨inputs, hinputs, hhold⟩ := self.tensors_hold hwidth
    rw [hinputs]
    obtain ⟨error, herror, hnone⟩ | ⟨outputs, tensor, vectors, hinfer, hget, hshape, hvectors,
      hsize, hrow, hlength⟩ := hlocal.infer hhold
    · rw [List.length_map, List.mapM_map] at hnone
      have hno : (if (DenseTensor.Holds es.length (longest Encoding.ids es) ∧
          DenseTensor.Holds es.length size) ∧ size = self.dims then es.mapM (g ∘
            TextRow.ofEncoding self.demandsAttentionMask self.padId (longest Encoding.ids es))
          else none) = none := by
        obtain hnone | hsize := hnone
        · rw [hnone, ite_self]
        · rw [if_neg fun hall => hsize hall.1.2]
      refine Eq.trans ?_ hno.symm
      simp only [bind, Except.bind, herror]
      rfl
    · rw [List.length_map] at hshape hsize hlength
      rw [List.mapM_map] at hvectors
      have hread := @rowsOf_eq tensor es.length size self.dims vectors hshape hrow hlength
      simp only [bind, Except.bind, hinfer, flattened, pooledRows, hget, orViolation, hread]
      by_cases hdims : size = self.dims
      · rw [if_pos hdims, if_pos ⟨⟨hwidth, hsize⟩, hdims⟩]
        exact hvectors.symm
      · rw [if_neg hdims, if_neg fun hall => hdims hall.2]
  · refine Eq.trans ?_ (if_neg fun hall => hwidth hall.1.1).symm
    split
    · rfl
    · rw [Batch.toOption_bind, tensors_refused hwidth]
      rfl

theorem readsRows {g : TextRow → Option (List ℚ)}
    (hlocal : TextLocal self.text poolerOutput self.dims g) :
    ReadsRows self.embedTexts (fun text => (self.encode text).toOption) self.demandsAttentionMask
      self.padId self.dims g := by
  intro texts hne
  rw [embedTexts, if_neg hne, Batch.toOption_bind, Batch.toOption_mapM]
  refine Option.bind_congr fun es hes => ?_
  rw [embedEncodings_eq hlocal (fun h => ?_)]
  · simp only [and_true]
  · rw [h] at hes
    exact hne (List.forall₂_nil_right_iff.mp (Batch.mapM_eq_some.mp hes))

theorem embedTexts_refused {size : Nat} {g : TextRow → Option (List ℚ)}
    (hlocal : TextLocal self.text poolerOutput size g) (hsize : size ≠ self.dims)
    {texts : List String} (hne : texts ≠ []) : (self.embedTexts texts).toOption = none := by
  rw [embedTexts, if_neg hne, Batch.toOption_bind, Batch.toOption_mapM, Option.bind_eq_none_iff]
  intro es hes
  rw [embedEncodings_eq hlocal (fun h => ?_), if_neg fun hall => hsize hall.2]
  rw [h] at hes
  exact hne (List.forall₂_nil_right_iff.mp (Batch.mapM_eq_some.mp hes))

theorem embedded_toOption (classifier : VisionClassifier)
    (vectors : ModelResult (List (List ℚ))) :
    (classifier.embedded (vectors.mapError ModelError.display)).toOption = vectors.toOption := by
  cases vectors <;> rfl

theorem scorePrompts_rowwise [RustStd] (modelId : String)
    (embedImages : List ImageInput → Except String (List (List ℚ))) (config : Siglip2Config)
    (template : PromptTemplate) (image : List ℚ) {texts : List String}
    (hrows : Rowwise self.embedTexts texts) :
    Rowwise (VisionClassifier.scorePrompts ⟨self.toEmbedder modelId embedImages, config, template⟩
      image) texts := by
  let score (text : List ℚ) : ℚ :=
    (((normalized image).zip (normalized text)).map fun e => e.1 * e.2).sum * config.logitScale
  have hscores : ∀ texts, (VisionClassifier.scorePrompts
      ⟨self.toEmbedder modelId embedImages, config, template⟩ image texts).toOption =
      (self.embedTexts texts).toOption.bind fun vectors =>
        if vectors.length < texts.length then none else some (vectors.map score) := by
    intro texts
    have hembed : (VisionClassifier.embedded
        ⟨self.toEmbedder modelId embedImages, config, template⟩
        ((self.toEmbedder modelId embedImages).embedTexts texts)).toOption =
        (self.embedTexts texts).toOption := embedded_toOption _ _
    rw [VisionClassifier.scorePrompts, Batch.toOption_bind, hembed]
    refine Option.bind_congr fun vectors _ => ?_
    split <;> rfl
  have hone : ∀ text, ((VisionClassifier.scorePrompts
      ⟨self.toEmbedder modelId embedImages, config, template⟩ image [text]).toOption).bind
      List.head? = ((self.embedTexts [text]).toOption.bind List.head?).map score := by
    intro text
    rw [hscores]
    cases (self.embedTexts [text]).toOption with
    | none => rfl
    | some vectors =>
      cases vectors with
      | nil => rfl
      | cons vector vectors => simp
  intro hne
  rw [hscores, hrows hne]
  simp only [hone]
  rw [Batch.mapM_map_option]
  cases hvectors : texts.mapM fun text => (self.embedTexts [text]).toOption.bind List.head? with
  | none => rfl
  | some vectors =>
    have hlength := (Batch.mapM_eq_some.mp hvectors).length_eq
    rw [Option.bind_some, if_neg (by omega)]
    rfl

end OnnxSiglip2Embedder

namespace OnnxNliScorer

variable [RustStd] {self : OnnxNliScorer}

omit [RustStd] in
theorem tensors_hold {es : List Encoding} (hne : es ≠ [])
    (hwidth : DenseTensor.Holds es.length (longest Encoding.ids es)) :
    ∃ inputs, self.tensors es = .ok inputs ∧ TextRow.Hold inputs
      (es.map (TextRow.ofEncoding true self.padId (longest Encoding.ids es)))
      (longest Encoding.ids es) := by
  obtain ⟨t, ht, hshape, hrow⟩ :=
    Encoding.built (Encoding.castId self.padId) Encoding.length_ids_le hwidth
  obtain ⟨m, hm, hmshape, hmrow⟩ := Encoding.built 0 Encoding.length_mask_le hwidth
  refine ⟨_, ?_, Encoding.hold_masked hshape hrow hmshape hmrow⟩
  rw [tensors, Encoding.width_eq hne, Encoding.inputIds, Encoding.attentionMasks, ht, hm]
  rfl

theorem masses_eq {tensor : DenseTensor} {batch size : Nat} {vectors : List (List ℚ)}
    (hshape : tensor.shape = [batch, size]) (hrow : ∀ r, tensor.row r = vectors[r]?)
    (hlength : vectors.length = batch) (hsize : 0 < size) :
    (masses tensor batch).toOption =
      some (vectors.map fun values => softmaxAt values entailIndex) := by
  rw [masses, hshape]
  simp only [List.getElem?_cons_succ, List.getElem?_cons_zero, Option.getD_some]
  rw [if_neg (by rw [entailIndex]; omega), Batch.toOption_mapM, ← hlength, ← List.length_map]
  refine Batch.mapM_range fun r => ?_
  rw [hrow, List.getElem?_map]
  cases vectors[r]? <;> rfl

theorem scoreEncodings_eq {size : Nat} {g : TextRow → Option (List ℚ)}
    (hlocal : TextLocal self.backend logitsOutput size g) {es : List Encoding} (hne : es ≠ []) :
    (self.scoreEncodings es).toOption =
      if DenseTensor.Holds es.length (longest Encoding.ids es) ∧
        DenseTensor.Holds es.length size then
        es.mapM fun e => (g (TextRow.ofEncoding true self.padId (longest Encoding.ids es) e)).map
          fun values => softmaxAt values entailIndex
      else none := by
  rw [scoreEncodings]
  by_cases hwidth : DenseTensor.Holds es.length (longest Encoding.ids es)
  · obtain ⟨inputs, hinputs, hhold⟩ := self.tensors_hold hne hwidth
    rw [hinputs]
    obtain ⟨error, herror, hnone⟩ | ⟨outputs, tensor, vectors, hinfer, hget, hshape, hvectors,
      hsize, hrow, hlength⟩ := hlocal.infer hhold
    · rw [List.length_map, List.mapM_map] at hnone
      refine Eq.trans ?_ (ite_eq_right_iff.mpr fun hall => ?_).symm
      · simp only [bind, Except.bind, herror]
        rfl
      · rw [Batch.mapM_map_option]
        exact congrArg _ (hnone.resolve_right (not_not.mpr hall.2))
    · rw [List.length_map] at hshape hsize hlength
      rw [List.mapM_map] at hvectors
      have hread := masses_eq hshape hrow hlength hsize.2.1
      simp only [bind, Except.bind, hinfer, flattened, hget, orViolation, hread]
      rw [if_pos ⟨hwidth, hsize⟩, Batch.mapM_map_option]
      exact (congrArg (Option.map _) hvectors).symm
  · rw [if_neg fun hall => hwidth hall.1, Batch.toOption_bind]
    obtain ⟨error, herror⟩ :=
      DenseTensor.new_refused hwidth (Encoding.inputIds self.padId (longest Encoding.ids es) es)
    rw [tensors, Encoding.width_eq hne, herror]
    rfl

theorem readsRows {size : Nat} {g : TextRow → Option (List ℚ)}
    (hlocal : TextLocal self.backend logitsOutput size g) (premise : String) :
    ReadsRows (self.entailmentProbabilities premise)
      (fun hypothesis => (self.encode premise hypothesis).toOption) true self.padId size
      fun row => (g row).map fun values => softmaxAt values entailIndex := by
  intro hypotheses hne
  rw [entailmentProbabilities, if_neg hne, Batch.toOption_bind, Batch.toOption_mapM]
  refine Option.bind_congr fun es hes => ?_
  refine scoreEncodings_eq hlocal fun h => ?_
  rw [h] at hes
  exact hne (List.forall₂_nil_right_iff.mp (Batch.mapM_eq_some.mp hes))

end OnnxNliScorer

section Padding

def countBackend (output : String) (size : Nat) : InferenceBackend where
  modelId := "count"
  infer inputs :=
    match inputs.get? inputIdsName with
    | none => .error (.missingInput inputIdsName)
    | some ids =>
      match (List.range (ids.shape.headD 0)).mapM (TextRow.read inputs) with
      | none => .error (.backendFailed "count" "the shapes disagree")
      | some rows => do
        let counts ← DenseTensor.new [rows.length, size]
          (rows.map fun row => List.replicate size (row.cells.length : ℚ)).flatten
        pure (OrdMap.empty.insert output counts)

def counted (size : Nat) (row : TextRow) : Option (List ℚ) :=
  some (List.replicate size (row.cells.length : ℚ))

theorem countBackend_local (output : String) (size : Nat) :
    TextLocal (countBackend output size) output size (counted size) := by
  have hinfer : ∀ inputs rows width, TextRow.Hold inputs rows width →
      (countBackend output size).infer inputs = (DenseTensor.new [rows.length, size]
        (rows.map fun row => List.replicate size (row.cells.length : ℚ)).flatten).bind
        fun counts => .ok (OrdMap.empty.insert output counts) := by
    intro inputs rows width hhold
    obtain ⟨ids, hids, hshape⟩ := hhold.ids
    have hall : (List.range (ids.shape.headD 0)).mapM (TextRow.read inputs) = some rows := by
      rw [hshape]
      exact Batch.mapM_range hhold.read
    rw [countBackend]
    simp only [hids, hall]
    rfl
  have hsome : ∀ rows : List TextRow, rows.mapM (counted size) =
      some (rows.map fun row => List.replicate size (row.cells.length : ℚ)) :=
    fun rows => Result.mapM_some_eq_map fun _ _ => rfl
  constructor
  · intro inputs rows width vectors hhold hvectors hsize
    rw [hsome] at hvectors
    cases hvectors
    have hwidth : ∀ xs ∈ rows.map fun row => List.replicate size (row.cells.length : ℚ),
        xs.length = size := by simp
    obtain ⟨t, ht, hshape, hrow⟩ := DenseTensor.new_rows hwidth (by rwa [List.length_map])
    rw [List.length_map] at ht hshape
    refine ⟨OrdMap.empty.insert output t, t, ?_, OrdMap.get?_insert_self _ _ _, hshape, hrow⟩
    rw [hinfer inputs rows width hhold, ht]
    rfl
  · intro inputs rows width hhold hno
    rw [hsome] at hno
    obtain ⟨error, herror⟩ := DenseTensor.new_refused (hno.resolve_left nofun)
      (rows.map fun row => List.replicate size (row.cells.length : ℚ)).flatten
    exact ⟨error, by rw [hinfer inputs rows width hhold, herror]; rfl⟩

theorem OnnxSiglip2Embedder.rowwise_of_neutral {self : OnnxSiglip2Embedder} {size : Nat}
    {g : TextRow → Option (List ℚ)} (hlocal : TextLocal self.text poolerOutput size g)
    {texts : List String} (hneutral : Neutral (fun text => (self.encode text).toOption)
      self.demandsAttentionMask self.dims texts) : Rowwise self.embedTexts texts := by
  by_cases hsize : size = self.dims
  · subst hsize
    exact (readsRows hlocal).rowwise hneutral
  · intro hne
    obtain ⟨text, texts, rfl⟩ := List.exists_cons_of_ne_nil hne
    rw [embedTexts_refused hlocal hsize hne]
    refine (Batch.mapM_eq_none.mpr ⟨text, List.mem_cons_self, ?_⟩).symm
    rw [embedTexts_refused hlocal hsize (List.cons_ne_nil _ _)]
    rfl

theorem OnnxSiglip2Embedder.neutral_of_rowwise {self : OnnxSiglip2Embedder} {texts : List String}
    (hrows : Rowwise { self with text := countBackend poolerOutput self.dims }.embedTexts texts) :
    Neutral (fun text => (self.encode text).toOption) self.demandsAttentionMask self.dims
      texts := by
  intro hne
  have hreads := @readsRows { self with text := countBackend poolerOutput self.dims } _
    (countBackend_local poolerOutput self.dims)
  refine ⟨hreads.fed_iff (fun _ => nofun) hne hrows, fun hfed => ?_⟩
  cases hdemands : self.demandsAttentionMask with
  | true => exact .inl rfl
  | false =>
    have hdims : self.dims ≠ 0 := by
      obtain ⟨_, -, -, hsize⟩ := hfed
      exact Nat.pos_iff_ne_zero.mp hsize.2.1
    have hinjective : Function.Injective fun n : Nat => List.replicate self.dims (n : ℚ) :=
      fun a b hab => Nat.cast_injective (List.replicate_right_injective hdims hab)
    exact .inr (hreads.same_length hdemands (fun _ => rfl) hinjective hne hrows hfed)

theorem OnnxNliScorer.neutral_iff [RustStd] (self : OnnxNliScorer) (classes : Nat)
    (premise : String) (hypotheses : List String) :
    (∀ backend g, TextLocal backend logitsOutput classes g →
      Rowwise ({ self with backend }.entailmentProbabilities premise) hypotheses) ↔
      Neutral (fun hypothesis => (self.encode premise hypothesis).toOption) true classes
        hypotheses := by
  constructor
  · intro hall hne
    have hreads := @readsRows _ { self with backend := countBackend logitsOutput classes } _ _
      (countBackend_local logitsOutput classes) premise
    exact ⟨hreads.fed_iff (fun _ => nofun) hne (hall _ _ (countBackend_local _ _)),
      fun _ => .inl rfl⟩
  · intro hneutral backend g hlocal
    exact (@readsRows _ { self with backend } _ _ hlocal premise).rowwise hneutral

/-- Each text has in a batch the vector, the score and the mass that it has alone, on every graph
that reads row by row, exactly when padding cannot be read. -/
theorem padding_neutral_iff [RustStd] (self : OnnxSiglip2Embedder) (texts : List String)
    (scorer : OnnxNliScorer) (classes : Nat) (premise : String) (hypotheses : List String) :
    ((∀ backend size g, TextLocal backend poolerOutput size g →
      Rowwise { self with text := backend }.embedTexts texts ∧
        ∀ modelId embedImages config template image, Rowwise (VisionClassifier.scorePrompts
          ⟨{ self with text := backend }.toEmbedder modelId embedImages, config, template⟩ image)
          texts) ↔
      Neutral (fun text => (self.encode text).toOption) self.demandsAttentionMask self.dims
        texts) ∧
    ((∀ backend g, TextLocal backend logitsOutput classes g →
      Rowwise ({ scorer with backend }.entailmentProbabilities premise) hypotheses) ↔
      Neutral (fun hypothesis => (scorer.encode premise hypothesis).toOption) true classes
        hypotheses) := by
  refine ⟨⟨fun hall => ?_, fun hneutral backend size g hlocal => ?_⟩,
    scorer.neutral_iff classes premise hypotheses⟩
  · exact OnnxSiglip2Embedder.neutral_of_rowwise (hall _ _ _ (countBackend_local _ _)).1
  · have hrows := @OnnxSiglip2Embedder.rowwise_of_neutral { self with text := backend } _ _ hlocal
      _ hneutral
    exact ⟨hrows, fun modelId embedImages config template image =>
      OnnxSiglip2Embedder.scorePrompts_rowwise modelId embedImages config template image hrows⟩

def charTokenizer (text : String) : Except String Encoding :=
  .ok ⟨text.toList.map Char.toNat, text.toList.map fun _ => 1, by simp⟩

/-- A graph without a mask that tells how long the longest prompt is. -/
theorem pad_read : ∃ (self : OnnxSiglip2Embedder) (g : TextRow → Option (List ℚ)),
    TextLocal self.text poolerOutput self.dims g ∧ ¬ Rowwise self.embedTexts ["cat", "a dog"] := by
  refine ⟨⟨countBackend poolerOutput 1, false, charTokenizer, 0, 1⟩, counted 1,
    countBackend_local _ _, fun hrows => ?_⟩
  have hdiffer := hrows (by decide)
  revert hdiffer
  decide +kernel

end Padding

end OpenCodifier
