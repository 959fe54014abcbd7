import OpenCodifier.Lib.Cyclic
import OpenCodifier.Lib.JsonParts
import OpenCodifier.Lib.Tally
import OpenCodifier.Engine.Sample
import OpenCodifier.Itemgen.Rng
import OpenCodifier.Schema.OpenAi
set_option autoImplicit false

namespace OpenCodifier.Itemgen

open Sampling

/-- A prepared row: its line, and the label that the merge reads. -/
structure Row where
  line : String
  label : Option String

/-- Loaded rows, with the places of those of each question family. -/
structure Bucket where
  rows : List Row
  qtypes : OrdMap String (List Nat)

section Load

def stripReturn (line : List Char) : List Char :=
  if line.getLast? = some '\r' then line.dropLast else line

/-- The lines of a text; the last one may lack its line feed. -/
def lines (text : String) : List String :=
  let parts := text.toList.splitOnP (· = '\n')
  ((parts.dropLast.map stripReturn) ++ parts.getLast?.toList.filter (· ≠ [])).map String.ofList

def textOf (row : Json) (key : String) : Option String := (row.get key).bind Json.asStr

def Row.family [JsonText] (row : Row) : Option String :=
  (JsonText.parse row.line).toOption.bind fun document => textOf document.normalize "qtype"

variable [RustStd] [JsonText]

namespace Bucket

def new : Bucket := ⟨[], OrdMap.empty⟩

def push (bucket : Bucket) (qtype : String) (row : Row) : Bucket :=
  ⟨bucket.rows ++ [row],
    bucket.qtypes.insert qtype ((bucket.qtypes.get? qtype).getD [] ++ [bucket.rows.length])⟩

/-- One line of a file; a blank one is skipped. -/
def loadLine (path : String) (bucket : Bucket) (entry : String × Nat) : Except String Bucket :=
  if entry.1.toList.all RustStd.isWhitespace then .ok bucket
  else do
    let place := path ++ ":" ++ toString (entry.2 + 1) ++ ": "
    let document ← (JsonText.parse entry.1).mapError (place ++ ·)
    let row := document.normalize
    match textOf row "qtype" with
    | none => .error (place ++ "row without qtype")
    | some qtype => pure (bucket.push qtype ⟨entry.1, textOf row "label"⟩)

def loadRows (path : String) (file : Except String String) (bucket : Bucket) :
    Except String Bucket := do
  let contents ← file.mapError ("read " ++ path ++ ": " ++ ·)
  (lines contents).zipIdx.foldlM (loadLine path) bucket

end Bucket

inductive Bucket.Loaded : Bucket → Prop
  | new : Loaded Bucket.new
  | load {bucket bucket' : Bucket} {path : String} {file : Except String String}
      (before : Loaded bucket) (run : bucket.loadRows path file = .ok bucket') : Loaded bucket'

end Load

structure BaseSelection where
  rows : List String
  census : OrdMap String Nat
  oversampleFactors : OrdMap String String
  scoreDegenerateTaken : Nat
  scoreNonconstantTaken : Nat

namespace Bucket

section Select

variable (base : Bucket) (take : OrdMap String Nat) (degenerateLabel : Option String)

def splitStep (sides : List Nat × List Nat) (index : Nat) : Draw (List Nat × List Nat) := do
  let row ← Draw.index base.rows index
  pure (if row.label = degenerateLabel then (sides.1, sides.2 ++ [index])
    else (sides.1 ++ [index], sides.2))

/-- A family's places in the order they are drawn in: shuffled, and those of score rows with
the degenerate label at the back. -/
def familyOrder (family : String) (rows : List Nat) : Draw (List Nat) := do
  let permutation ← Draw.shuffle rows
  if family = "score" then do
    let sides ← permutation.foldlM (splitStep base degenerateLabel) ([], [])
    pure (sides.1 ++ sides.2)
  else pure permutation

def want (family : String) : Nat := (take.get? family).getD 0

def takeRow (family : String) (selection : BaseSelection) (row : Row) : BaseSelection :=
  let selection := { selection with
    rows := selection.rows ++ [row.line]
    census := Tally.add selection.census (family, 1) }
  if family = "score" then
    if row.label = degenerateLabel then
      { selection with scoreDegenerateTaken := selection.scoreDegenerateTaken + 1 }
    else { selection with scoreNonconstantTaken := selection.scoreNonconstantTaken + 1 }
  else selection

def selectIndex (family : String) (selection : BaseSelection) (index : Nat) :
    Draw BaseSelection := do
  let row ← Draw.index base.rows index
  pure (takeRow degenerateLabel family selection row)

/-- One slot of a family; the slots go round its order. -/
def selectSlot (family : String) (order : List Nat) (selection : BaseSelection) (slot : Nat) :
    Draw BaseSelection := do
  let index ← Draw.index order (slot % order.length)
  selectIndex base degenerateLabel family selection index

def factor (family : String) (rows : List Nat) (factors : OrdMap String String) :
    OrdMap String String :=
  let passes := (want take family + max rows.length 1 - 1) / max rows.length 1
  if 1 < passes then factors.insert family (toString passes ++ "×") else factors

def selectFamily (selection : BaseSelection) (entry : String × List Nat) : Draw BaseSelection := do
  let order ← familyOrder base degenerateLabel entry.1 entry.2
  let selection := { selection with
    oversampleFactors := factor take entry.1 entry.2 selection.oversampleFactors }
  (List.range (want take entry.1)).foldlM (selectSlot base degenerateLabel entry.1 order) selection

def noSelection : BaseSelection := ⟨[], OrdMap.empty, OrdMap.empty, 0, 0⟩

def selectBase : Draw BaseSelection :=
  base.qtypes.entries.foldlM (selectFamily base take degenerateLabel) noSelection

end Select

section Filed

def places [JsonText] (bucket : Bucket) (family : String) : List Nat :=
  (List.range bucket.rows.length).filter fun index =>
    (bucket.rows[index]?.bind Row.family) = some family

structure Filed [JsonText] (bucket : Bucket) : Prop where
  places : ∀ family, (bucket.qtypes.get? family).getD [] = bucket.places family
  present : ∀ family, bucket.qtypes.get? family ≠ some []

variable [JsonText] {bucket : Bucket}

theorem nodup_places (family : String) : (bucket.places family).Nodup :=
  List.nodup_range.filter _

theorem places_push {qtype : String} {row : Row} (h : row.family = some qtype) (family : String) :
    (bucket.push qtype row).places family =
      bucket.places family ++ if qtype = family then [bucket.rows.length] else [] := by
  have hold : ∀ index ∈ List.range bucket.rows.length,
      (bucket.push qtype row).rows[index]? = bucket.rows[index]? := fun index hindex =>
    List.getElem?_append_left (List.mem_range.mp hindex)
  have hnew : (bucket.push qtype row).rows[bucket.rows.length]? = some row := by simp [push]
  have hlen : (bucket.push qtype row).rows.length = bucket.rows.length + 1 := by simp [push]
  rw [places, hlen, List.range_succ, List.filter_append, places]
  congr 1
  · apply List.filter_congr
    intro index hindex
    rw [hold index hindex]
  · rw [List.filter_singleton, hnew, Option.bind_some, h]
    by_cases hfamily : qtype = family <;> simp [hfamily]

theorem filed_new : new.Filed := ⟨fun _ => rfl, fun _ h => by cases h⟩

theorem Filed.push (h : bucket.Filed) {qtype : String} {row : Row} (hrow : row.family = some qtype) :
    (bucket.push qtype row).Filed := by
  have hget : ∀ family, (bucket.push qtype row).qtypes.get? family =
      if family = qtype then some (bucket.places qtype ++ [bucket.rows.length])
      else bucket.qtypes.get? family := by
    intro family
    rw [← h.places qtype]
    exact OrdMap.get?_insert _ _ _ _
  constructor
  · intro family
    rw [hget, places_push hrow]
    by_cases hfamily : family = qtype
    · subst hfamily
      simp
    · rw [if_neg hfamily, if_neg (Ne.symm hfamily), List.append_nil, h.places]
  · intro family
    rw [hget]
    split
    · simp
    · exact h.present family

theorem Filed.loadLine [RustStd] (h : bucket.Filed) {path : String} {entry : String × Nat}
    {bucket' : Bucket} (hload : bucket.loadLine path entry = .ok bucket') : bucket'.Filed := by
  rw [Bucket.loadLine] at hload
  split at hload
  · cases hload
    exact h
  · obtain ⟨document, hdocument, hload⟩ := Result.bind_ok.mp hload
    have hfamily : (JsonText.parse entry.1).toOption = some document := by
      cases hparse : JsonText.parse entry.1 with
      | error e =>
        rw [hparse] at hdocument
        cases hdocument
      | ok document' =>
        rw [hparse] at hdocument
        cases hdocument
        rfl
    dsimp only at hload
    cases hqtype : textOf document.normalize "qtype" with
    | none =>
      rw [hqtype] at hload
      cases hload
    | some qtype =>
      rw [hqtype] at hload
      cases hload
      refine h.push ?_
      rw [Row.family, hfamily]
      exact hqtype

theorem Filed.loadRows [RustStd] (h : bucket.Filed) {path : String} {file : Except String String}
    {bucket' : Bucket} (hload : bucket.loadRows path file = .ok bucket') : bucket'.Filed := by
  obtain ⟨contents, -, hload⟩ := Result.bind_ok.mp hload
  exact Result.foldlM_invariant (fun _ _ _ hbefore hrun => hbefore.loadLine hrun) h hload

theorem Loaded.filed [RustStd] (h : bucket.Loaded) : bucket.Filed := by
  induction h with
  | new => exact filed_new
  | load _ run ih => exact ih.loadRows run

end Filed

section Drawn

variable (base : Bucket) (take : OrdMap String Nat) (degenerateLabel : Option String)

/-- The places that a family's slots draw, in order. -/
def drawFamily (entry : String × List Nat) : Draw (String × List Nat) := do
  let order ← familyOrder base degenerateLabel entry.1 entry.2
  let places ← (List.range (want take entry.1)).mapM fun slot =>
    Draw.index order (slot % order.length)
  pure (entry.1, places)

def drawBase : Draw (List (String × List Nat)) :=
  base.qtypes.entries.mapM (drawFamily base take degenerateLabel)

def degenerate (index : Nat) : Bool :=
  decide (base.rows[index]?.bind Row.label = degenerateLabel)

/-- How a family's rows are drawn. -/
structure Fair [JsonText] (drawn : String × List Nat) : Prop where
  taken : drawn.2.length = want take drawn.1
  own : ∀ index ∈ drawn.2, index ∈ base.places drawn.1
  even : ∀ i ∈ base.places drawn.1, ∀ j ∈ base.places drawn.1,
    drawn.2.count i ≤ drawn.2.count j + 1
  degenerateLast : drawn.1 = "score" → ∀ before index after, drawn.2 = before ++ index :: after →
    base.degenerate degenerateLabel index = true →
    ∀ other ∈ base.places drawn.1, base.degenerate degenerateLabel other = false → other ∈ before

def slots (drawn : List (String × List Nat)) : List (String × Nat) :=
  drawn.flatMap fun entry => entry.2.map (Prod.mk entry.1)

/-- A selection reports the slots that led to it from another one. -/
structure Reports (before : BaseSelection) (slots : List (String × Nat))
    (after : BaseSelection) : Prop where
  rows : after.rows = before.rows ++ slots.filterMap fun slot => base.rows[slot.2]?.map Row.line
  census : ∀ family, (after.census.get? family).getD 0 =
    (before.census.get? family).getD 0 + (slots.map Prod.fst).count family
  degenerateTaken : after.scoreDegenerateTaken = before.scoreDegenerateTaken +
    slots.countP fun slot => slot.1 = "score" && base.degenerate degenerateLabel slot.2
  nonconstantTaken : after.scoreNonconstantTaken = before.scoreNonconstantTaken +
    slots.countP fun slot => slot.1 = "score" && !base.degenerate degenerateLabel slot.2

end Drawn

section Order

variable {base : Bucket} (degenerateLabel : Option String)

theorem degenerate_eq {index : Nat} {row : Row} (h : base.rows[index]? = some row) :
    base.degenerate degenerateLabel index = decide (row.label = degenerateLabel) := by
  rw [degenerate, h, Option.bind_some]

theorem index_eq_pure {α : Type} {xs : List α} {i : Nat} {x : α} (h : xs[i]? = some x) :
    Draw.index xs i = pure x := by
  rw [Draw.index, h]

theorem foldl_split (p : Nat → Bool) (l : List Nat) (sides : List Nat × List Nat) :
    l.foldl (fun sides index => if p index then (sides.1, sides.2 ++ [index])
      else (sides.1 ++ [index], sides.2)) sides =
      (sides.1 ++ l.filter (!p ·), sides.2 ++ l.filter p) := by
  induction l generalizing sides with
  | nil => simp
  | cons index l ih =>
    rw [List.foldl_cons, ih]
    cases hp : p index <;> simp [hp]

theorem splitStep_eq {index : Nat} (h : index < base.rows.length) (sides : List Nat × List Nat) :
    splitStep base degenerateLabel sides index =
      pure (if base.degenerate degenerateLabel index then (sides.1, sides.2 ++ [index])
        else (sides.1 ++ [index], sides.2)) := by
  have hrow := List.getElem?_eq_getElem h
  rw [splitStep, index_eq_pure hrow, pure_bind, degenerate_eq degenerateLabel hrow]
  simp only [decide_eq_true_eq]

theorem yields_familyOrder (family : String) {rows : List Nat}
    (h : ∀ index ∈ rows, index < base.rows.length) :
    Yields (familyOrder base degenerateLabel family rows) fun order => order.Perm rows ∧
      (family = "score" → ∃ front back, order = front ++ back ∧
        (∀ index ∈ front, base.degenerate degenerateLabel index = false) ∧
        ∀ index ∈ back, base.degenerate degenerateLabel index = true) := by
  rw [familyOrder]
  refine (Draw.yields_shuffle rows).bind fun permutation hperm => ?_
  split
  · rw [foldlM_eq_pure (fun index hindex => splitStep_eq degenerateLabel
        (h index (hperm.subset hindex))),
      pure_bind, foldl_split]
    refine yields_pure ⟨?_, fun _ => ⟨_, _, rfl, ?_, ?_⟩⟩
    · have hsplit := List.filter_append_perm (fun index => !base.degenerate degenerateLabel index)
        permutation
      simp only [Bool.not_not] at hsplit
      simpa using hsplit.trans hperm
    · simp
    · simp
  · rename_i hscore
    exact yields_pure ⟨hperm, fun hfamily => absurd hfamily hscore⟩

end Order

section Records

variable (base : Bucket) (degenerateLabel : Option String)

theorem Reports.refl (selection : BaseSelection) :
    Reports base degenerateLabel selection [] selection := by
  constructor <;> simp

variable {base degenerateLabel}

theorem Reports.trans {s t u : BaseSelection} {l l' : List (String × Nat)}
    (h : Reports base degenerateLabel s l t) (h' : Reports base degenerateLabel t l' u) :
    Reports base degenerateLabel s (l ++ l') u where
  rows := by rw [h'.rows, h.rows, List.filterMap_append, List.append_assoc]
  census family := by
    rw [h'.census, h.census, List.map_append, List.count_append, Nat.add_assoc]
  degenerateTaken := by
    rw [h'.degenerateTaken, h.degenerateTaken, List.countP_append, Nat.add_assoc]
  nonconstantTaken := by
    rw [h'.nonconstantTaken, h.nonconstantTaken, List.countP_append, Nat.add_assoc]

theorem reports_takeRow {index : Nat} {row : Row} (h : base.rows[index]? = some row)
    (family : String) (selection : BaseSelection) :
    Reports base degenerateLabel selection [(family, index)]
      (takeRow degenerateLabel family selection row) := by
  have hcensus : ∀ name, ((Tally.add selection.census (family, 1)).get? name).getD 0 =
      (selection.census.get? name).getD 0 + [family].count name := by
    intro name
    rw [Tally.add, OrdMap.get?_insert, List.count_singleton]
    by_cases hname : name = family
    · simp [hname]
    · simp [hname, Ne.symm hname]
  have hdegenerate := degenerate_eq degenerateLabel h
  by_cases hscore : family = "score"
  · by_cases hlabel : row.label = degenerateLabel
    · constructor <;> simp [takeRow, hscore, hlabel, h, hdegenerate]
      simpa [hscore] using hcensus
    · constructor <;> simp [takeRow, hscore, hlabel, h, hdegenerate]
      simpa [hscore] using hcensus
  · constructor <;> simp [takeRow, hscore, h]
    simpa using hcensus

variable (base degenerateLabel) in
theorem reports_foldl {order : List Nat} (family : String)
    (h : ∀ index ∈ order, index < base.rows.length) (selection : BaseSelection) :
    ∃ after, order.foldlM (selectIndex base degenerateLabel family) selection = pure after ∧
      Reports base degenerateLabel selection (order.map (Prod.mk family)) after := by
  induction order generalizing selection with
  | nil => exact ⟨selection, rfl, Reports.refl base degenerateLabel selection⟩
  | cons index order ih =>
    have hlt := h index List.mem_cons_self
    have hrow := List.getElem?_eq_getElem hlt
    obtain ⟨after, hrun, hreports⟩ := ih (fun i hi => h i (List.mem_cons_of_mem index hi))
      (takeRow degenerateLabel family selection base.rows[index])
    refine ⟨after, ?_, (reports_takeRow hrow family selection).trans hreports⟩
    rw [List.foldlM_cons, selectIndex, index_eq_pure hrow, pure_bind, pure_bind, hrun]

end Records

section Law

variable {base : Bucket} {take : OrdMap String Nat} {degenerateLabel : Option String}

variable (base degenerateLabel) in
theorem slots_run {order : List Nat} (hne : order ≠ []) (family : String) (n : Nat)
    (selection : BaseSelection) :
    (List.range n).mapM (fun slot => Draw.index order (slot % order.length)) =
        pure (Cyclic.draws order n) ∧
      (List.range n).foldlM (selectSlot base degenerateLabel family order) selection =
        (Cyclic.draws order n).foldlM (selectIndex base degenerateLabel family) selection := by
  have hget : ∀ slot, Draw.index order (slot % order.length) =
      pure (order.get ⟨slot % order.length, Nat.mod_lt _ (List.length_pos_of_ne_nil hne)⟩) :=
    fun slot => index_eq_pure (List.getElem?_eq_getElem _)
  constructor
  · rw [mapM_eq_pure fun slot _ => hget slot, Cyclic.draws_eq_map hne]
  · rw [Cyclic.draws_eq_map hne, List.foldlM_map]
    congr 1
    funext selection slot
    rw [selectSlot, hget, pure_bind]

/-- What is drawn round an order of a family's places is drawn fairly. -/
theorem fair_draws [JsonText] {family : String} {order : List Nat} (hne : order ≠ [])
    (hperm : order.Perm (base.places family))
    (hsplit : family = "score" → ∃ front back, order = front ++ back ∧
      (∀ index ∈ front, base.degenerate degenerateLabel index = false) ∧
      ∀ index ∈ back, base.degenerate degenerateLabel index = true) :
    Fair base take degenerateLabel (family, Cyclic.draws order (want take family)) where
  taken := Cyclic.length_draws hne _
  own index hindex := hperm.subset (Cyclic.mem_of_mem_draws hindex)
  even i hi j hj := Cyclic.count_draws_le (hperm.nodup_iff.mpr (nodup_places family))
    (hperm.symm.subset hi) (hperm.symm.subset hj) _
  degenerateLast := by
    intro hscore before index after hdraws hindex other hother hplain
    obtain ⟨front, back, horder, hfront, hback⟩ := hsplit hscore
    have hn := hperm.nodup_iff.mpr (nodup_places family)
    dsimp only at hdraws
    have hdrawn : index ∈ Cyclic.draws order (want take family) :=
      hdraws ▸ List.mem_append_right before List.mem_cons_self
    have hmem := Cyclic.mem_of_mem_draws hdrawn
    subst horder
    have hindexBack : index ∈ back := by
      rcases List.mem_append.mp hmem with h | h
      · rw [hfront index h] at hindex
        cases hindex
      · exact h
    have hotherFront : other ∈ front := by
      rcases List.mem_append.mp (hperm.symm.subset hother) with h | h
      · exact h
      · rw [hback other h] at hplain
        cases hplain
    exact Cyclic.front_first hn hindexBack hdraws other hotherFront

theorem lt_of_mem_places [JsonText] {family : String} {index : Nat}
    (h : index ∈ base.places family) : index < base.rows.length :=
  List.mem_range.mp (List.mem_filter.mp h).1

variable (take degenerateLabel) in
/-- A family is drawn fairly from every generator, and the selection reports its slots. -/
theorem selectFamily_run [JsonText] (h : base.Filed) {entry : String × List Nat}
    (hentry : entry ∈ base.qtypes.entries) (rng : Rng) (selection : BaseSelection) :
    ∃ drawn after rng', drawFamily base take degenerateLabel entry rng = .ok (drawn, rng') ∧
      selectFamily base take degenerateLabel selection entry rng = .ok (after, rng') ∧
      drawn.1 = entry.1 ∧ Fair base take degenerateLabel drawn ∧
      Reports base degenerateLabel selection (slots [drawn]) after := by
  obtain ⟨family, rows⟩ := entry
  have hget := (OrdMap.mem_entries_iff base.qtypes family rows).mp hentry
  have hrows : rows = base.places family := by rw [← h.places, hget, Option.getD_some]
  have hne : rows ≠ [] := fun hnil => h.present family (hnil ▸ hget)
  subst hrows
  obtain ⟨order, rng', horder, hperm, hsplit⟩ :=
    yields_familyOrder degenerateLabel family
      (fun _ hindex => lt_of_mem_places hindex) rng
  have horderNe : order ≠ [] := by
    rintro rfl
    exact hne hperm.nil_eq.symm
  obtain ⟨hmap, hfold⟩ := slots_run base degenerateLabel horderNe family
    (want take family) { selection with
      oversampleFactors := factor take family (base.places family) selection.oversampleFactors }
  obtain ⟨after, hrun, hreports⟩ := reports_foldl base degenerateLabel family
    (fun index (hindex : index ∈ Cyclic.draws order (want take family)) =>
      lt_of_mem_places (hperm.subset (Cyclic.mem_of_mem_draws hindex)))
    { selection with
      oversampleFactors := factor take family (base.places family) selection.oversampleFactors }
  refine ⟨(family, Cyclic.draws order (want take family)), after, rng', ?_, ?_, rfl,
    fair_draws horderNe hperm hsplit, ?_⟩
  · rw [drawFamily, run_bind horder, hmap, pure_bind]
    rfl
  · rw [selectFamily, run_bind horder, hfold, hrun]
    rfl
  · rw [slots, List.flatMap_singleton]
    exact ⟨hreports.rows, hreports.census, hreports.degenerateTaken, hreports.nonconstantTaken⟩

theorem selectFamilies_run [JsonText] (h : base.Filed) {entries : List (String × List Nat)}
    (hentries : ∀ entry ∈ entries, entry ∈ base.qtypes.entries) (rng : Rng)
    (selection : BaseSelection) :
    ∃ drawn after rng',
      entries.mapM (drawFamily base take degenerateLabel) rng = .ok (drawn, rng') ∧
      entries.foldlM (selectFamily base take degenerateLabel) selection rng = .ok (after, rng') ∧
      drawn.map Prod.fst = entries.map Prod.fst ∧
      (∀ family ∈ drawn, Fair base take degenerateLabel family) ∧
      Reports base degenerateLabel selection (slots drawn) after := by
  induction entries generalizing rng selection with
  | nil => exact ⟨[], selection, rng, rfl, rfl, rfl, by simp,
    Reports.refl base degenerateLabel selection⟩
  | cons entry entries ih =>
    obtain ⟨drawn, next, rng₁, hdraw, hselect, hname, hfair, hreports⟩ :=
      selectFamily_run take degenerateLabel h (hentries entry List.mem_cons_self) rng selection
    obtain ⟨rest, after, rng₂, hdraws, hselects, hnames, hfairs, hreportsRest⟩ :=
      ih (fun e he => hentries e (List.mem_cons_of_mem entry he)) rng₁ next
    refine ⟨drawn :: rest, after, rng₂, ?_, ?_, ?_, List.forall_mem_cons.mpr ⟨hfair, hfairs⟩, ?_⟩
    · rw [List.mapM_cons, run_bind hdraw, run_bind hdraws]
      rfl
    · rw [List.foldlM_cons, run_bind hselect, hselects]
    · rw [List.map_cons, List.map_cons, hname, hnames]
    · have happend : slots (drawn :: rest) = slots [drawn] ++ slots rest := by simp [slots]
      rw [happend]
      exact hreports.trans hreportsRest

/-- From every loaded bucket and every generator the base sample is drawn: of each family what
the plan takes, fairly, and the selection reports just the slots that were drawn. -/
theorem selectBase_law [RustStd] [JsonText] (h : base.Loaded) (take : OrdMap String Nat)
    (degenerateLabel : Option String) (rng : Rng) :
    ∃ drawn selection rng', drawBase base take degenerateLabel rng = .ok (drawn, rng') ∧
      selectBase base take degenerateLabel rng = .ok (selection, rng') ∧
      drawn.map Prod.fst = base.qtypes.keys ∧
      (∀ family ∈ drawn, Fair base take degenerateLabel family) ∧
      Reports base degenerateLabel noSelection (slots drawn) selection :=
  selectFamilies_run h.filed (fun _ hentry => hentry) rng noSelection

end Law

section Samples

attribute [local instance] plainStd

abbrev sampleTexts : JsonText where
  write _ := ""
  parse line :=
    if line = "zero" then .ok (.obj [("label", .str "0"), ("qtype", .str "score")])
    else if line = "one" then .ok (.obj [("label", .str "1"), ("qtype", .str "score")])
    else .error "expected value"

attribute [local instance] sampleTexts

def sampleBucket : Bucket :=
  ⟨[⟨"zero", some "0"⟩, ⟨"one", some "1"⟩, ⟨"zero", some "0"⟩],
    OrdMap.empty.insert "score" [0, 1, 2]⟩

theorem loaded_sampleBucket : sampleBucket.Loaded :=
  @Loaded.load _ _ new sampleBucket "base" (.ok "zero\none\n\nzero\n") .new rfl

theorem selectBase_law_sample : ∃ drawn selection rng',
    drawBase sampleBucket (OrdMap.empty.insert "score" 5) (some "0") ⟨0⟩ = .ok (drawn, rng') ∧
      selectBase sampleBucket (OrdMap.empty.insert "score" 5) (some "0") ⟨0⟩ =
        .ok (selection, rng') ∧
      drawn.map Prod.fst = ["score"] ∧
      (∀ family ∈ drawn,
        Fair sampleBucket (OrdMap.empty.insert "score" 5) (some "0") family) ∧
      Reports sampleBucket (some "0") noSelection (slots drawn) selection :=
  selectBase_law loaded_sampleBucket _ _ _

end Samples

end Bucket

end OpenCodifier.Itemgen
