import OpenCodifier.Lib.Extremum
import OpenCodifier.Itemgen.CorpusMerge
import OpenCodifier.Itemgen.FamilyShares
import OpenCodifier.Itemgen.TakePlan
set_option autoImplicit false

namespace OpenCodifier.Itemgen

open Sampling

/-- The least part of the score rows that must not have the degenerate label. -/
def scoreNonconstantMin : ℚ := 7 / 20

/-- Why a merge ends without its files; it is unsettled when the plan's loop goes on. -/
inductive MergeError where
  | refused (message : String)
  | fault (fault : Fault)
  | unsettled

namespace Bucket

variable (bucket : Bucket)

def count (qtype : String) : Nat := ((bucket.qtypes.get? qtype).getD []).length

def familyCounts : OrdMap String Nat := bucket.qtypes.mapValues fun _ rows => rows.length

def rowAt (index : Nat) : Except Fault Row := bucket.rows[index]?.elim (.error .outOfRange) .ok

def countLabel (labels : OrdMap String Nat) (index : Nat) : Except Fault (OrdMap String Nat) := do
  let row ← bucket.rowAt index
  pure (row.label.elim labels fun label => Tally.add labels (label, 1))

/-- The most frequent label of the score rows; the last one when several are. -/
def modalScoreLabel : Except Fault (Option String) :=
  match bucket.qtypes.get? "score" with
  | none => .ok none
  | some rows => do
    let labels ← rows.foldlM bucket.countLabel OrdMap.empty
    pure ((Extremum.lastMax Prod.snd labels.entries).map Prod.fst)

def countNonconstant (degenerateLabel : Option String) : Except Fault Nat := do
  let rows ← ((bucket.qtypes.get? "score").getD []).mapM bucket.rowAt
  pure (rows.countP fun row => row.label ≠ degenerateLabel)

end Bucket

def writeRows (slices sampled : List String) : Draw (List String) := do
  let finalRows := slices ++ sampled
  let order ← Draw.shuffle (List.range finalRows.length)
  order.mapM (Draw.index finalRows)

section Gates

/-- The gates that were evaluated, those that do not apply and why, and the shares behind them. -/
structure GateReport where
  evaluated : OrdMap String Bool
  notApplicable : OrdMap String String
  noulShare : ℚ
  scoreNonconstantShare : ℚ

def evaluateGates (hasSlices : Bool) (sliceScoreRows : Nat) (finalCensus : OrdMap String Nat)
    (outRows scoreNonconstant : Nat) : GateReport :=
  let noulShare : ℚ := ((finalCensus.get? "noul").getD 0 : ℚ) / (max outRows 1 : ℕ)
  let scoreTotal := (finalCensus.get? "score").getD 0
  let scoreNonconstantShare : ℚ :=
    if 0 < scoreTotal then (scoreNonconstant : ℚ) / scoreTotal else 0
  let noulGate := "noul_share_le_cap"
  let scoreGate := "score_nonconstant_ge_min"
  let evaluated := if hasSlices then
      OrdMap.empty.insert noulGate (decide (noulShare ≤ familyShareCap + 1 / 200))
    else OrdMap.empty
  let notApplicable := if hasSlices then OrdMap.empty
    else OrdMap.empty.insert noulGate ("slice-less run: the 40% final-mix cap presumes " ++
      "generated slices dilute the dominant family; the base sample alone cannot satisfy it")
  if 0 < sliceScoreRows then
    ⟨evaluated.insert scoreGate (decide (scoreNonconstantMin ≤ scoreNonconstantShare)),
      notApplicable, noulShare, scoreNonconstantShare⟩
  else
    ⟨evaluated, notApplicable.insert scoreGate ("no score-family slice: the 35% non-constant " ++
      "floor presumes the generated score slice; the base score bucket is structurally " ++
      "modal-dominant"),
      noulShare, scoreNonconstantShare⟩

def GateReport.failed (gates : GateReport) : Option String :=
  (gates.evaluated.entries.find? fun gate => !gate.2).map Prod.fst

end Gates

section Run

/-- What a merge is asked for; a file is its path and what reading it gives. -/
structure MergeArgs where
  base : String × Except String String
  slices : List (String × Except String String)
  targetTotal : Nat
  seed : BitVec 64

structure MergeManifest where
  targetTotal : Nat
  seed : BitVec 64
  rowsOut : Nat
  baseRows : Nat
  baseFamilies : OrdMap String Nat
  sliceCount : Nat
  sliceRows : Nat
  sliceFamilies : OrdMap String Nat
  take : OrdMap String Nat
  shares : OrdMap String ℚ
  oversampleFactors : OrdMap String String
  scoreDegenerateLabel : Option String
  scoreDegenerateTaken : Nat
  scoreNonconstantTaken : Nat
  finalFamilies : OrdMap String Nat
  gates : GateReport

structure Merged where
  written : List String
  manifest : MergeManifest

def finalCensus (additions : Bucket) (selection : BaseSelection) : OrdMap String Nat :=
  selection.census.entries.foldl Tally.add additions.familyCounts

def manifestOf (args : MergeArgs) (base additions : Bucket) (shares : OrdMap String ℚ)
    (take : OrdMap String Nat) (degenerateLabel : Option String) (selection : BaseSelection)
    (sliceScoreNonconstant : Nat) : MergeManifest where
  targetTotal := args.targetTotal
  seed := args.seed
  rowsOut := additions.rows.length + selection.rows.length
  baseRows := base.rows.length
  baseFamilies := base.familyCounts
  sliceCount := args.slices.length
  sliceRows := additions.rows.length
  sliceFamilies := additions.familyCounts
  take := take
  shares := shares
  oversampleFactors := selection.oversampleFactors
  scoreDegenerateLabel := degenerateLabel
  scoreDegenerateTaken := selection.scoreDegenerateTaken
  scoreNonconstantTaken := selection.scoreNonconstantTaken
  finalFamilies := finalCensus additions selection
  gates := evaluateGates (0 < additions.rows.length) (additions.count "score")
    (finalCensus additions selection) (additions.rows.length + selection.rows.length)
    (sliceScoreNonconstant + selection.scoreNonconstantTaken)

variable [RustStd] [JsonText]

/-- The mix of a base and of the rows of the slices, in a build without overflow checks. -/
def mixRows (turns : Nat) (args : MergeArgs) (base additions : Bucket) :
    Except MergeError Merged := do
  let degenerateLabel ← base.modalScoreLabel.mapError .fault
  let shares := FamilyShares.temperatureShares RustStd.powf base.familyCounts
  let budget := args.targetTotal - additions.rows.length
  let plan ← (TakePlan.takePlan .wrapping base.familyCounts turns shares budget).mapError .fault
  let take ← plan.elim (.error .unsettled) .ok
  let selected ← (base.selectBase take degenerateLabel ⟨args.seed⟩).mapError .fault
  let slices := additions.rows.map Row.line
  let written ← (writeRows slices selected.1.rows selected.2).mapError .fault
  let sliceScoreNonconstant ← (additions.countNonconstant degenerateLabel).mapError .fault
  pure ⟨written.1, manifestOf args base additions shares take degenerateLabel selected.1
    sliceScoreNonconstant⟩

def loadSlices (slices : List (String × Except String String)) : Except String Bucket :=
  slices.foldlM (fun bucket file => bucket.loadRows file.1 file.2) Bucket.new

/-- The merge up to its files; that a gate failed is reported after they are written. -/
def merge (turns : Nat) (args : MergeArgs) : Except MergeError Merged := do
  let base ← (Bucket.new.loadRows args.base.1 args.base.2).mapError .refused
  let additions ← (loadSlices args.slices).mapError .refused
  if base.rows.length = 0 then .error (.refused ("base " ++ args.base.1 ++ " has no rows"))
  else if args.targetTotal ≤ additions.rows.length then
    .error (.refused ("slices (" ++ toString additions.rows.length ++
      " rows) already meet the target (" ++ toString args.targetTotal ++ ")"))
  else mixRows turns args base additions

end Run

section Written

theorem filterMap_range {α : Type} (xs : List α) :
    (List.range xs.length).filterMap (fun i => xs[i]?) = xs := by
  induction xs with
  | nil => rfl
  | cons x xs ih =>
    rw [List.length_cons, List.range_succ_eq_map, List.filterMap_cons, List.filterMap_map]
    exact congrArg (x :: ·) ih

theorem mapM_places {m : Type → Type} [Monad m] [LawfulMonad m] {α : Type} {xs : List α}
    {read : Nat → m α} (hread : ∀ i x, xs[i]? = some x → read i = pure x) {places : List Nat}
    (h : ∀ i ∈ places, i < xs.length) :
    places.mapM read = pure (places.filterMap fun i => xs[i]?) := by
  induction places with
  | nil => rw [List.mapM_nil, List.filterMap_nil]
  | cons i places ih =>
    rw [List.forall_mem_cons] at h
    have hi : xs[i]? = some xs[i] := List.getElem?_eq_getElem h.1
    rw [List.mapM_cons, hread i _ hi, pure_bind, ih h.2, pure_bind, List.filterMap_cons_some hi]

theorem yields_writeRows (slices sampled : List String) :
    Yields (writeRows slices sampled) (·.Perm (slices ++ sampled)) := by
  refine (Draw.yields_shuffle _).bind fun order horder => ?_
  have hplaces : ∀ i ∈ order, i < (slices ++ sampled).length :=
    fun i hi => List.mem_range.mp (horder.mem_iff.mp hi)
  rw [mapM_places (fun _ _ => Bucket.index_eq_pure) hplaces]
  refine yields_pure ?_
  have hrows := horder.filterMap fun i => (slices ++ sampled)[i]?
  rwa [filterMap_range] at hrows

end Written

section Counted

variable [JsonText]

def lineText (key line : String) : Option String :=
  (JsonText.parse line).toOption.bind fun document => textOf document.normalize key

namespace Bucket

variable {bucket : Bucket}

def Labelled (bucket : Bucket) : Prop := ∀ row ∈ bucket.rows, row.label = lineText "label" row.line

theorem Labelled.loadLine [RustStd] (h : bucket.Labelled) {path : String} {entry : String × Nat}
    {bucket' : Bucket} (hload : bucket.loadLine path entry = .ok bucket') : bucket'.Labelled := by
  rw [Bucket.loadLine] at hload
  split at hload
  · cases hload
    exact h
  · obtain ⟨document, hdocument, hload⟩ := Result.bind_ok.mp hload
    have hparse := Result.mapError_ok.mp hdocument
    dsimp only at hload
    split at hload
    · cases hload
    · cases hload
      intro row hrow
      rcases List.mem_append.mp hrow with hold | hnew
      · exact h row hold
      · rw [List.mem_singleton.mp hnew, lineText, hparse]
        rfl

theorem Loaded.labelled [RustStd] (h : bucket.Loaded) : bucket.Labelled := by
  induction h with
  | new => exact fun row hrow => absurd hrow List.not_mem_nil
  | load _ run ih =>
    obtain ⟨contents, -, hload⟩ := Result.bind_ok.mp run
    exact Result.foldlM_invariant (fun _ _ _ hbefore hrun => hbefore.loadLine hrun) ih hload

theorem countP_places (family : String) (p : Row → Bool) :
    ((bucket.places family).filterMap fun i => bucket.rows[i]?).countP p =
      bucket.rows.countP fun row => row.family = some family && p row := by
  conv_rhs => rw [← filterMap_range bucket.rows]
  rw [places, List.countP_filterMap, List.countP_filter, List.countP_filterMap]
  refine List.countP_congr fun i hi => ?_
  cases hrow : bucket.rows[i]? with
  | none => simp
  | some row => simp [and_comm]

theorem length_places (family : String) : (bucket.places family).length =
    bucket.rows.countP fun row => row.family = some family := by
  have hall := @countP_places _ bucket family fun _ => true
  simp only [List.countP_true, Bool.and_true] at hall
  rw [← hall, List.length_filterMap_eq_countP]
  symm
  rw [List.countP_eq_length]
  intro i hi
  rw [List.getElem?_eq_getElem (lt_of_mem_places hi)]
  rfl

theorem Filed.get?_familyCounts (h : bucket.Filed) (family : String) :
    (bucket.familyCounts.get? family).getD 0 =
      bucket.rows.countP fun row => row.family = some family := by
  rw [← length_places, ← h.places family, familyCounts, OrdMap.get?_mapValues]
  cases bucket.qtypes.get? family <;> rfl

theorem Filed.count_eq (h : bucket.Filed) (family : String) :
    bucket.count family = bucket.rows.countP fun row => row.family = some family := by
  rw [count, h.places, length_places]

omit [JsonText] in
theorem rowAt_eq {i : Nat} {row : Row} (h : bucket.rows[i]? = some row) :
    bucket.rowAt i = pure row := by
  rw [rowAt, h]
  rfl

theorem Filed.countNonconstant (h : bucket.Filed) (degenerateLabel : Option String) :
    bucket.countNonconstant degenerateLabel = .ok (bucket.rows.countP fun row =>
      row.family = some "score" && row.label ≠ degenerateLabel) := by
  rw [Bucket.countNonconstant, h.places,
    mapM_places (fun _ _ => rowAt_eq) fun i hi => lt_of_mem_places hi, pure_bind, ← countP_places]
  rfl

omit [JsonText] in
theorem countLabels_ok {places : List Nat} (h : ∀ i ∈ places, i < bucket.rows.length)
    (labels : OrdMap String Nat) : ∃ counted, places.foldlM bucket.countLabel labels = .ok counted := by
  induction places generalizing labels with
  | nil => exact ⟨labels, rfl⟩
  | cons i places ih =>
    rw [List.forall_mem_cons] at h
    obtain ⟨counted, hrest⟩ := ih h.2 (bucket.rows[i].label.elim labels
      fun label => Tally.add labels (label, 1))
    refine ⟨counted, ?_⟩
    rw [List.foldlM_cons, countLabel, rowAt_eq (List.getElem?_eq_getElem h.1)]
    exact hrest

theorem Filed.modalScoreLabel (h : bucket.Filed) :
    ∃ label, bucket.modalScoreLabel = .ok label := by
  rw [Bucket.modalScoreLabel]
  cases hscore : bucket.qtypes.get? "score" with
  | none => exact ⟨none, rfl⟩
  | some rows =>
    have hrows : rows = bucket.places "score" := by rw [← h.places, hscore, Option.getD_some]
    obtain ⟨labels, hlabels⟩ := countLabels_ok
      (fun i hi => lt_of_mem_places (hrows ▸ hi : i ∈ bucket.places "score")) OrdMap.empty
    exact ⟨_, Result.bind_ok.mpr ⟨labels, hlabels, rfl⟩⟩

end Bucket

end Counted

section Law

variable [JsonText] {base additions : Bucket}

/-- How often the rows at the places of a family may be drawn. -/
def copiesOf (family : String) : Nat := if neverOversample.contains family then 1 else oversampleCap

/-- The file of a merge holds the rows of the slices and those drawn of the base, and the manifest
tells what is in the file. -/
structure Honest (base additions : Bucket) (merged : Merged) : Prop where
  written : ∃ drawn : List (String × List Nat), drawn.map Prod.fst = base.qtypes.keys ∧
    (∀ family ∈ drawn,
      Bucket.Fair base merged.manifest.take merged.manifest.scoreDegenerateLabel family ∧
        ∀ place ∈ base.places family.1, family.2.count place ≤ copiesOf family.1) ∧
    merged.written.Perm (additions.rows.map Row.line ++
      (Bucket.slots drawn).filterMap fun slot => base.rows[slot.2]?.map Row.line)
  rowsOut : merged.manifest.rowsOut = merged.written.length
  families : ∀ family, (merged.manifest.finalFamilies.get? family).getD 0 =
    merged.written.countP fun line => lineText "qtype" line = some family
  noulShare : merged.manifest.gates.noulShare =
    ((merged.written.countP fun line => lineText "qtype" line = some "noul") : ℚ) /
      (max merged.written.length 1 : ℕ)
  scoreNonconstantShare : merged.manifest.gates.scoreNonconstantShare =
    ((merged.written.countP fun line => lineText "qtype" line = some "score" &&
        lineText "label" line ≠ merged.manifest.scoreDegenerateLabel) : ℚ) /
      (merged.written.countP fun line => lineText "qtype" line = some "score")
  failed : merged.manifest.gates.failed = none ↔
    (additions.rows ≠ [] → merged.manifest.gates.noulShare ≤ familyShareCap + 1 / 200) ∧
      ((∃ row ∈ additions.rows, row.family = some "score") →
        scoreNonconstantMin ≤ merged.manifest.gates.scoreNonconstantShare)

section Lines

variable {drawn : List (String × List Nat)} {written : List String}

theorem countP_written
    (h : written.Perm (additions.rows.map Row.line ++
      (Bucket.slots drawn).filterMap fun slot => base.rows[slot.2]?.map Row.line))
    (hown : ∀ slot ∈ Bucket.slots drawn, slot.2 ∈ base.places slot.1) {p : String → Bool}
    {q : String × Nat → Bool}
    (hq : ∀ slot row, base.rows[slot.2]? = some row → row.family = some slot.1 →
      p row.line = q slot) :
    written.countP p = (additions.rows.countP fun row => p row.line) +
      (Bucket.slots drawn).countP q := by
  rw [h.countP_eq, List.countP_append, List.countP_map, List.countP_filterMap]
  congr 1
  refine List.countP_congr fun slot hslot => ?_
  have hplace := List.mem_filter.mp (hown slot hslot)
  have hlt := List.mem_range.mp hplace.1
  have hrow : base.rows[slot.2]? = some base.rows[slot.2] := List.getElem?_eq_getElem hlt
  have hfamily : base.rows[slot.2].family = some slot.1 := by
    have hfiled := of_decide_eq_true hplace.2
    rwa [hrow, Option.bind_some] at hfiled
  rw [hrow, ← hq slot _ hrow hfamily]
  rfl

theorem family_eq (row : Row) : row.family = lineText "qtype" row.line := rfl

theorem countP_family
    (h : written.Perm (additions.rows.map Row.line ++
      (Bucket.slots drawn).filterMap fun slot => base.rows[slot.2]?.map Row.line))
    (hown : ∀ slot ∈ Bucket.slots drawn, slot.2 ∈ base.places slot.1) (family : String) :
    (written.countP fun line => lineText "qtype" line = some family) =
      (additions.rows.countP fun row => row.family = some family) +
        ((Bucket.slots drawn).map Prod.fst).count family := by
  rw [List.count_eq_countP, List.countP_map]
  refine countP_written h hown fun slot row _ hfamily => ?_
  rw [← family_eq, hfamily, Bool.eq_iff_iff]
  simp

theorem countP_nonconstant (hbase : base.Labelled) (hadded : additions.Labelled)
    (h : written.Perm (additions.rows.map Row.line ++
      (Bucket.slots drawn).filterMap fun slot => base.rows[slot.2]?.map Row.line))
    (hown : ∀ slot ∈ Bucket.slots drawn, slot.2 ∈ base.places slot.1) (label : Option String) :
    (written.countP fun line => lineText "qtype" line = some "score" &&
        lineText "label" line ≠ label) =
      (additions.rows.countP fun row => row.family = some "score" && row.label ≠ label) +
        (Bucket.slots drawn).countP fun slot =>
          slot.1 = "score" && !base.degenerate label slot.2 := by
  have hlabels : (additions.rows.countP fun row =>
      row.family = some "score" && row.label ≠ label) =
      additions.rows.countP fun row => lineText "qtype" row.line = some "score" &&
        lineText "label" row.line ≠ label := by
    refine List.countP_congr fun row hrow => ?_
    rw [hadded row hrow, family_eq]
  rw [hlabels]
  refine countP_written h hown fun slot row hrow hfamily => ?_
  rw [← family_eq, hfamily, ← hbase row (List.mem_of_getElem? hrow),
    Bucket.degenerate_eq label hrow]
  simp

end Lines

omit [JsonText] in
theorem noulShare_eq (hasSlices : Bool) (sliceScoreRows : Nat) (census : OrdMap String Nat)
    (outRows nonconstant : Nat) :
    (evaluateGates hasSlices sliceScoreRows census outRows nonconstant).noulShare =
      ((census.get? "noul").getD 0 : ℚ) / (max outRows 1 : ℕ) := by
  unfold evaluateGates
  dsimp only
  split <;> rfl

omit [JsonText] in
theorem scoreNonconstantShare_eq (hasSlices : Bool) (sliceScoreRows : Nat)
    (census : OrdMap String Nat) (outRows nonconstant : Nat) :
    (evaluateGates hasSlices sliceScoreRows census outRows nonconstant).scoreNonconstantShare =
      (nonconstant : ℚ) / ((census.get? "score").getD 0 : ℕ) := by
  have hshare : (if 0 < (census.get? "score").getD 0 then
      (nonconstant : ℚ) / ((census.get? "score").getD 0 : ℕ) else 0) =
      (nonconstant : ℚ) / ((census.get? "score").getD 0 : ℕ) := by
    split
    · rfl
    · rename_i hnone
      rw [Nat.eq_zero_of_not_pos hnone, Nat.cast_zero, div_zero]
  rw [← hshare]
  unfold evaluateGates
  dsimp only
  split <;> rfl

def AllPassed (gates : OrdMap String Bool) : Prop := ∀ gate, gates.get? gate ≠ some false

omit [JsonText] in
theorem failed_eq_none_iff (gates : GateReport) : gates.failed = none ↔ AllPassed gates.evaluated := by
  rw [GateReport.failed, Option.map_eq_none_iff, List.find?_eq_none]
  constructor
  · intro h gate hgate
    exact h _ ((OrdMap.mem_entries_iff gates.evaluated gate false).mpr hgate) rfl
  · rintro h ⟨gate, passed⟩ hmem hfailed
    have hget := (OrdMap.mem_entries_iff gates.evaluated gate passed).mp hmem
    cases passed with
    | true => cases hfailed
    | false => exact h gate hget

omit [JsonText] in
theorem allPassed_empty : AllPassed OrdMap.empty := nofun

omit [JsonText] in
theorem allPassed_insert {gates : OrdMap String Bool} {name : String}
    (hnew : gates.get? name = none) (passed : Bool) :
    AllPassed (gates.insert name passed) ↔ AllPassed gates ∧ passed = true := by
  constructor
  · intro h
    refine ⟨fun gate => ?_, ?_⟩
    · by_cases he : gate = name
      · rw [he, hnew]
        exact nofun
      · have hother := h gate
        rwa [OrdMap.get?_insert_of_ne _ _ he] at hother
    · have hself := h name
      rw [OrdMap.get?_insert_self] at hself
      simpa using hself
  · rintro ⟨h, rfl⟩ gate
    rw [OrdMap.get?_insert]
    split
    · exact nofun
    · exact h gate

omit [JsonText] in
/-- The evaluated gates are all passed just when each one that applies is. -/
theorem failed_none_iff (hasSlices : Bool) (sliceScoreRows : Nat) (census : OrdMap String Nat)
    (outRows nonconstant : Nat) :
    (evaluateGates hasSlices sliceScoreRows census outRows nonconstant).failed = none ↔
      (hasSlices = true →
        (evaluateGates hasSlices sliceScoreRows census outRows nonconstant).noulShare ≤
          familyShareCap + 1 / 200) ∧
      (0 < sliceScoreRows → scoreNonconstantMin ≤
        (evaluateGates hasSlices sliceScoreRows census outRows
          nonconstant).scoreNonconstantShare) := by
  have hnoul : ∀ share : ℚ, AllPassed (if hasSlices then
      OrdMap.empty.insert "noul_share_le_cap" (decide (share ≤ familyShareCap + 1 / 200))
      else OrdMap.empty) ↔ (hasSlices = true → share ≤ familyShareCap + 1 / 200) := by
    intro share
    cases hasSlices with
    | true =>
      rw [if_pos rfl, allPassed_insert (OrdMap.get?_empty _), decide_eq_true_iff]
      exact ⟨fun h _ => h.2, fun h => ⟨allPassed_empty, h rfl⟩⟩
    | false => exact ⟨fun _ h => absurd h Bool.false_ne_true, fun _ => allPassed_empty⟩
  have hnew : ∀ passed : Bool, (if hasSlices then
      OrdMap.empty.insert "noul_share_le_cap" passed else OrdMap.empty).get?
        "score_nonconstant_ge_min" = none := by
    intro passed
    cases hasSlices with
    | true => exact OrdMap.get?_insert_of_ne _ _ (by decide)
    | false => rfl
  rw [failed_eq_none_iff, evaluateGates]
  by_cases hscore : 0 < sliceScoreRows
  · rw [if_pos hscore]
    dsimp only
    rw [allPassed_insert (hnew _), hnoul, decide_eq_true_iff]
    tauto
  · rw [if_neg hscore]
    dsimp only
    rw [hnoul]
    tauto

omit [JsonText] in
theorem want_settled (counts rounded : OrdMap String Nat) (family : String) :
    Bucket.want (TakePlan.settled (TakePlan.supplyWord counts) rounded) family ≤
      copiesOf family * (counts.get? family).getD 0 := by
  have hsupply : TakePlan.supply counts family =
      copiesOf family * (counts.get? family).getD 0 := by
    rw [TakePlan.supply, copiesOf]
    split
    · rw [Nat.one_mul]
    · rw [Nat.mul_comm]
  rw [Bucket.want, ← hsupply]
  cases htake : (TakePlan.settled (TakePlan.supplyWord counts) rounded).get? family with
  | none => exact Nat.zero_le _
  | some count =>
    have hwithin := TakePlan.within_settled (TakePlan.supplyWord counts) rounded _
      ((OrdMap.mem_entries_iff _ family count).mpr htake)
    exact hwithin.trans (TakePlan.supplyWord_le counts family)

theorem count_place (h : base.Filed) {rounded : OrdMap String Nat} {label : Option String}
    {drawn : String × List Nat}
    (hfair : Bucket.Fair base (TakePlan.settled (TakePlan.supplyWord base.familyCounts) rounded)
      label drawn)
    {place : Nat} (hplace : place ∈ base.places drawn.1) :
    drawn.2.count place ≤ copiesOf drawn.1 := by
  refine Cyclic.count_le_of_even (Bucket.nodup_places drawn.1) hfair.even ?_ hplace
  rw [hfair.taken, Bucket.length_places, ← h.get?_familyCounts]
  exact want_settled _ _ _

variable [RustStd]

theorem loaded_slices {slices : List (String × Except String String)} {additions : Bucket}
    (h : loadSlices slices = .ok additions) : additions.Loaded :=
  Result.foldlM_invariant (fun _ _ _ hbefore hrun => hbefore.load hrun) Bucket.Loaded.new h

/-- The outcome of a mix, from what is drawn for it. -/
theorem honest_of_drawn (hbase : base.Loaded) (hadded : additions.Loaded) (args : MergeArgs)
    (shares : OrdMap String ℚ) {rounded : OrdMap String Nat} {label : Option String}
    {drawn : List (String × List Nat)} (hnames : drawn.map Prod.fst = base.qtypes.keys)
    (hfair : ∀ family ∈ drawn,
      Bucket.Fair base (TakePlan.settled (TakePlan.supplyWord base.familyCounts) rounded) label
        family)
    {selection : BaseSelection}
    (hreports : Bucket.Reports base label Bucket.noSelection (Bucket.slots drawn) selection)
    {written : List String}
    (hwritten : written.Perm (additions.rows.map Row.line ++ selection.rows)) :
    Honest base additions ⟨written, manifestOf args base additions shares
      (TakePlan.settled (TakePlan.supplyWord base.familyCounts) rounded) label selection
      (additions.rows.countP fun row => row.family = some "score" && row.label ≠ label)⟩ := by
  have hdrawn : written.Perm (additions.rows.map Row.line ++
      (Bucket.slots drawn).filterMap fun slot => base.rows[slot.2]?.map Row.line) := by
    rw [hreports.rows] at hwritten
    exact hwritten
  have hown : ∀ slot ∈ Bucket.slots drawn, slot.2 ∈ base.places slot.1 := by
    intro slot hslot
    obtain ⟨family, hfamily, hslot⟩ := List.mem_flatMap.mp hslot
    obtain ⟨place, hplace, rfl⟩ := List.mem_map.mp hslot
    exact (hfair family hfamily).own place hplace
  have hfamilies : ∀ family, ((finalCensus additions selection).get? family).getD 0 =
      written.countP fun line => lineText "qtype" line = some family := by
    intro family
    rw [countP_family hdrawn hown, finalCensus, Tally.getD_foldl_add, Tally.share_entries,
      hreports.census, hadded.filed.get?_familyCounts]
    exact congrArg _ (Nat.zero_add _)
  have hnonconstant := countP_nonconstant hbase.labelled hadded.labelled hdrawn hown label
  have hlength : additions.rows.length + selection.rows.length = written.length := by
    rw [hwritten.length_eq, List.length_append, List.length_map]
  have hscore : 0 < additions.count "score" ↔ ∃ row ∈ additions.rows, row.family = some "score" := by
    rw [hadded.filed.count_eq, List.countP_pos_iff]
    simp
  refine ⟨⟨drawn, hnames, fun family hfamily => ⟨hfair family hfamily, fun place hplace =>
    count_place hbase.filed (hfair family hfamily) hplace⟩, hdrawn⟩, hlength, hfamilies, ?_, ?_, ?_⟩
  · rw [← hfamilies, ← hlength]
    exact noulShare_eq _ _ _ _ _
  · refine (scoreNonconstantShare_eq _ _ _ _ _).trans ?_
    rw [hfamilies, hreports.nonconstantTaken]
    change ((_ + (0 + _) : ℕ) : ℚ) / _ = _
    rw [Nat.zero_add, ← hnonconstant]
    rfl
  · refine (failed_none_iff _ _ _ _ _).trans (and_congr (imp_congr ?_ Iff.rfl)
      (imp_congr hscore Iff.rfl))
    rw [decide_eq_true_iff, List.length_pos_iff]

/-- A merge whose files can be read, whose base has rows and whose slices leave room for them is
carried out: its file holds every row of the slices and what is drawn of the base, no row more often
than it may be copied, and all that the manifest says of the file is so, above all which gates it
fails. -/
theorem merge_honest {args : MergeArgs} {base additions : Bucket}
    (hbase : Bucket.new.loadRows args.base.1 args.base.2 = .ok base)
    (hslices : loadSlices args.slices = .ok additions) (hrows : base.rows ≠ [])
    (htarget : additions.rows.length < args.targetTotal) (turns : Nat) :
    ∃ merged, merge (turns + 2) args = .ok merged ∧ Honest base additions merged := by
  have hloaded : base.Loaded := .load .new hbase
  have hadded := loaded_slices hslices
  obtain ⟨label, hlabel⟩ := hloaded.filed.modalScoreLabel
  let shares := FamilyShares.temperatureShares RustStd.powf base.familyCounts
  let rounded := TakePlan.rounded shares (args.targetTotal - additions.rows.length)
  have hplan : TakePlan.settle .wrapping base.familyCounts (turns + 2) rounded =
      .ok (some (TakePlan.settled (TakePlan.supplyWord base.familyCounts) rounded)) :=
    TakePlan.settle_wrapping turns rounded
  obtain ⟨drawn, selection, rng, -, hselect, hnames, hfair, hreports⟩ :=
    @Bucket.selectFamilies_run base
      (TakePlan.settled (TakePlan.supplyWord base.familyCounts) rounded) label _
      hloaded.filed _ (fun _ hentry => hentry) ⟨args.seed⟩ Bucket.noSelection
  obtain ⟨written, rng', hwrite, hperm⟩ :=
    yields_writeRows (additions.rows.map Row.line) selection.rows rng
  refine ⟨_, ?_, honest_of_drawn hloaded hadded args shares hnames hfair hreports hperm⟩
  have hbaseRows : base.rows.length ≠ 0 := fun hnil => hrows (List.length_eq_zero_iff.mp hnil)
  refine Result.bind_ok.mpr ⟨base, Result.mapError_ok.mpr hbase, ?_⟩
  refine Result.bind_ok.mpr ⟨additions, Result.mapError_ok.mpr hslices, ?_⟩
  rw [if_neg hbaseRows, if_neg (Nat.not_le.mpr htarget)]
  refine Result.bind_ok.mpr ⟨label, Result.mapError_ok.mpr hlabel, ?_⟩
  refine Result.bind_ok.mpr ⟨_, Result.mapError_ok.mpr hplan, ?_⟩
  refine Result.bind_ok.mpr ⟨_, rfl, ?_⟩
  refine Result.bind_ok.mpr ⟨_, Result.mapError_ok.mpr hselect, ?_⟩
  refine Result.bind_ok.mpr ⟨_, Result.mapError_ok.mpr hwrite, ?_⟩
  exact Result.bind_ok.mpr ⟨_, Result.mapError_ok.mpr (hadded.filed.countNonconstant label), rfl⟩

end Law

section Samples

attribute [local instance] plainStd Bucket.sampleTexts

def sampleMerge : MergeArgs :=
  ⟨("base", .ok "zero\none\n\nzero\n"), [("slice", .ok "one\n")], 3, 7⟩

def sampleSlice : Bucket := ⟨[⟨"one", some "1"⟩], OrdMap.empty.insert "score" [0]⟩

theorem merge_honest_sample :
    (Bucket.new.loadRows sampleMerge.base.1 sampleMerge.base.2 = .ok Bucket.sampleBucket ∧
      loadSlices sampleMerge.slices = .ok sampleSlice ∧ Bucket.sampleBucket.rows ≠ [] ∧
      sampleSlice.rows.length < sampleMerge.targetTotal) ∧
    ∃ merged, merge 2 sampleMerge = .ok merged ∧
      Honest Bucket.sampleBucket sampleSlice merged :=
  ⟨⟨rfl, rfl, by decide, by decide⟩, merge_honest rfl rfl (by decide) (by decide) 0⟩

end Samples

end OpenCodifier.Itemgen
