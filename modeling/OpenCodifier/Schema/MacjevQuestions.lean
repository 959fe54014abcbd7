import OpenCodifier.Lib.JsonParts
import OpenCodifier.Lib.Result
import OpenCodifier.Schema.DecisionSftPrep
import OpenCodifier.Schema.Macjev
set_option autoImplicit false

namespace OpenCodifier

open Json

section Dicts

open DecisionSftPrep

variable {α : Type}

theorem setItem_new {d : List (String × α)} {key : String} (x : α) (h : key ∉ d.map Prod.fst) :
    setItem d key x = d ++ [(key, x)] := if_neg h

theorem foldl_setItem {members d : List (String × α)}
    (h : ((d ++ members).map Prod.fst).Nodup) :
    members.foldl (fun d e => setItem d e.1 e.2) d = d ++ members := by
  induction members generalizing d with
  | nil => simp
  | cons e members ih =>
    have hnew : e.1 ∉ d.map Prod.fst := by
      rw [List.map_append, List.nodup_append] at h
      exact fun hmem => h.2.2 _ hmem _ (by simp) rfl
    rw [List.foldl_cons, setItem_new e.2 hnew, ih (by simpa using h)]
    simp

theorem dict_of_nodup {members : List (String × α)} (h : (members.map Prod.fst).Nodup) :
    dict members = members := foldl_setItem (d := []) h

theorem dict_eq_nil_iff (members : List (String × α)) : dict members = [] ↔ members = [] := by
  constructor
  · intro h
    cases members with
    | nil => rfl
    | cons e members =>
      exfalso
      have hkeep : ∀ (rest d : List (String × α)), d ≠ [] →
          rest.foldl (fun d e => setItem d e.1 e.2) d ≠ [] := by
        intro rest
        induction rest with
        | nil => exact fun d hd => hd
        | cons e rest ih =>
          intro d hd
          have hset : setItem d e.1 e.2 ≠ [] := by
            unfold setItem
            split <;> simp [hd]
          exact ih _ hset
      exact hkeep members _ (by simp [setItem]) h
  · rintro rfl
    rfl

end Dicts

section Dumps

open DecisionSftPrep

theorem escape_ascii : ∀ n < 128, DecisionSftPrep.escape (Char.ofNat n) =
    JsonStrings.escape (Char.ofNat n) := by
  decide +kernel

theorem escape_eq (c : Char) : DecisionSftPrep.escape c = JsonStrings.escape c := by
  by_cases hc : c.toNat < 128
  · have h := escape_ascii c.toNat hc
    rwa [Char.ofNat_toNat] at h
  · have hquote : c ≠ JsonStrings.quote := by
      rintro rfl
      exact hc (by decide)
    have hbackslash : c ≠ JsonStrings.backslash := by
      rintro rfl
      exact hc (by decide)
    have hplain : ∀ n < 128, c.toNat ≠ n := fun n hn => by omega
    simp only [DecisionSftPrep.escape, JsonStrings.escape, JsonStrings.letterOf, hquote, hbackslash,
      hplain 8 (by omega), hplain 9 (by omega), hplain 10 (by omega), hplain 12 (by omega),
      hplain 13 (by omega), if_false, or_self, if_neg (show ¬ c.toNat < 32 by omega)]

theorem dumpsStr_eq (text : String) : dumpsStr text = Macjev.jsonString text := by
  have hescape : DecisionSftPrep.escape = JsonStrings.escape := funext escape_eq
  rw [dumpsStr, Macjev.jsonString, JsonStrings.write, hescape]

def noFloat : Json → Prop
  | .num (.float _) => False
  | _ => True

/-- The names of an object are distinct, an integer is read as one. -/
def dumpsAlike : Json → Prop
  | .obj fields => (fields.map Prod.fst).Nodup
  | .num (.int value) => Jv.InWord value
  | _ => True

theorem pyDumpsMembers_eq (members : List (String × Jv)) :
    Macjev.pyDumpsMembers members =
      members.map fun e => Macjev.jsonString e.1 ++ ": " ++ Macjev.pyDumps e.2 := by
  induction members with
  | nil => rfl
  | cons e members ih => rw [Macjev.pyDumpsMembers, ih, List.map_cons]

variable [PythonTexts]

theorem dumpsMembers_eq {members : List (String × Json)} {d : List (String × String)}
    (h : ((d.map Prod.fst) ++ members.map Prod.fst).Nodup) :
    dumpsMembers members d = d ++ members.map fun e => (e.1, dumps e.2) := by
  induction members generalizing d with
  | nil => simp [dumpsMembers]
  | cons e members ih =>
    obtain ⟨key, j⟩ := e
    have hnew : key ∉ d.map Prod.fst := by
      rw [List.nodup_append] at h
      exact fun hmem => h.2.2 _ hmem _ (by simp) rfl
    rw [dumpsMembers, setItem_new _ hnew, ih (by simpa using h)]
    simp

variable [RustStd] [LongIntegers]

mutual

theorem dumps_eq : ∀ j : Json, Everywhere noFloat j → Everywhere dumpsAlike j →
    dumps j = Macjev.pyDumps (Jv.ofJson j)
  | .null, _, _ => rfl
  | .bool _, _, _ => rfl
  | .num (.int value), _, hd => by
    have hword : Jv.InWord value := hd
    rw [dumps, Jv.ofJson, Macjev.pyDumps, if_pos hword]
  | .num (.float _), h, _ => h.elim
  | .str text, _, _ => dumpsStr_eq text
  | .arr items, hf, hd => by
    rw [Everywhere] at hf hd
    rw [dumps, dumpsItems_eq items hf.2 hd.2, Jv.ofJson, Macjev.pyDumps, Jv.ofItems_eq]
    by_cases hempty : items = []
    · simp [hempty, Macjev.pyDumpsItems]
    · simp [hempty]
  | .obj members, hf, hd => by
    rw [Everywhere] at hf hd
    have hnames : (([] : List (String × String)).map Prod.fst ++ members.map Prod.fst).Nodup := hd.1
    rw [dumps, dumpsMembers_eq hnames, List.nil_append, dumpsFields_eq members hf.2 hd.2, Jv.ofJson,
      Macjev.pyDumps, pyDumpsMembers_eq, Jv.ofFields_eq]
    by_cases hempty : members = []
    · simp [hempty]
    · simp [hempty, dumpsStr_eq, Function.comp_def]

theorem dumpsItems_eq : ∀ items : List Json, EverywhereItems noFloat items →
    EverywhereItems dumpsAlike items →
    dumpsItems items = Macjev.pyDumpsItems (items.map Jv.ofJson)
  | [], _, _ => rfl
  | j :: rest, hf, hd => by
    rw [EverywhereItems] at hf hd
    rw [dumpsItems, dumps_eq j hf.1 hd.1, dumpsItems_eq rest hf.2 hd.2, List.map_cons,
      Macjev.pyDumpsItems]

theorem dumpsFields_eq : ∀ members : List (String × Json), EverywhereFields noFloat members →
    EverywhereFields dumpsAlike members → members.map (fun e => (e.1, dumps e.2)) =
      members.map fun e => (e.1, Macjev.pyDumps (Jv.ofJson e.2))
  | [], _, _ => rfl
  | (key, j) :: rest, hf, hd => by
    rw [EverywhereFields] at hf hd
    rw [List.map_cons, List.map_cons, dumps_eq j hf.1 hd.1, dumpsFields_eq rest hf.2 hd.2]

end

end Dumps

section Views

open DecisionSftPrep

def objectOf : Option Json → List (String × Json)
  | some (.obj members) => members
  | _ => []

/-- Absent, empty of content or an object: what `x or {}` makes a dict of. -/
def DictLike (j : Option Json) : Prop :=
  ∀ value, j = some value → truthy value = true → ∃ members, value = .obj members

/-- The first member of the name has the value of the last. -/
def Reads (members : List (String × Json)) (key : String) : Prop :=
  lookup (dict members) key = lookup members key

theorem orDict_of_dictLike {j : Option Json} (h : DictLike j) :
    orDict j = some (dict (objectOf j)) := by
  cases j with
  | none => rfl
  | some value =>
    simp only [orDict]
    by_cases ht : truthy value = true
    · obtain ⟨members, rfl⟩ := h value rfl ht
      rw [if_pos ht]
      rfl
    · rw [if_neg ht]
      cases value with
      | obj members =>
        have hempty : members = [] := by simpa [truthy] using ht
        rw [hempty]
        rfl
      | _ => rfl

theorem find_ofFields [RustStd] [LongIntegers] (fields : List (String × Json)) (key : String) :
    Jv.find (Jv.ofFields fields) key = (lookup fields key).map Jv.ofJson := by
  rw [Jv.ofFields_eq, Jv.find, lookup, List.find?_map, Option.map_map, Option.map_map]
  rfl

theorem get_ofJson [RustStd] [LongIntegers] (j : Option Json) (key : String) :
    (j.map Jv.ofJson).bind (Jv.get key) = (lookup (objectOf j) key).map Jv.ofJson := by
  cases j with
  | none => rfl
  | some value =>
    cases value with
    | obj members => exact find_ofFields members key
    | num value => cases value <;> rfl
    | _ => rfl

theorem asStr_ofJson [RustStd] [LongIntegers] (j : Option Json) :
    (j.map Jv.ofJson).bind Jv.asStr = j.bind Json.asStr := by
  cases j with
  | none => rfl
  | some value =>
    cases value with
    | num value => cases value <;> rfl
    | _ => rfl

end Views

section Strips

/-- What the renderer strips to has no blank of Python's at an end. -/
def StripsAlike (text : String) : Prop :=
  Strip.Trimmed DecisionSftPrep.isSpace (Strip.strip Macjev.blank text.toList)

theorem isSpace_of_blank (c : Char) (h : Macjev.blank c = true) :
    DecisionSftPrep.isSpace c = true := by
  simp only [Macjev.blank, Bool.or_eq_true, decide_eq_true_eq] at h
  rcases h with ((((rfl | rfl) | rfl) | rfl) | h) | h
  · decide
  · decide
  · decide
  · decide
  · simp [DecisionSftPrep.isSpace, h]
  · simp [DecisionSftPrep.isSpace, h]

theorem pyStrip_eq_iff (text : String) :
    Macjev.pyStrip text = DecisionSftPrep.strip text ↔ StripsAlike text := by
  rw [Macjev.pyStrip, DecisionSftPrep.strip, String.ofList_inj,
    Strip.strip_eq_strip_iff isSpace_of_blank]
  rfl

theorem pyStrip_eq_empty {text : String} (h : Macjev.pyStrip text = "") :
    DecisionSftPrep.strip text = "" := by
  have hstrip : Strip.strip Macjev.blank text.toList = [] := by
    simpa [Macjev.pyStrip] using h
  have hagain := Strip.strip_strip isSpace_of_blank text.toList
  rw [hstrip] at hagain
  rw [DecisionSftPrep.strip, ← hagain]
  rfl

/-- The line of an option under the blanks of a language. -/
def lineOf (strip rstrip : String → String) (kind : MacjevKind) (o : String × String) : String :=
  match kind with
  | .choice => o.1 ++ ": " ++ strip o.2
  | .noul => rstrip (o.1 ++ ": " ++ strip o.2)
  | .score => "level " ++ o.1 ++ ": " ++ strip o.2

theorem lineOf_eq_iff (kind : MacjevKind) (o : String × String) :
    lineOf Macjev.pyStrip Macjev.pyRstrip kind o =
      lineOf DecisionSftPrep.strip DecisionSftPrep.rstrip kind o ↔ StripsAlike o.2 := by
  rw [← pyStrip_eq_iff]
  cases kind with
  | choice => simp [lineOf]
  | score => simp [lineOf]
  | noul =>
    have hcolon : (o.1.toList ++ [':']).getLast? = some ':' := by simp
    have hiff := Strip.rstrip_label_eq_iff (p := Macjev.blank) (q := DecisionSftPrep.isSpace)
      (o.1.toList ++ [':']) ' ' (by decide) (by decide)
      (by
        rw [hcolon]
        rintro a ⟨⟩
        decide)
      (Strip.trimmed_strip Macjev.blank o.2.toList)
      (Strip.trimmed_strip DecisionSftPrep.isSpace o.2.toList)
    simpa [lineOf, Macjev.pyRstrip, DecisionSftPrep.rstrip, Macjev.pyStrip, DecisionSftPrep.strip,
      String.ofList_inj] using hiff

end Strips

section Options

open DecisionSftPrep

def textOf (j : Option Json) : String := (j.bind asStr).getD ""

def optionTexts (kind : MacjevKind) (criteria : Option Json) : Option (List (String × String)) :=
  match kind, criteria with
  | .choice, some (.obj members) =>
    if members.length < 2 then none else some (members.map fun e => (e.1, textOf (some e.2)))
  | .noul, criteria =>
    some [("false", textOf (lookup (objectOf criteria) "false")),
      ("true", textOf (lookup (objectOf criteria) "true"))]
  | .score, some (.arr levels) =>
    if levels.length < 2 then none
    else some (levels.zipIdx.map fun e => (toString e.2, textOf (some e.1)))
  | _, _ => none

def OptionalText (j : Option Json) : Prop := ∀ value, j = some value → value = .null ∨ ∃ s, value = .str s

def StringCriteria (kind : MacjevKind) (criteria : Option Json) : Prop :=
  match kind, criteria with
  | .choice, some (.obj members) => ∀ e ∈ members, ∃ s, e.2 = .str s
  | .noul, criteria => OptionalText (lookup (objectOf criteria) "true") ∧
      OptionalText (lookup (objectOf criteria) "false")
  | .score, some (.arr levels) => ∀ level ∈ levels, ∃ s, level = .str s
  | _, _ => True

/-- No candidate is named twice, no side of a verdict has two texts. -/
def CriteriaRead (kind : MacjevKind) (criteria : Option Json) : Prop :=
  match kind with
  | .choice => ((objectOf criteria).map Prod.fst).Nodup
  | .noul => Reads (objectOf criteria) "true" ∧ Reads (objectOf criteria) "false"
  | .score => True

theorem orText_of_optionalText [PythonTexts] {j : Option Json} (h : OptionalText j) :
    orText j = textOf j := by
  cases j with
  | none => rfl
  | some value =>
    rcases h value rfl with rfl | ⟨s, rfl⟩
    · rfl
    · by_cases hs : s = "" <;> simp [orText, truthy, DecisionSftPrep.str, textOf, asStr, hs]

theorem side_ofJson [RustStd] [LongIntegers] (criteria : Option Json) (key : String)
    (h : OptionalText (lookup (objectOf criteria) key)) :
    Macjev.side (criteria.map Jv.ofJson) key =
      some (Macjev.pyStrip (textOf (lookup (objectOf criteria) key))) := by
  rw [Macjev.side, get_ofJson]
  cases hl : lookup (objectOf criteria) key with
  | none => rfl
  | some value =>
    rcases h value hl with rfl | ⟨s, rfl⟩
    · rfl
    · rfl

theorem optionSlots_ofJson [RustStd] [LongIntegers] {kind : MacjevKind} {criteria : Option Json}
    (h : StringCriteria kind criteria) :
    Macjev.optionSlots kind (criteria.map Jv.ofJson) = (optionTexts kind criteria).map
      (List.map fun o => ⟨o.1, lineOf Macjev.pyStrip Macjev.pyRstrip kind o⟩) := by
  cases kind with
  | choice =>
    cases criteria with
    | none => rfl
    | some j =>
      cases j with
      | obj members =>
        have hslots : members.mapM (fun e => Macjev.choiceSlot (e.1, Jv.ofJson e.2)) =
            some (members.map fun e => ⟨e.1, e.1 ++ ": " ++ Macjev.pyStrip (textOf (some e.2))⟩) := by
          refine Result.mapM_some_eq_map fun e he => ?_
          obtain ⟨s, hs⟩ := h e he
          simp [Macjev.choiceSlot, hs, Jv.ofJson, Jv.asStr, textOf, asStr]
        simp only [Option.map_some, Jv.ofJson, Jv.ofFields_eq, Macjev.optionSlots, List.length_map,
          List.mapM_map, Function.comp_def, hslots, optionTexts]
        by_cases hcount : members.length < 2 <;> simp [hcount, lineOf]
      | num value => cases value <;> rfl
      | _ => rfl
  | noul =>
    simp only [Macjev.optionSlots, side_ofJson criteria _ h.1, side_ofJson criteria _ h.2]
    rfl
  | score =>
    cases criteria with
    | none => rfl
    | some j =>
      cases j with
      | arr levels =>
        have hslots : (levels.zipIdx.map fun e => (Jv.ofJson e.1, e.2)).mapM Macjev.scoreSlot =
            some (levels.zipIdx.map fun e =>
              ⟨toString e.2, "level " ++ toString e.2 ++ ": " ++
                Macjev.pyStrip (textOf (some e.1))⟩) := by
          rw [List.mapM_map]
          refine Result.mapM_some_eq_map fun e he => ?_
          obtain ⟨s, hs⟩ := h e.1 (List.fst_mem_of_mem_zipIdx he)
          simp [Macjev.scoreSlot, hs, Jv.ofJson, Jv.asStr, textOf, asStr]
        have hzip : (levels.map Jv.ofJson).zipIdx =
            levels.zipIdx.map fun e => (Jv.ofJson e.1, e.2) := by
          rw [List.zipIdx_map]
          rfl
        simp only [Option.map_some, Jv.ofJson, Jv.ofItems_eq, Macjev.optionSlots, List.length_map,
          hzip, hslots, optionTexts]
        by_cases hcount : levels.length < 2 <;> simp [hcount, lineOf]
      | num value => cases value <;> rfl
      | _ => rfl

theorem optionsFor_unknown [PythonTexts] {question : List (String × Json)}
    (h : ((lookup question "type").bind asStr).bind MacjevKind.parse = none) :
    optionsFor question = none := by
  unfold optionsFor
  split
  · rename_i qtype htype
    rw [htype] at h
    have hparse : MacjevKind.parse qtype = none := h
    have hne : ∀ kind : MacjevKind, qtype ≠ kind.asStr := fun kind heq => by
      rw [(MacjevKind.parse_eq_some_iff qtype kind).mpr heq] at hparse
      cases hparse
    have hchoice : qtype ≠ "choice" := hne .choice
    have hnoul : qtype ≠ "noul" := hne .noul
    have hscore : qtype ≠ "score" := hne .score
    simp [hchoice, hnoul, hscore]
  · rfl

theorem optionsFor_eq [PythonTexts] {question : List (String × Json)} {kind : MacjevKind}
    (htype : lookup question "type" = some (.str kind.asStr))
    (h : StringCriteria kind (lookup question "criteria"))
    (hread : CriteriaRead kind (lookup question "criteria")) :
    optionsFor question = (optionTexts kind (lookup question "criteria")).map
      (List.map (lineOf DecisionSftPrep.strip DecisionSftPrep.rstrip kind)) := by
  simp only [optionsFor, htype]
  cases kind with
  | choice =>
    cases hc : lookup question "criteria" with
    | none => rfl
    | some j =>
      cases j with
      | obj members =>
        rw [hc] at h hread
        have hdict : dict members = members := dict_of_nodup hread
        have htexts : ∀ e ∈ members, DecisionSftPrep.str e.2 = textOf (some e.2) := by
          intro e he
          obtain ⟨s, hs⟩ := h e he
          rw [hs]
          rfl
        by_cases hcount : members.length < 2
        · simp [MacjevKind.asStr, optionTexts, hdict, hcount]
        · have hlines : members.map (fun e => e.1 ++ ": " ++ strip (DecisionSftPrep.str e.2)) =
              members.map fun e => e.1 ++ ": " ++ strip (textOf (some e.2)) :=
            List.map_congr_left fun e he => by rw [htexts e he]
          simp [MacjevKind.asStr, optionTexts, hdict, hcount, lineOf, hlines, Function.comp_def]
      | _ => rfl
  | noul =>
    have hsides : sidesOf (lookup question "criteria") =
        dict (objectOf (lookup question "criteria")) := by
      cases lookup question "criteria" with
      | none => rfl
      | some j => cases j <;> rfl
    have htrue : lookup (dict (objectOf (lookup question "criteria"))) "true" = _ := hread.1
    have hfalse : lookup (dict (objectOf (lookup question "criteria"))) "false" = _ := hread.2
    simp [MacjevKind.asStr, hsides, htrue, hfalse, orText_of_optionalText h.1,
      orText_of_optionalText h.2, optionTexts, lineOf]
  | score =>
    cases hc : lookup question "criteria" with
    | none => rfl
    | some j =>
      cases j with
      | arr levels =>
        rw [hc] at h
        have htexts : ∀ e ∈ levels.zipIdx, DecisionSftPrep.str e.1 = textOf (some e.1) := by
          intro e he
          obtain ⟨s, hs⟩ := h e.1 (List.fst_mem_of_mem_zipIdx he)
          rw [hs]
          rfl
        have hlines : levels.zipIdx.map (fun e =>
            "level " ++ toString e.2 ++ ": " ++ strip (DecisionSftPrep.str e.1)) =
            levels.zipIdx.map fun e =>
              "level " ++ toString e.2 ++ ": " ++ strip (textOf (some e.1)) :=
          List.map_congr_left fun e he => by rw [htexts e he]
        simp only [MacjevKind.asStr, optionTexts, hlines, if_true]
        by_cases hcount : levels.length < 2 <;> simp [hcount, lineOf, Function.comp_def]
      | _ => rfl

theorem optionIds_eq {question : List (String × Json)} {kind : MacjevKind}
    (htype : lookup question "type" = some (.str kind.asStr))
    (hread : CriteriaRead kind (lookup question "criteria")) {options : List (String × String)}
    (h : optionTexts kind (lookup question "criteria") = some options) :
    optionIds question = options.map Prod.fst := by
  cases kind with
  | choice =>
    cases hc : lookup question "criteria" with
    | none => rw [hc] at h; cases h
    | some j =>
      rw [hc] at h hread
      cases j with
      | obj members =>
        have hdict : dict members = members := dict_of_nodup hread
        simp only [optionTexts] at h
        split at h
        · cases h
        · cases h
          simp [optionIds, htype, MacjevKind.asStr, hc, hdict, Function.comp_def]
      | _ => cases h
  | noul =>
    cases h
    simp [optionIds, htype, MacjevKind.asStr]
  | score =>
    cases hc : lookup question "criteria" with
    | none => rw [hc] at h; cases h
    | some j =>
      rw [hc] at h
      cases j with
      | arr levels =>
        simp only [optionTexts] at h
        split at h
        · cases h
        · cases h
          have hrange : List.range levels.length = levels.zipIdx.map Prod.snd := by
            rw [List.zipIdx_map_snd, List.range_eq_range']
          have hids : optionIds question = (List.range levels.length).map toString := by
            simp [optionIds, htype, MacjevKind.asStr, hc]
          rw [hids, hrange, List.map_map, List.map_map]
          rfl
      | _ => cases h

end Options

section Questions

open DecisionSftPrep

def MacjevSkip.bucket : MacjevSkip → Bucket
  | unrenderableCriteria => .unrenderable
  | labelOutsideOptions => .labelOutsideOptions
  | emptyInstructions => .emptyInstructions

structure RowAlike (row : MacjevRow) (prep : Row) : Prop where
  id : row.id = prep.id
  question : row.question = prep.question
  qtype : row.qtype.asStr = prep.qtype
  label : row.label = prep.label
  nOptions : row.nOptions = prep.nOptions
  segments : row.segments.map (fun s => (s.text, if s.supervised then 1 else 0)) = prep.segments
  renderChars : row.renderChars = prep.renderChars

def QuestionAlike : Except MacjevSkip MacjevRow → Except Bucket Row → Prop
  | .ok row, .ok prep => RowAlike row prep
  | .error skip, .error bucket => skip.bucket = bucket
  | _, _ => False

def kindOf (question : List (String × Json)) : Option MacjevKind :=
  ((lookup question "type").bind asStr).bind MacjevKind.parse

/-- A label of the documented class: none, a string or an integer that is not negative. -/
def LabelInClass (label : Option Json) : Prop :=
  ∀ value, label = some value →
    value = .null ∨ (∃ s, value = .str s) ∨ ∃ n : Nat, value = .num (.int n)

def LabelInWord (label : Option Json) : Prop :=
  ∀ n, label = some (.num (.int n)) → Jv.InWord n

def labelOf : Option Json → Option String
  | some (.str s) => some s
  | some (.num (.int n)) => some (toString n)
  | _ => none

/-- Where the integer 0 and no label at all, which are both empty to the prep, make no difference. -/
def LabelRead (ids : List String) (instructions : String) (label : Option Json) : Prop :=
  match label with
  | some (.str _) => True
  | some (.num (.int n)) =>
    n = 0 → (("0" ∈ ids ↔ "" ∈ ids) ∧ ("0" ∈ ids → Macjev.pyStrip instructions = ""))
  | _ => "" ∉ ids

/-- The question of a record and its target are in the documented class. -/
structure QuestionInClass (question : List (String × Json)) (target : Option Json) : Prop where
  criteria : ∀ kind, kindOf question = some kind →
    StringCriteria kind (lookup question "criteria")
  instructions : OptionalText (lookup question "instructions")
  targetDict : DictLike target
  label : LabelInClass (lookup (objectOf target) "label")

/-- What is read of a question and its target has one value, and a label that is an integer is read as
one. -/
structure QuestionRead (question : List (String × Json)) (target : Option Json) : Prop where
  type : Reads question "type"
  criteria : Reads question "criteria"
  options : ∀ kind, kindOf question = some kind → CriteriaRead kind (lookup question "criteria")
  instructions : Reads question "instructions"
  targetType : Reads (objectOf target) "type"
  label : Reads (objectOf target) "label"
  word : LabelInWord (lookup (objectOf target) "label")

/-- Nothing of the question that gets into a row differs between the languages, and in a row the
record is named alike. -/
def QuestionPlain (named : Prop) (question : List (String × Json)) (target : Option Json) : Prop :=
  ∀ kind options, kindOf question = some kind →
    optionTexts kind (lookup question "criteria") = some options →
    (lookup (objectOf target) "type").bind asStr = some kind.asStr →
    LabelRead (options.map Prod.fst) (textOf (lookup question "instructions"))
      (lookup (objectOf target) "label") ∧
    ((∃ label ∈ options.map Prod.fst, labelOf (lookup (objectOf target) "label") = some label) →
      Macjev.pyStrip (textOf (lookup question "instructions")) ≠ "" →
      named ∧ StripsAlike (textOf (lookup question "instructions")) ∧
        ∀ o ∈ options, StripsAlike o.2)

section Segments

theorem zipIdx_flatMap_injective {opts opts' : List String} {yesAt : Option Nat} (k : Nat)
    (h : (opts.zipIdx k).flatMap (fun e => [((if e.2 = 0 then "" else "\n") ++ e.1 ++ " ->", 0),
        (if yesAt = some e.2 then " yes" else " no", 1)]) =
      (opts'.zipIdx k).flatMap fun e => [((if e.2 = 0 then "" else "\n") ++ e.1 ++ " ->", 0),
        (if yesAt = some e.2 then " yes" else " no", 1)]) : opts = opts' := by
  induction opts generalizing opts' k with
  | nil =>
    cases opts' with
    | nil => rfl
    | cons o opts' => simp at h
  | cons o opts ih =>
    cases opts' with
    | nil => simp at h
    | cons o' opts' =>
      simp only [List.zipIdx_cons, List.flatMap_cons, List.cons_append, List.nil_append,
        List.cons.injEq, Prod.mk.injEq, and_true, true_and, String.append_left_inj,
        String.append_right_inj] at h
      rw [h.1, ih (k + 1) h.2]

theorem segmentsFor_injective {ids opts opts' : List String} {label : String}
    (h : segmentsFor ids opts label = segmentsFor ids opts' label) : opts = opts' :=
  zipIdx_flatMap_injective 0 (List.append_cancel_right h)

theorem renderHeader_injective {qtype i i' s : String} {options : List String}
    (h : renderHeader qtype i options s = renderHeader qtype i' options s) : i = i' := by
  simpa [renderHeader, String.append_left_inj, String.append_right_inj] using h

theorem renderSegments_eq (kind : MacjevKind) (i s label : String)
    (slots : List Macjev.MacjevSlot) :
    (Macjev.renderSegments kind i slots s label).map
      (fun s => (s.text, if s.supervised then 1 else 0)) =
      (renderHeader kind.asStr i (slots.map Macjev.MacjevSlot.line) s, 0) ::
        segmentsFor (slots.map Macjev.MacjevSlot.id) (slots.map Macjev.MacjevSlot.line) label := by
  have hyes : (slots.map Macjev.MacjevSlot.id).findIdx? (fun id => id = label) =
      slots.findIdx? fun slot => slot.id = label := by
    rw [List.findIdx?_map]
    rfl
  have hzip : (slots.map Macjev.MacjevSlot.line).zipIdx =
      slots.zipIdx.map fun e => (e.1.line, e.2) := by
    rw [List.zipIdx_map]
    rfl
  simp only [Macjev.renderSegments, segmentsFor, hyes, hzip, List.map_cons, List.map_append,
    List.map_flatMap, List.flatMap_map]
  rfl

end Segments

section Labels

theorem labelText_ofJson [RustStd] [LongIntegers] {label : Option Json} (h : LabelInClass label)
    (hword : LabelInWord label) :
    (label.map Jv.ofJson).bind Jv.labelText = labelOf label := by
  cases label with
  | none => rfl
  | some value =>
    rcases h value rfl with rfl | ⟨s, rfl⟩ | ⟨n, rfl⟩
    · rfl
    · rfl
    · have hdigits : (toString (n : Int)).toList.all Char.isDigit = true := by
        rw [List.all_eq_true]
        intro c hc
        have hrepr : c ∈ n.repr.toList := hc
        exact Nat.isDigit_of_mem_toDigits (b := 10) (n := n) (by omega) (by omega)
          (by simpa [Nat.repr] using hrepr)
      simp only [Option.map_some, Option.bind_some, Jv.ofJson, if_pos (hword _ rfl), Jv.labelText,
        hdigits, if_true, labelOf]

end Labels

section Renderer

theorem parse_getD (qtype : Option String) :
    MacjevKind.parse (qtype.getD "") = qtype.bind MacjevKind.parse := by
  cases qtype <;> rfl

theorem bind_parse_iff (qtype : Option String) (kind : MacjevKind) :
    qtype.bind MacjevKind.parse = some kind ↔ qtype = some kind.asStr := by
  cases qtype with
  | none => simp
  | some qtype => simp [MacjevKind.parse_eq_some_iff]

theorem getD_map_pyStrip (j : Option Json) :
    ((j.bind asStr).map Macjev.pyStrip).getD "" = Macjev.pyStrip (textOf j) := by
  rw [textOf]
  cases j.bind asStr <;> rfl

variable [RustStd] [LongIntegers] {question : List (String × Json)} {target : Option Json}
  {kind : MacjevKind} (recordId name state : String)

theorem get_ofJson_obj (key : String) :
    (Jv.ofJson (.obj question)).get key = (lookup question key).map Jv.ofJson :=
  find_ofFields question key

theorem renderQuestion_unknown (h : kindOf question = none) :
    Macjev.renderQuestion recordId name (Jv.ofJson (.obj question)) (target.map Jv.ofJson) state =
      .error .unrenderableCriteria := by
  rw [Macjev.renderQuestion, get_ofJson_obj, asStr_ofJson, parse_getD]
  rw [kindOf] at h
  rw [h]

theorem renderQuestion_known (hclass : QuestionInClass question target)
    (hword : LabelInWord (lookup (objectOf target) "label")) (hkind : kindOf question = some kind) :
    Macjev.renderQuestion recordId name (Jv.ofJson (.obj question)) (target.map Jv.ofJson) state =
      match optionTexts kind (lookup question "criteria") with
      | none => .error .unrenderableCriteria
      | some options =>
        let slots : List Macjev.MacjevSlot :=
          options.map fun o => ⟨o.1, lineOf Macjev.pyStrip Macjev.pyRstrip kind o⟩
        let label := labelOf (lookup (objectOf target) "label")
        if (lookup (objectOf target) "type").bind asStr ≠ some kind.asStr ∨
            ¬ label.any (fun label => label ∈ options.map Prod.fst) then
          .error .labelOutsideOptions
        else
          let instructions := Macjev.pyStrip (textOf (lookup question "instructions"))
          if instructions = "" then .error .emptyInstructions
          else
            let segments := Macjev.renderSegments kind instructions slots state (label.getD "")
            .ok {
              id := recordId ++ "::" ++ name, question := name, qtype := kind
              label := label.getD "", nOptions := options.length, segments
              renderChars := (segments.map fun segment => segment.text.length).sum } := by
  have hparse := hkind
  rw [kindOf] at hparse
  have hany : ∀ (options : List (String × String)) (label : String),
      ((options.map fun o : String × String => (⟨o.1, lineOf Macjev.pyStrip Macjev.pyRstrip kind o⟩ :
        Macjev.MacjevSlot)).any fun slot => slot.id = label) =
        decide (label ∈ options.map Prod.fst) := by
    intro options label
    rw [List.any_map, Bool.eq_iff_iff, List.any_eq_true, decide_eq_true_iff, List.mem_map]
    simp
  simp only [Macjev.renderQuestion, get_ofJson_obj, asStr_ofJson, parse_getD, hparse,
    optionSlots_ofJson (hclass.criteria kind hkind), get_ofJson,
    labelText_ofJson hclass.label hword, bind_parse_iff, getD_map_pyStrip, ne_eq]
  cases optionTexts kind (lookup question "criteria") with
  | none => rfl
  | some options =>
    simp only [Option.map_some, hany, List.length_map]

end Renderer

section Prep

variable [PythonTexts] {question : List (String × Json)} {target : Option Json}
  {kind : MacjevKind} {record : List (String × Json)} (name state : String)

omit [PythonTexts] in
theorem type_of_kindOf (h : kindOf question = some kind) :
    lookup question "type" = some (.str kind.asStr) := by
  have hstr := (bind_parse_iff _ kind).mp h
  cases hl : lookup question "type" with
  | none =>
    rw [hl] at hstr
    cases hstr
  | some j =>
    rw [hl] at hstr
    cases j with
    | str s =>
      cases hstr
      rfl
    | _ => cases hstr

theorem questionRow_unknown (h : kindOf question = none) (hread : Reads question "type") :
    questionRow record state (name, .obj question) = some (name, .error .unrenderable) := by
  have hunknown : optionsFor (dict question) = none := by
    refine optionsFor_unknown ?_
    rw [show lookup (dict question) "type" = lookup question "type" from hread]
    exact h
  simp only [questionRow, hunknown]

theorem questionRow_known (hclass : QuestionInClass question target)
    (hread : QuestionRead question target) (hkind : kindOf question = some kind)
    (htarget : ((orDict (lookup record "target")).bind fun targets =>
      orDict (lookup targets name)) = some (dict (objectOf target))) :
    questionRow record state (name, .obj question) = some (name,
      match optionTexts kind (lookup question "criteria") with
      | none => .error .unrenderable
      | some options =>
        let lines := options.map (lineOf DecisionSftPrep.strip DecisionSftPrep.rstrip kind)
        let label := orText (lookup (objectOf target) "label")
        if (lookup (objectOf target) "type").bind asStr ≠ some kind.asStr ∨
            label ∉ options.map Prod.fst then .error .labelOutsideOptions
        else
          let instructions := strip (textOf (lookup question "instructions"))
          if instructions = "" then .error .emptyInstructions
          else
            let recordId := orText (lookup record "record_id")
            let segments := (renderHeader kind.asStr instructions lines state, 0) ::
              segmentsFor (options.map Prod.fst) lines label
            .ok {
              id := recordId ++ "::" ++ name, recordId, question := name, qtype := kind.asStr
              label, nOptions := options.length
              source := orText (lookup record "source"), segments
              renderChars := (segments.map fun segment => segment.1.length).sum }) := by
  have htype : lookup (dict question) "type" = some (.str kind.asStr) :=
    hread.type.trans (type_of_kindOf hkind)
  have hcriteria : lookup (dict question) "criteria" = lookup question "criteria" := hread.criteria
  have hstrings := hclass.criteria kind hkind
  have hcriteriaRead := hread.options kind hkind
  rw [← hcriteria] at hstrings hcriteriaRead
  have hoptions := optionsFor_eq htype hstrings hcriteriaRead
  have hinstructions : orText (lookup (dict question) "instructions") =
      textOf (lookup question "instructions") := by
    rw [show lookup (dict question) "instructions" = lookup question "instructions"
      from hread.instructions]
    exact orText_of_optionalText hclass.instructions
  have htargetType : lookup (dict (objectOf target)) "type" = lookup (objectOf target) "type" :=
    hread.targetType
  have hlabel : lookup (dict (objectOf target)) "label" = lookup (objectOf target) "label" :=
    hread.label
  have hids : ∀ options, optionTexts kind (lookup question "criteria") = some options →
      optionIds (dict question) = options.map Prod.fst := by
    intro options h
    rw [← hcriteria] at h
    exact optionIds_eq htype hcriteriaRead h
  rw [hcriteria] at hoptions
  simp only [questionRow, hoptions]
  cases ho : optionTexts kind (lookup question "criteria") with
  | none => rfl
  | some options =>
    obtain ⟨targets, htargets, hentry⟩ := Option.bind_eq_some_iff.mp htarget
    simp only [Option.map_some, htargets, hentry, htype, hids options ho, hinstructions, htargetType,
      hlabel, List.length_map, bind, Option.bind_some, Json.asStr, Option.getD_some]
    split_ifs <;> rfl

end Prep

section Comparison

theorem lines_eq_iff (kind : MacjevKind) (options : List (String × String)) :
    options.map (lineOf Macjev.pyStrip Macjev.pyRstrip kind) =
      options.map (lineOf DecisionSftPrep.strip DecisionSftPrep.rstrip kind) ↔
      ∀ o ∈ options, StripsAlike o.2 := by
  rw [List.map_inj_left]
  exact forall₂_congr fun o _ => lineOf_eq_iff kind o

/-- The segments agree exactly when the instructions and every option text do. -/
theorem segments_eq_iff (kind : MacjevKind) (options : List (String × String))
    (i i' state label : String) :
    (Macjev.renderSegments kind i (options.map fun o =>
        ⟨o.1, lineOf Macjev.pyStrip Macjev.pyRstrip kind o⟩) state label).map
        (fun s => (s.text, if s.supervised then 1 else 0)) =
      (renderHeader kind.asStr i'
        (options.map (lineOf DecisionSftPrep.strip DecisionSftPrep.rstrip kind)) state, 0) ::
        segmentsFor (options.map Prod.fst)
          (options.map (lineOf DecisionSftPrep.strip DecisionSftPrep.rstrip kind)) label ↔
      i = i' ∧ ∀ o ∈ options, StripsAlike o.2 := by
  rw [renderSegments_eq, List.map_map, List.map_map, ← lines_eq_iff kind options]
  have hlines : (Macjev.MacjevSlot.line ∘ fun o : String × String =>
      (⟨o.1, lineOf Macjev.pyStrip Macjev.pyRstrip kind o⟩ : Macjev.MacjevSlot)) =
      lineOf Macjev.pyStrip Macjev.pyRstrip kind := rfl
  have hids : (Macjev.MacjevSlot.id ∘ fun o : String × String =>
      (⟨o.1, lineOf Macjev.pyStrip Macjev.pyRstrip kind o⟩ : Macjev.MacjevSlot)) = Prod.fst := rfl
  rw [hlines, hids]
  constructor
  · intro h
    rw [List.cons.injEq, Prod.mk.injEq] at h
    have hsame := segmentsFor_injective h.2
    rw [hsame] at h
    exact ⟨renderHeader_injective h.1.1, hsame⟩
  · rintro ⟨rfl, hsame⟩
    rw [hsame]

/-- Where the integer 0 and no label make no difference, the labels are read alike or are no option
in either language, or no row comes of it. -/
theorem labelRead_cases [PythonTexts] {label : Option Json} (h : LabelInClass label) :
    (∃ text, labelOf label = some text ∧ orText label = text ∧
      ∀ ids i, LabelRead ids i label) ∨
    (labelOf label = none ∧ orText label = "" ∧ ∀ ids i, LabelRead ids i label ↔ "" ∉ ids) ∨
    (labelOf label = some "0" ∧ orText label = "" ∧ ∀ ids i, LabelRead ids i label ↔
      (("0" ∈ ids ↔ "" ∈ ids) ∧ ("0" ∈ ids → Macjev.pyStrip i = ""))) := by
  cases label with
  | none => exact Or.inr (Or.inl ⟨rfl, rfl, fun _ _ => Iff.rfl⟩)
  | some value =>
    rcases h value rfl with rfl | ⟨s, rfl⟩ | ⟨n, rfl⟩
    · exact Or.inr (Or.inl ⟨rfl, rfl, fun _ _ => Iff.rfl⟩)
    · refine Or.inl ⟨s, rfl, ?_, fun _ _ => trivial⟩
      by_cases hs : s = "" <;> simp [orText, truthy, DecisionSftPrep.str, hs]
    · by_cases hn : n = 0
      · subst hn
        exact Or.inr (Or.inr ⟨rfl, rfl, fun _ _ => by simp [LabelRead]⟩)
      · refine Or.inl ⟨toString (n : Int), rfl, ?_, fun _ _ => ?_⟩
        · simp [orText, truthy, DecisionSftPrep.str, hn]
        · simp [LabelRead, hn]

theorem questionPlain_iff {named : Prop} {question : List (String × Json)} {target : Option Json}
    {kind : MacjevKind} {options : List (String × String)} (hkind : kindOf question = some kind)
    (ho : optionTexts kind (lookup question "criteria") = some options) :
    QuestionPlain named question target ↔
      ((lookup (objectOf target) "type").bind asStr = some kind.asStr →
        LabelRead (options.map Prod.fst) (textOf (lookup question "instructions"))
          (lookup (objectOf target) "label") ∧
        ((∃ label ∈ options.map Prod.fst,
          labelOf (lookup (objectOf target) "label") = some label) →
          Macjev.pyStrip (textOf (lookup question "instructions")) ≠ "" →
          named ∧ StripsAlike (textOf (lookup question "instructions")) ∧
            ∀ o ∈ options, StripsAlike o.2)) := by
  constructor
  · exact fun h => h kind options hkind ho
  · intro h kind' options' hkind' ho'
    rw [hkind] at hkind'
    cases hkind'
    rw [ho] at ho'
    cases ho'
    exact h

theorem questionPlain_unrenderable {named : Prop} {question : List (String × Json)} {target : Option Json}
    (h : ∀ kind, kindOf question = some kind →
      optionTexts kind (lookup question "criteria") = none) :
    QuestionPlain named question target := by
  intro kind options hkind ho
  rw [h kind hkind] at ho
  cases ho

/-- Both languages read the instructions, then write the row. -/
theorem outcome_alike_iff {named : Prop} {kind : MacjevKind} {options : List (String × String)}
    {i label : String} {row : MacjevRow} {prep : Row} (state : String)
    (hid : row.id = prep.id ↔ named)
    (hquestion : row.question = prep.question) (hqtype : row.qtype.asStr = prep.qtype)
    (hlabel : row.label = prep.label) (hcount : row.nOptions = prep.nOptions)
    (hsegments : row.segments = Macjev.renderSegments kind (Macjev.pyStrip i) (options.map fun o =>
      ⟨o.1, lineOf Macjev.pyStrip Macjev.pyRstrip kind o⟩) state label)
    (hprep : prep.segments = (renderHeader kind.asStr (strip i)
      (options.map (lineOf DecisionSftPrep.strip DecisionSftPrep.rstrip kind)) state, 0) ::
        segmentsFor (options.map Prod.fst)
          (options.map (lineOf DecisionSftPrep.strip DecisionSftPrep.rstrip kind)) label)
    (hchars : row.renderChars = (row.segments.map fun s => s.text.length).sum)
    (hprepChars : prep.renderChars = (prep.segments.map fun s => s.1.length).sum) :
    QuestionAlike (if Macjev.pyStrip i = "" then .error .emptyInstructions else .ok row)
      (if strip i = "" then .error .emptyInstructions else .ok prep) ↔
      (Macjev.pyStrip i ≠ "" → named ∧ StripsAlike i ∧ ∀ o ∈ options, StripsAlike o.2) := by
  have hsame := segments_eq_iff kind options (Macjev.pyStrip i) (strip i) state label
  rw [← hsegments, ← hprep, pyStrip_eq_iff] at hsame
  by_cases hrust : Macjev.pyStrip i = ""
  · simp [hrust, pyStrip_eq_empty hrust, QuestionAlike, MacjevSkip.bucket]
  · by_cases hpython : strip i = ""
    · have hdiffer : ¬ StripsAlike i := by
        rw [← pyStrip_eq_iff, hpython]
        exact hrust
      simp [hrust, hpython, QuestionAlike, hdiffer]
    · simp only [hrust, hpython, if_false, QuestionAlike, ne_eq, not_false_eq_true, true_imp_iff]
      rw [← hsame, ← hid]
      constructor
      · exact fun h => ⟨h.id, h.segments⟩
      · rintro ⟨hid, h⟩
        refine ⟨hid, hquestion, hqtype, hlabel, hcount, h, ?_⟩
        rw [hchars, hprepChars, ← h, List.map_map]
        rfl

theorem not_skipAlike {skip : MacjevSkip} {bucket : Bucket} {p : Prop} [Decidable p] {row : Row}
    (h : skip.bucket ≠ bucket) :
    ¬ QuestionAlike (.error skip) (if p then .error bucket else .ok row) := by
  split
  · exact h
  · exact not_false

/-- A question of the documented class, read without ambiguity, comes out alike exactly when nothing
of it that gets into a row differs between the languages. -/
theorem questionAlike_iff [RustStd] [LongIntegers] [PythonTexts] {question : List (String × Json)}
    {target : Option Json} {record : List (String × Json)} {named : Prop}
    (recordId name state : String)
    (hid : recordId = orText (lookup record "record_id") ↔ named)
    (hclass : QuestionInClass question target) (hread : QuestionRead question target)
    (htarget : ((orDict (lookup record "target")).bind fun targets =>
      orDict (lookup targets name)) = some (dict (objectOf target))) :
    ∃ prep, questionRow record state (name, .obj question) = some (name, prep) ∧
      (QuestionAlike (Macjev.renderQuestion recordId name (Jv.ofJson (.obj question))
        (target.map Jv.ofJson) state) prep ↔ QuestionPlain named question target) := by
  cases hkind : kindOf question with
  | none =>
    refine ⟨_, questionRow_unknown name state hkind hread.type, ?_⟩
    rw [renderQuestion_unknown recordId name state hkind]
    exact iff_of_true rfl (questionPlain_unrenderable fun kind h => by rw [hkind] at h; cases h)
  | some kind =>
    refine ⟨_, questionRow_known name state hclass hread hkind htarget, ?_⟩
    rw [renderQuestion_known recordId name state hclass hread.word hkind]
    cases ho : optionTexts kind (lookup question "criteria") with
    | none =>
      refine iff_of_true rfl (questionPlain_unrenderable fun kind' h => ?_)
      rw [hkind] at h
      cases h
      exact ho
    | some options =>
      have hrowId : recordId ++ "::" ++ name = orText (lookup record "record_id") ++ "::" ++ name ↔
          named := by
        rw [← hid, String.append_left_inj, String.append_left_inj]
      rw [questionPlain_iff hkind ho]
      by_cases htype : (lookup (objectOf target) "type").bind asStr = some kind.asStr
      · simp only [htype, ne_eq, not_true_eq_false, false_or, true_imp_iff]
        rcases labelRead_cases hclass.label with ⟨text, hrust, hprep, hlabel⟩ |
          ⟨hrust, hprep, hlabel⟩ | ⟨hrust, hprep, hlabel⟩
        · simp only [hrust, hprep, hlabel, true_and, Option.any_some, Option.getD_some,
            Option.some.injEq, decide_eq_true_eq]
          by_cases hin : text ∈ options.map Prod.fst
          · simp only [hin, not_true_eq_false, if_false, exists_eq_right', true_imp_iff]
            exact outcome_alike_iff state hrowId rfl rfl rfl rfl rfl rfl rfl rfl
          · have hnone : ¬ ∃ label ∈ options.map Prod.fst, text = label := by
              rintro ⟨label, hmem, rfl⟩
              exact hin hmem
            simp only [hin, hnone, not_false_eq_true, if_true, false_imp_iff, iff_true]
            rfl
        · simp only [hrust, hprep, hlabel, Option.any_none, Bool.false_eq_true, not_false_eq_true,
            if_true, reduceCtorEq, and_false, exists_false, false_imp_iff, and_true]
          by_cases hempty : "" ∈ options.map Prod.fst
          · simp only [hempty, not_true_eq_false, if_false, iff_false]
            exact not_skipAlike (by decide)
          · simp only [hempty, not_false_eq_true, if_true, iff_true]
            rfl
        · simp only [hrust, hprep, hlabel, Option.any_some, Option.getD_some, Option.some.injEq,
            decide_eq_true_eq]
          by_cases hzero : "0" ∈ options.map Prod.fst
          · by_cases hempty : "" ∈ options.map Prod.fst
            · by_cases hstrip : Macjev.pyStrip (textOf (lookup question "instructions")) = ""
              · simp [hzero, hempty, hstrip, pyStrip_eq_empty hstrip, QuestionAlike,
                  MacjevSkip.bucket]
              · simp only [hzero, hempty, not_true_eq_false, if_false, hstrip, imp_false, and_false,
                  false_and, iff_false]
                split
                · exact not_false
                · exact fun h => absurd h.label (by decide : "0" ≠ "")
            · simp only [hzero, hempty, not_true_eq_false, not_false_eq_true, if_false, if_true,
                iff_false, false_and]
              split
              · exact fun h => by cases h
              · exact not_false
          · by_cases hempty : "" ∈ options.map Prod.fst
            · simp only [hzero, hempty, not_true_eq_false, not_false_eq_true, if_false, if_true,
                false_iff, false_and, iff_false]
              exact not_skipAlike (by decide)
            · have hnone : ¬ ∃ label ∈ options.map Prod.fst, "0" = label := by
                rintro ⟨label, hmem, rfl⟩
                exact hzero hmem
              simp only [hzero, hempty, hnone, not_false_eq_true, if_true, false_imp_iff, and_true,
                iff_true]
              rfl
      · simp only [htype, ne_eq, not_false_eq_true, true_or, if_true, false_imp_iff, iff_true]
        rfl

end Comparison

end Questions

end OpenCodifier
