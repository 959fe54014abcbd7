import Mathlib.Algebra.GroupWithZero.Nat
import OpenCodifier.Lib.JsonStrings
import OpenCodifier.Lib.Strip
import OpenCodifier.Lib.Json
import OpenCodifier.Core.Error
set_option autoImplicit false

namespace OpenCodifier

inductive MacjevKind where
  | choice
  | noul
  | score
  deriving DecidableEq

def MacjevKind.asStr : MacjevKind → String
  | choice => "choice"
  | noul => "noul"
  | score => "score"

def MacjevKind.parse (qtype : String) : Option MacjevKind :=
  if qtype = "choice" then some .choice
  else if qtype = "noul" then some .noul
  else if qtype = "score" then some .score
  else none

theorem MacjevKind.parse_eq_some_iff (qtype : String) (kind : MacjevKind) :
    parse qtype = some kind ↔ qtype = kind.asStr := by
  unfold parse
  constructor
  · intro h
    repeat' split at h
    all_goals cases h
    all_goals assumption
  · rintro rfl
    cases kind <;> rfl

/-- Text and its loss-mask flag. -/
structure MacjevSegment where
  text : String
  supervised : Bool
  deriving DecidableEq

structure MacjevRow where
  id : String
  question : String
  qtype : MacjevKind
  label : String
  nOptions : Nat
  segments : List MacjevSegment
  renderChars : Nat
  deriving DecidableEq

inductive MacjevSkip where
  | unrenderableCriteria
  | labelOutsideOptions
  | emptyInstructions
  deriving DecidableEq

structure MacjevRecordRender where
  state : String
  rows : List MacjevRow
  skips : List (String × MacjevSkip)

inductive MacjevOutcome where
  | suiteRow
  | emptyState
  | stateOverBudget (stateChars : Nat)
  | rendered (render : MacjevRecordRender)

inductive MacjevError where
  | invalidRecord (origin : String)

/-- A document whose scalars are kept as raw text and whose members keep their order. -/
inductive Jv where
  | scalar (raw : String)
  | str (text : String)
  | arr (items : List Jv)
  | obj (members : List (String × Jv))

/-- What `serde_json` makes of an integer that is neither an `i64` nor a `u64`. -/
class LongIntegers where
  float : Int → ℚ

namespace Jv

/-- The integers a visitor is given as such. -/
def InWord (value : Int) : Prop := -2 ^ 63 ≤ value ∧ value < 2 ^ 64

instance : DecidablePred InWord := fun _ => inferInstanceAs (Decidable (_ ∧ _))

section Reading

variable [RustStd] [LongIntegers]

mutual

def ofJson : Json → Jv
  | .null => scalar "null"
  | .bool value => scalar (if value then "true" else "false")
  | .num (.int value) =>
    scalar (if InWord value then toString value else RustStd.display (LongIntegers.float value))
  | .num (.float value) => scalar (RustStd.display value)
  | .str value => str value
  | .arr items => arr (ofItems items)
  | .obj fields => obj (ofFields fields)

def ofItems : List Json → List Jv
  | [] => []
  | j :: rest => ofJson j :: ofItems rest

def ofFields : List (String × Json) → List (String × Jv)
  | [] => []
  | (key, j) :: rest => (key, ofJson j) :: ofFields rest

end

theorem ofItems_eq (items : List Json) : ofItems items = items.map ofJson := by
  induction items with
  | nil => rfl
  | cons j rest ih => rw [ofItems, ih, List.map_cons]

theorem ofFields_eq (fields : List (String × Json)) :
    ofFields fields = fields.map fun e => (e.1, ofJson e.2) := by
  induction fields with
  | nil => rfl
  | cons e rest ih => rw [ofFields, ih, List.map_cons]

end Reading

def find (members : List (String × Jv)) (key : String) : Option Jv :=
  (members.find? fun e => e.1 = key).map Prod.snd

def get (key : String) : Jv → Option Jv
  | obj members => find members key
  | _ => none

def asStr : Jv → Option String
  | str text => some text
  | _ => none

/-- A string, or a scalar of digits. -/
def labelText : Jv → Option String
  | str text => some text
  | scalar raw => if raw.toList.all Char.isDigit then some raw else none
  | _ => none

end Jv

namespace Macjev

/-- The six blanks the renderer strips. -/
def blank (c : Char) : Bool :=
  c = ' ' || c = '\t' || c = '\n' || c = '\r' || c.toNat = 11 || c.toNat = 12

def pyStrip (text : String) : String := String.ofList (Strip.strip blank text.toList)

def pyRstrip (text : String) : String := String.ofList (Strip.rstrip blank text.toList)

def jsonString (text : String) : String := String.ofList (JsonStrings.write text.toList)

mutual

def pyDumps : Jv → String
  | .obj members =>
    if members = [] then "\x7b\x7d"
    else "\x7b" ++ ", ".intercalate (pyDumpsMembers members) ++ "\x7d"
  | .arr items => if items = [] then "[]" else "[" ++ ", ".intercalate (pyDumpsItems items) ++ "]"
  | .str text => jsonString text
  | .scalar raw => raw

def pyDumpsItems : List Jv → List String
  | [] => []
  | j :: rest => pyDumps j :: pyDumpsItems rest

def pyDumpsMembers : List (String × Jv) → List String
  | [] => []
  | (key, j) :: rest => (jsonString key ++ ": " ++ pyDumps j) :: pyDumpsMembers rest

end

/-- A plain string, a text in a wrapper, or a structured state as the serving adapter dumps it. -/
def stateText (record : Jv) : String :=
  match (record.get "request").bind (Jv.get "state") with
  | some (.str text) => pyStrip text
  | some (.obj members) =>
    match Jv.find members "text" with
    | some (.str text) =>
      if pyStrip text ≠ "" then pyStrip text
      else if members = [] then "" else pyDumps (.obj members)
    | _ => if members = [] then "" else pyDumps (.obj members)
  | _ => ""

structure MacjevSlot where
  id : String
  line : String

def choiceSlot (e : String × Jv) : Option MacjevSlot :=
  e.2.asStr.map fun text => ⟨e.1, e.1 ++ ": " ++ pyStrip text⟩

def scoreSlot (e : Jv × Nat) : Option MacjevSlot :=
  e.1.asStr.map fun text => ⟨toString e.2, "level " ++ toString e.2 ++ ": " ++ pyStrip text⟩

/-- One side of a two-sided verdict; an absent or null side is empty. -/
def side (criteria : Option Jv) (key : String) : Option String :=
  match criteria.bind (Jv.get key) with
  | some (.str text) => some (pyStrip text)
  | none => some ""
  | some (.scalar raw) => if raw = "null" then some "" else none
  | some _ => none

def optionSlots (qtype : MacjevKind) (criteria : Option Jv) : Option (List MacjevSlot) :=
  match qtype with
  | .choice =>
    match criteria with
    | some (.obj candidates) =>
      if candidates.length < 2 then none else candidates.mapM choiceSlot
    | _ => none
  | .noul => do
    let held ← side criteria "true"
    let notHeld ← side criteria "false"
    some [⟨"false", pyRstrip ("false: " ++ notHeld)⟩, ⟨"true", pyRstrip ("true: " ++ held)⟩]
  | .score =>
    match criteria with
    | some (.arr levels) => if levels.length < 2 then none else levels.zipIdx.mapM scoreSlot
    | _ => none

def renderHeader (qtype instructions : String) (options : List String) (state : String) : String :=
  "State:\n" ++ state ++ "\n\nQuestion [" ++ qtype ++ "]: " ++ instructions ++ "\nOptions:\n" ++
    "\n".intercalate (options.map fun line => "- " ++ line) ++ "\nJudge each option:\n"

def slotSegments (yesAt : Option Nat) (e : MacjevSlot × Nat) : List MacjevSegment :=
  [⟨(if e.2 = 0 then "" else "\n") ++ e.1.line ++ " ->", false⟩,
    ⟨if yesAt = some e.2 then " yes" else " no", true⟩]

def renderSegments (qtype : MacjevKind) (instructions : String) (slots : List MacjevSlot)
    (state label : String) : List MacjevSegment :=
  let yesAt := slots.findIdx? fun slot => slot.id = label
  ⟨renderHeader qtype.asStr instructions (slots.map MacjevSlot.line) state, false⟩ ::
    (slots.zipIdx.flatMap (slotSegments yesAt) ++ [⟨"\n", false⟩])

def renderQuestion (recordId name : String) (question : Jv) (target : Option Jv) (state : String) :
    Except MacjevSkip MacjevRow :=
  match MacjevKind.parse (((question.get "type").bind Jv.asStr).getD "") with
  | none => .error .unrenderableCriteria
  | some qtype =>
    match optionSlots qtype (question.get "criteria") with
    | none => .error .unrenderableCriteria
    | some slots =>
      let targetType := (target.bind (Jv.get "type")).bind Jv.asStr
      let label := (target.bind (Jv.get "label")).bind Jv.labelText
      if targetType.bind MacjevKind.parse ≠ some qtype ∨
          ¬ (label.any fun label => slots.any fun slot => slot.id = label) then
        .error .labelOutsideOptions
      else
        let instructions := ((question.get "instructions").bind Jv.asStr).map pyStrip
        if instructions.getD "" = "" then .error .emptyInstructions
        else
          let label := label.getD ""
          let segments := renderSegments qtype (instructions.getD "") slots state label
          .ok {
            id := recordId ++ "::" ++ name, question := name, qtype, label
            nOptions := slots.length, segments
            renderChars := (segments.map fun segment => segment.text.length).sum }

/-- The questions of a record with their targets, in document order. -/
def renderQuestions (record : Jv) (state : String) :
    List (String × Except MacjevSkip MacjevRow) :=
  let recordId := ((record.get "record_id").bind Jv.labelText).getD ""
  match (record.get "request").bind (Jv.get "questions") with
  | some (.obj questions) =>
    questions.map fun e =>
      (e.1, renderQuestion recordId e.1 e.2 ((record.get "target").bind (Jv.get e.1)) state)
  | _ => []

def skipOf {α : Type} : Except MacjevSkip α → Option MacjevSkip
  | .error skip => some skip
  | .ok _ => none

def renderObject [RustStd] [LongIntegers] (fields : List (String × Json)) (maxStateChars : Nat) :
    MacjevOutcome :=
  let record := Jv.ofJson (.obj fields)
  let source := ((record.get "source").bind Jv.asStr).getD ""
  let state := stateText record
  if "suite".toList.isPrefixOf source.toList then .suiteRow
  else if state = "" then .emptyState
  else if maxStateChars < state.length then .stateOverBudget state.length
  else
    let questions := renderQuestions record state
    .rendered {
      state
      rows := questions.filterMap fun e => e.2.toOption
      skips := questions.filterMap fun e => (skipOf e.2).map fun skip => (e.1, skip) }

/-- The outcome for one record line, which stands for a document when it parses. -/
def renderRecord [RustStd] [LongIntegers] (line : Except String Json) (maxStateChars : Nat) :
    Except MacjevError MacjevOutcome :=
  match line with
  | .ok (.obj fields) => .ok (renderObject fields maxStateChars)
  | _ => .error (.invalidRecord "record line")

end Macjev

end OpenCodifier
