import Mathlib.Algebra.GroupWithZero.Nat
import OpenCodifier.Lib.JsonStrings
import OpenCodifier.Lib.Strip
import OpenCodifier.Lib.Json
set_option autoImplicit false

namespace OpenCodifier

open Json

/-- What the prep takes from Python: `repr` of a list or a dict and the text of a float. -/
class PythonTexts where
  repr : Json → String
  float : ℚ → String

namespace DecisionSftPrep

-- An exception of the Python code is `none`.

section Python

/-- `str.isspace` of one character. -/
def isSpace (c : Char) : Bool :=
  (9 ≤ c.toNat && c.toNat ≤ 13) || (28 ≤ c.toNat && c.toNat ≤ 32) || c.toNat = 0x85 ||
    c.toNat = 0xA0 || c.toNat = 0x1680 || (0x2000 ≤ c.toNat && c.toNat ≤ 0x200A) ||
    c.toNat = 0x2028 || c.toNat = 0x2029 || c.toNat = 0x202F || c.toNat = 0x205F ||
    c.toNat = 0x3000

def strip (text : String) : String := String.ofList (Strip.strip isSpace text.toList)

def rstrip (text : String) : String := String.ofList (Strip.rstrip isSpace text.toList)

/-- Assignment to a key: in place when the dict has it, at the end otherwise. -/
def setItem {α : Type} (d : List (String × α)) (key : String) (x : α) : List (String × α) :=
  if key ∈ d.map Prod.fst then d.map fun e => if e.1 = key then (key, x) else e
  else d ++ [(key, x)]

def dict {α : Type} (members : List (String × α)) : List (String × α) :=
  members.foldl (fun d e => setItem d e.1 e.2) []

def truthy : Json → Bool
  | .null => false
  | .bool value => value
  | .num (.int value) => value != 0
  | .num (.float value) => value != 0
  | .str value => value != ""
  | .arr items => !items.isEmpty
  | .obj members => !members.isEmpty

/-- `x or {}` where a dict is needed next. -/
def orDict : Option Json → Option (List (String × Json))
  | none => some []
  | some j =>
    if truthy j then
      match j with
      | .obj members => some (dict members)
      | _ => none
    else some []

variable [PythonTexts]

/-- `str(x)`. -/
def str : Json → String
  | .null => "None"
  | .bool value => if value then "True" else "False"
  | .num (.int value) => toString value
  | .num (.float value) => PythonTexts.float value
  | .str value => value
  | j => PythonTexts.repr j

/-- `str(x or "")`. -/
def orText : Option Json → String
  | some j => if truthy j then str j else ""
  | none => ""

def escape (c : Char) : List Char :=
  if c = JsonStrings.backslash then [JsonStrings.backslash, JsonStrings.backslash]
  else if c = JsonStrings.quote then [JsonStrings.backslash, JsonStrings.quote]
  else if c.toNat = 8 then [JsonStrings.backslash, 'b']
  else if c.toNat = 12 then [JsonStrings.backslash, 'f']
  else if c.toNat = 10 then [JsonStrings.backslash, 'n']
  else if c.toNat = 13 then [JsonStrings.backslash, 'r']
  else if c.toNat = 9 then [JsonStrings.backslash, 't']
  else if c.toNat < 32 then
    JsonStrings.backslash :: 'u' :: '0' :: '0' :: [JsonStrings.hexDigit (c.toNat / 16),
      JsonStrings.hexDigit (c.toNat % 16)]
  else [c]

def dumpsStr (text : String) : String :=
  String.ofList (JsonStrings.quote :: (text.toList.flatMap escape ++ [JsonStrings.quote]))

mutual

/-- `json.dumps(value, ensure_ascii=False)`. -/
def dumps : Json → String
  | .null => "null"
  | .bool value => if value then "true" else "false"
  | .num (.int value) => toString value
  | .num (.float value) => PythonTexts.float value
  | .str text => dumpsStr text
  | .arr items => "[" ++ ", ".intercalate (dumpsItems items) ++ "]"
  | .obj members =>
    "\x7b" ++ ", ".intercalate ((dumpsMembers members []).map fun e => dumpsStr e.1 ++ ": " ++ e.2) ++
      "\x7d"

def dumpsItems : List Json → List String
  | [] => []
  | j :: rest => dumps j :: dumpsItems rest

def dumpsMembers : List (String × Json) → List (String × String) → List (String × String)
  | [], d => d
  | (key, j) :: rest, d => dumpsMembers rest (setItem d key (dumps j))

end

end Python

variable [PythonTexts]

/-- None when the request is no dict. -/
def stateText (record : List (String × Json)) : Option String := do
  let request ← orDict (lookup record "request")
  match lookup request "state" with
  | some (.str text) => some (strip text)
  | some (.obj members) =>
    let state := dict members
    match lookup state "text" with
    | some (.str text) =>
      if strip text ≠ "" then some (strip text)
      else if state = [] then some "" else some (dumps (.obj members))
    | _ => if state = [] then some "" else some (dumps (.obj members))
  | _ => some ""

omit [PythonTexts] in
/-- The sides of a verdict; criteria that are no dict have none. -/
def sidesOf : Option Json → List (String × Json)
  | some (.obj members) => dict members
  | _ => []

def optionsFor (question : List (String × Json)) : Option (List String) :=
  let criteria := lookup question "criteria"
  match lookup question "type" with
  | some (.str qtype) =>
    if qtype = "choice" then
      match criteria with
      | some (.obj members) =>
        if (dict members).length < 2 then none
        else some ((dict members).map fun e => e.1 ++ ": " ++ strip (str e.2))
      | _ => none
    else if qtype = "noul" then
      let held := strip (orText (lookup (sidesOf criteria) "true"))
      let notHeld := strip (orText (lookup (sidesOf criteria) "false"))
      some [rstrip ("false: " ++ notHeld), rstrip ("true: " ++ held)]
    else if qtype = "score" then
      match criteria with
      | some (.arr levels) =>
        if levels.length < 2 then none
        else some (levels.zipIdx.map fun e =>
          "level " ++ toString e.2 ++ ": " ++ strip (str e.1))
      | _ => none
    else none
  | _ => none

omit [PythonTexts] in
def optionIds (question : List (String × Json)) : List String :=
  match lookup question "type", lookup question "criteria" with
  | some (.str "choice"), some (.obj members) => (dict members).map Prod.fst
  | some (.str "noul"), _ => ["false", "true"]
  | _, some (.arr levels) => (List.range levels.length).map toString
  | _, _ => []

def renderHeader (qtype instructions : String) (options : List String) (state : String) : String :=
  let opts := "\n".intercalate (options.map fun o => "- " ++ o)
  "State:\n" ++ state ++ "\n\nQuestion [" ++ qtype ++ "]: " ++ instructions ++ "\nOptions:\n" ++
    opts ++ "\nJudge each option:\n"

/-- Each option up to its arrow, then its verdict; the yes slot is found by position. -/
def segmentsFor (ids options : List String) (label : String) : List (String × Nat) :=
  let yesAt := ids.findIdx? fun id => id = label
  options.zipIdx.flatMap (fun e =>
    [((if e.2 = 0 then "" else "\n") ++ e.1 ++ " ->", 0),
      (if yesAt = some e.2 then " yes" else " no", 1)]) ++ [("\n", 0)]

inductive Bucket where
  | unrenderable
  | labelOutsideOptions
  | emptyInstructions
  deriving DecidableEq

structure Row where
  id : String
  recordId : String
  question : String
  qtype : String
  label : String
  nOptions : Nat
  source : String
  segments : List (String × Nat)
  renderChars : Nat

inductive Outcome where
  | suiteRow
  | emptyState
  | stateOverBudget (stateChars : Nat)
  | rendered (state : String) (questions : List (String × Except Bucket Row))

/-- One turn of the loop over the questions of a record. -/
def questionRow (record : List (String × Json)) (state : String) (e : String × Json) :
    Option (String × Except Bucket Row) :=
  match e.2 with
  | .obj members =>
    let question := dict members
    match optionsFor question with
    | none => some (e.1, .error .unrenderable)
    | some options => do
      let ids := optionIds question
      let targets ← orDict (lookup record "target")
      let target ← orDict (lookup targets e.1)
      let label := orText (lookup target "label")
      let qtype := ((lookup question "type").bind asStr).getD ""
      if (lookup target "type").bind asStr ≠ some qtype ∨ label ∉ ids then
        some (e.1, .error .labelOutsideOptions)
      else
        let instructions := strip (orText (lookup question "instructions"))
        if instructions = "" then some (e.1, .error .emptyInstructions)
        else
          let recordId := orText (lookup record "record_id")
          let segments := (renderHeader qtype instructions options state, 0) ::
            segmentsFor ids options label
          some (e.1, .ok {
            id := recordId ++ "::" ++ e.1, recordId, question := e.1, qtype, label
            nOptions := options.length, source := orText (lookup record "source"), segments
            renderChars := (segments.map fun segment => segment.1.length).sum })
  | _ => none

def prepRecord (members : List (String × Json)) (maxStateChars : Nat) : Option Outcome :=
  let record := dict members
  let source := orText (lookup record "source")
  if "suite".toList.isPrefixOf source.toList then some .suiteRow
  else do
    let state ← stateText record
    if state = "" then some .emptyState
    else if maxStateChars < state.length then some (.stateOverBudget state.length)
    else do
      let request ← orDict (lookup record "request")
      let questions ← orDict (lookup request "questions")
      let rows ← questions.mapM (questionRow record state)
      some (.rendered state rows)

end DecisionSftPrep

end OpenCodifier
