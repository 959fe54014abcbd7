import Mathlib.Data.List.DropRight
import Mathlib.Data.Prod.Lex
import Mathlib.Order.Nat
import OpenCodifier.Core.Escalation
set_option autoImplicit false

namespace OpenCodifier

section Text

def toAsciiLowercase (word : String) : String := String.ofList (word.toList.map Char.toLower)

/-- `u32::from_str`: a sign is allowed, an empty or overlong number is not. -/
def parseU32 (chars : List Char) : Option Nat :=
  let digits := if chars.head? = some '+' then chars.tail else chars
  if digits = [] || !digits.all Char.isDigit then none
  else
    let value := Nat.ofDigitChars 10 digits 0
    if value < 2 ^ 32 then some value else none

def splitOnce (delimiter : Char) : List Char → Option (List Char × List Char)
  | [] => none
  | c :: rest =>
    if c = delimiter then some ([], rest)
    else (splitOnce delimiter rest).map fun parts => (c :: parts.1, parts.2)

end Text

inductive Health where
  | healthy
  | degraded
  | down
  deriving DecidableEq

def Health.parse (word : String) : Option Health :=
  match toAsciiLowercase word with
  | "healthy" | "ok" => some .healthy
  | "degraded" => some .degraded
  | "down" | "failing" | "offline" => some .down
  | _ => none

structure Timestamp where
  year : Nat
  month : Nat
  day : Nat
  hour : Nat
  minute : Nat
  deriving DecidableEq

namespace Timestamp

def isLeapYear (year : Nat) : Bool := year % 4 = 0 && (year % 100 ≠ 0 || year % 400 = 0)

def daysInMonth (year month : Nat) : Nat :=
  if month ∈ [1, 3, 5, 7, 8, 10, 12] then 31
  else if month ∈ [4, 6, 9, 11] then 30
  else if month = 2 then if isLeapYear year then 29 else 28
  else 0

def parseDate (date : List Char) : Option (Nat × Nat × Nat) :=
  match date.splitOnP fun c => c = '-' with
  | [y, m, d] => do
    let year ← parseU32 y
    let month ← parseU32 m
    let day ← parseU32 d
    if month < 1 || 12 < month || day < 1 || daysInMonth year month < day then none
    else some (year, month, day)
  | _ => none

def parseClock (clock : List Char) : Option (Nat × Nat) :=
  match clock.splitOnP fun c => c = ':' with
  | [h, m] => do
    let hour ← parseU32 h
    let minute ← parseU32 m
    if 23 < hour || 59 < minute then none else some (hour, minute)
  | _ => none

def parts (chars : List Char) : List Char × Option (List Char) :=
  match splitOnce 'T' chars with
  | some (date, clock) => (date, some clock)
  | none => (chars, none)

def parse (text : String) : Option Timestamp :=
  let (date, clock) := parts text.toList
  if utf8Len date ≠ 10 || clock.any fun c => utf8Len c ≠ 5 then none
  else do
    let (year, month, day) ← parseDate date
    let (hour, minute) ← match clock with
      | none => some (0, 0)
      | some clock => parseClock clock
    some ⟨year, month, day, hour, minute⟩

def fields (t : Timestamp) : ℕ ×ₗ ℕ ×ₗ ℕ ×ₗ ℕ ×ₗ ℕ :=
  toLex (t.year, toLex (t.month, toLex (t.day, toLex (t.hour, t.minute))))

theorem fields_injective : Function.Injective fields := by
  intro a b h
  cases a
  cases b
  simpa [fields] using h

instance : LinearOrder Timestamp := LinearOrder.lift' fields fields_injective

end Timestamp

inductive RelationalFact where
  | dependsOn (dependent dependency : String)
  | health (entity : String) (status : Health)
  | healthList (entity : String) (statuses : List Health)
  | restoresAfter (later earlier : String)
  | deadline (entity : String) (time : Timestamp)
  | event (entity : String) (time : Timestamp)
  deriving DecidableEq

namespace Facts

def maxNameLen : Nat := 64

def maxPhraseLen : Nat := 32

def nameChar (c : Char) : Bool := c.isAlphanum || c = '-' || c = '_'

/-- A date is name-shaped but no name. -/
def isName (word : String) : Bool :=
  word ≠ "" && word.utf8ByteSize ≤ maxNameLen && word.toList.all nameChar &&
    !(word.toList.contains '-' && (Timestamp.parse word).isSome)

def isPhraseWord (word : String) : Bool :=
  word ≠ "" && word.utf8ByteSize ≤ maxPhraseLen && word.toList.all nameChar

def trimCommas (word : List Char) : List Char :=
  (word.dropWhile fun c => c = ',').rdropWhile fun c => c = ','

def normalize [RustStd] (sentence : List Char) : List String :=
  (((sentence.splitOnP RustStd.isWhitespace).map trimCommas).filter fun word => word ≠ []).map
    String.ofList

/-- One tokenized sentence; the first form whose structural words match decides. -/
def parseSentence (tokens : List String) : Option RelationalFact :=
  let lowered := tokens.map toAsciiLowercase
  let len := tokens.length
  let token := fun i => tokens.getD i ""
  let low := fun i => lowered.getD i ""
  if len = 4 && low 1 = "depends" && low 2 = "on" then
    if isName (token 0) && isName (token 3) then some (.dependsOn (token 0) (token 3)) else none
  else if len = 3 && low 1 = "is" then do
    let status ← Health.parse (low 2)
    if isName (token 0) then some (.health (token 0) status) else none
  else if len = 7 && (lowered.drop 1).take 5 = ["comes", "back", "online", "only", "after"] then
    if isName (token 0) && isName (token 6) then some (.restoresAfter (token 0) (token 6)) else none
  else if 2 ≤ len && (token 0).toList.getLast? = some ':' then do
    let entity := String.ofList ((token 0).toList.rdropWhile fun c => c = ':')
    let statuses ← (lowered.drop 1).mapM Health.parse
    if isName entity then some (.healthList entity statuses) else none
  else if 4 ≤ len && len ≤ 6 && (low (len - 2) = "by" || low (len - 2) = "on") then do
    let time ← Timestamp.parse (token (len - 1))
    let phrase := (tokens.drop 1).take (len - 3)
    if !isName (token 0) || !phrase.all isPhraseWord then none
    else if low (len - 2) = "by" then some (.deadline (token 0) time)
    else some (.event (token 0) time)
  else none

def extract [RustStd] (text : String) : List RelationalFact :=
  (text.toList.splitOnP fun c => c = '.').filterMap fun sentence =>
    parseSentence (normalize sentence)

end Facts

end OpenCodifier
