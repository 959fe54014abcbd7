import Mathlib.Data.Prod.Lex
import Mathlib.Data.List.Sort
import OpenCodifier.Lib.Live
import OpenCodifier.Schema.Error
import OpenCodifier.Model.Error
set_option autoImplicit false

namespace OpenCodifier

open Json

/-- A byte-level encoder: the ids of the symbols and the ranks of the merges. -/
structure BpeTokenizer where
  vocabulary : OrdMap String Int
  ranks : OrdMap (String ×ₗ String) Nat

namespace BpeTokenizer

section Loading

variable [SerdeTexts] [DebugTexts]

def getMember (key : String) : Json → Option Json
  | .obj fields => lookup fields key
  | _ => none

def splitOnce (pair : String) : Option (String × String) :=
  let left := pair.toList.takeWhile (· ≠ ' ')
  match pair.toList.dropWhile (· ≠ ' ') with
  | _ :: right => some (String.ofList left, String.ofList right)
  | [] => none

def mergePair : Json → ModelResult (String × String)
  | .str pair =>
    match splitOnce pair with
    | some (left, right) => .ok (left, right)
    | none => .error (.tokenizer ("merge `" ++ pair ++ "` is not a space-separated pair"))
  | .arr [left, right] =>
    match left.asStr, right.asStr with
    | some left, some right => .ok (left, right)
    | _, _ => .error (.tokenizer "merge pair is not two strings")
  | _ => .error (.tokenizer "merge is not a pair")

/-- A repeated pair gets a new rank, which is the number of pairs so far. -/
def addMerge (ranks : OrdMap (String ×ₗ String) Nat) (merge : Json) :
    ModelResult (OrdMap (String ×ₗ String) Nat) := do
  let (left, right) ← mergePair merge
  .ok (ranks.insert (toLex (left, right)) ranks.size)

def required (reason : String) : Option Json → ModelResult Json
  | some j => .ok j
  | none => .error (.tokenizer reason)

def fromTokenizerJson (parsed : Except String Value) : ModelResult BpeTokenizer :=
  match parsed with
  | .error error => .error (.tokenizer ("not JSON: " ++ error))
  | .ok document => do
    let model ← required "no `model` object" (getMember "model" document.1)
    let vocab ← required "no `model.vocab`" (getMember "vocab" model)
    let vocabulary ← match asMap asI64 vocab with
      | some vocabulary => .ok vocabulary
      | none => .error (.tokenizer ("`model.vocab` is not a token→id map: " ++
          SerdeTexts.refusal "HashMap<String, i64>" vocab))
    let merges ← required "no `model.merges`" (getMember "merges" model)
    let merges ← match merges with
      | .arr merges => .ok merges
      | j => .error (.tokenizer ("`model.merges` is not a list: " ++
          SerdeTexts.refusal "Vec<Value>" j))
    let ranks ← merges.foldlM addMerge OrdMap.empty
    .ok ⟨vocabulary, ranks⟩

end Loading

section Encoding

/-- One byte further: printable bytes stand for themselves, the others for the characters from 256
on. -/
def addByte (acc : List Char × Nat) (byte : Nat) : List Char × Nat :=
  if (33 ≤ byte ∧ byte ≤ 126) ∨ (161 ≤ byte ∧ byte ≤ 172) ∨ (174 ≤ byte ∧ byte ≤ 255) then
    (acc.1 ++ [Char.ofNat byte], acc.2)
  else (acc.1 ++ [Char.ofNat acc.2], acc.2 + 1)

def byteAlphabet : List Char := ((List.range 256).foldl addByte ([], 256)).1

/-- The symbols a text starts as, one for each of its bytes. -/
def symbolsOf (text : String) : List String :=
  text.toUTF8.data.toList.map fun byte => String.singleton (byteAlphabet.getD byte.toNat '\x00')

/-- A rank, the position of the left symbol and its version. -/
abbrev Entry := Nat ×ₗ Nat ×ₗ Nat

/-- The state of the merge loop. Entries leave the queue in ascending order. -/
structure MergeLoop where
  symbols : List String
  alive : List Bool
  versions : List Nat
  queue : List Entry

namespace MergeLoop

def symbol (s : MergeLoop) (i : Nat) : String := s.symbols.getD i ""

def version (s : MergeLoop) (i : Nat) : Nat := s.versions.getD i 0

def push (s : MergeLoop) (entry : Entry) : MergeLoop :=
  { s with queue := s.queue.orderedInsert (· ≤ ·) entry }

/-- The symbols that were not merged into another. -/
def surviving (s : MergeLoop) : List String := (Live.live s.alive).map s.symbol

end MergeLoop

variable [DebugTexts] (t : BpeTokenizer)

def idOf (symbol : String) : ModelResult Int :=
  match t.vocabulary.get? symbol with
  | some id => .ok id
  | none => .error (.tokenizer ("vocabulary has no id for " ++ DebugTexts.str symbol))

def rank (left right : String) : Option Nat := t.ranks.get? (toLex (left, right))

def rankOf (s : MergeLoop) (left right : Nat) : Option Nat := t.rank (s.symbol left) (s.symbol right)

def requeue (s : MergeLoop) (left right : Nat) : MergeLoop :=
  match t.rankOf s left right with
  | some rank => s.push (toLex (rank, toLex (left, s.version left)))
  | none => s

def start (symbols : List String) : MergeLoop :=
  (List.range (symbols.length - 1)).foldl (fun s position => t.requeue s position (position + 1))
    { symbols, alive := symbols.map fun _ => true, versions := symbols.map fun _ => 0, queue := [] }

/-- The neighbour to the right is merged into a position. -/
def applyMerge (s : MergeLoop) (position next : Nat) (joined : String) : MergeLoop :=
  { s with
    symbols := s.symbols.set position joined
    alive := s.alive.set next false
    versions := s.versions.set position (s.version position + 1) }

def requeueAround (s : MergeLoop) (position next : Nat) : MergeLoop :=
  let previous := Live.prevAlive s.alive position
  let s := if previous < position then t.requeue s previous position else s
  let following := Live.nextAlive s.alive (next + 1)
  if following < s.symbols.length then t.requeue s position following else s

def turn (s : MergeLoop) (rank position version : Nat) : ModelResult MergeLoop :=
  if !Live.isAlive s.alive position || s.version position ≠ version then .ok s
  else
    let next := Live.nextAlive s.alive (position + 1)
    if s.symbols.length ≤ next then .ok s
    else if t.rankOf s position next ≠ some rank then .ok s
    else do
      let joined := s.symbol position ++ s.symbol next
      let _ ← t.idOf joined
      .ok (t.requeueAround (applyMerge s position next joined) position next)

def drain : Nat → MergeLoop → ModelResult MergeLoop
  | 0, s => .ok s
  | n + 1, s =>
    match s.queue with
    | [] => .ok s
    | entry :: rest => do
      let s ← t.turn { s with queue := rest } entry.1 entry.2.1 entry.2.2
      drain n s

/-- A symbol is queued once at the start and twice for each merge that it ends. -/
def mergeSymbols (symbols : List String) : ModelResult MergeLoop :=
  t.drain (3 * symbols.length) (t.start symbols)

def encode (text : String) : ModelResult (List Int) := do
  let symbols := symbolsOf text
  if symbols = [] then .ok []
  else
    let s ← t.mergeSymbols symbols
    s.surviving.mapM t.idOf

end Encoding

end BpeTokenizer

end OpenCodifier
