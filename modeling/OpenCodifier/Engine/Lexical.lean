import Mathlib.Algebra.BigOperators.Group.List.Basic
import Mathlib.Algebra.Order.Field.Rat
import Mathlib.Data.String.Basic
import OpenCodifier.Lib.OrdMap
import OpenCodifier.Core.Error
set_option autoImplicit false

namespace OpenCodifier.Lexical

def countTerms (counts : OrdMap String Nat) (tokens : List String) : OrdMap String Nat :=
  tokens.foldl (fun m t => m.insert t ((m.get? t).getD 0 + 1)) counts

variable [RustStd]

def k1 : ℚ := 6 / 5

def b : ℚ := 3 / 4

def maxTokenLen : Nat := 32

def negators : List String := ["not", "no", "never", "without", "cannot", "neither", "nor"]

def stopWords : List String :=
  ["a", "an", "the", "and", "or", "but", "if", "then", "else", "when", "of", "to", "in", "on",
    "for", "with", "is", "are", "was", "were", "be", "been", "this", "that", "these", "those",
    "it", "its", "as", "at", "by", "from", "into", "do", "does", "did", "which", "what", "how",
    "should"]

def isStopWord (token : String) : Bool := stopWords.contains token

def isNegator (token : String) : Bool := negators.contains token

def rawTokens (text : String) : List String :=
  (text.toList.splitOnP fun c => !RustStd.isAlphanumeric c).map String.ofList

def keepToken (token : String) : Bool :=
  !(token = "" || decide (token.utf8ByteSize > maxTokenLen) || isStopWord token)

def tokenize (text : String) : List String :=
  ((rawTokens text).map RustStd.toLowercase).filter keepToken

def negationPolarity (text : String) : ℚ :=
  if ((tokenize text).filter isNegator).length % 2 = 0 then 1 else -1

structure Bm25Index where
  frequencies : List (OrdMap String Nat)
  lengths : List ℚ
  averageLength : ℚ
  documentFrequency : OrdMap String Nat
  deriving DecidableEq

namespace Bm25Index

def new (documents : List String) : Bm25Index :=
  let frequencies := documents.map fun d => countTerms OrdMap.empty (tokenize d)
  let lengths : List ℚ := frequencies.map fun f => (f.values.sum : ℚ)
  { frequencies
    lengths
    averageLength := if frequencies = [] then 0 else lengths.sum / frequencies.length
    documentFrequency := frequencies.foldl (fun m f => countTerms m f.keys) OrdMap.empty }

def len (index : Bm25Index) : Nat := index.frequencies.length

def termCount (index : Bm25Index) (term : String) : Nat :=
  (index.documentFrequency.get? term).getD 0

def termWeight (index : Bm25Index) (term : String) : ℚ :=
  let total : ℚ := index.frequencies.length
  let seen : ℚ := index.termCount term
  RustStd.ln (1 + (total - seen + 1 / 2) / (seen + 1 / 2))

def saturatedFrequency (index : Bm25Index) (frequency : Nat) (length : ℚ) : ℚ :=
  let tf : ℚ := frequency
  if index.averageLength ≤ 0 then tf * (k1 + 1) / (tf + k1)
  else
    let normalization := k1 * (1 - b + b * length / index.averageLength)
    tf * (k1 + 1) / (tf + normalization)

def termScore (index : Bm25Index) (document : OrdMap String Nat) (length : ℚ)
    (entry : String × Nat) : ℚ :=
  let frequency := (document.get? entry.1).getD 0
  if frequency = 0 then 0
  else index.termWeight entry.1 * index.saturatedFrequency frequency length * entry.2

def scoreTerms (index : Bm25Index) (terms : OrdMap String Nat) (position : Nat) : ℚ :=
  match index.frequencies[position]?, index.lengths[position]? with
  | some document, some length =>
    (terms.entries.map (index.termScore document length)).sum
  | _, _ => 0

end Bm25Index

def queryTerms (query : String) : OrdMap String Nat := countTerms OrdMap.empty (tokenize query)

namespace Bm25Index

def score (index : Bm25Index) (query : String) (position : Nat) : ℚ :=
  index.scoreTerms (queryTerms query) position

def scoreAll (index : Bm25Index) (query : String) : List ℚ :=
  (List.range index.frequencies.length).map (index.scoreTerms (queryTerms query))

def coverage (index : Bm25Index) (position : Nat) (query : String) : ℚ :=
  let terms := queryTerms query
  match index.frequencies[position]? with
  | none => 0
  | some document =>
    if terms.keys = [] then 0
    else ((terms.keys.filter document.contains).length : ℚ) / terms.keys.length

end Bm25Index

/-- Softmax in input order, uniform when there is no usable mass. -/
def softmax (scores : List ℚ) : List ℚ :=
  match scores with
  | [] => []
  | first :: rest =>
    let uniform := scores.map fun _ => 1 / (scores.length : ℚ)
    let top := rest.foldl max first
    let exponentials := scores.map fun s => RustStd.exp (s - top)
    if exponentials.sum ≤ 0 then uniform
    else exponentials.map fun e => e / exponentials.sum

/-- The double of 4.595_119_850_134_59, a little below the logarithm of 99. -/
def lexicalLogOddsCap : ℚ := 5173645011197227 / 1125899906842624

def boundLexicalSpread (scores : List ℚ) : List ℚ :=
  match scores with
  | [] => []
  | first :: rest =>
    let top := rest.foldl max first
    if top ≤ lexicalLogOddsCap then scores
    else scores.map fun s => lexicalLogOddsCap - min (top - s) lexicalLogOddsCap

theorem Bm25Index.len_new (documents : List String) :
    (Bm25Index.new documents).len = documents.length := by
  simp [Bm25Index.new, Bm25Index.len]

theorem Bm25Index.scoreAll_length (index : Bm25Index) (query : String) :
    (index.scoreAll query).length = index.len := by
  simp [Bm25Index.scoreAll, Bm25Index.len]

end OpenCodifier.Lexical
