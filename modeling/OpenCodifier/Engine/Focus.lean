import Mathlib.Data.List.Infix
import Mathlib.Data.List.Sort
import OpenCodifier.Core.Response
import OpenCodifier.Core.Question
import OpenCodifier.Engine.Lexical
import OpenCodifier.Engine.Rules
set_option autoImplicit false

namespace OpenCodifier

structure FocusPolicy where
  budgetTokens : Nat
  deriving DecidableEq

/-- Bytes over four, rounded up. -/
def estimateTokens (text : String) : Nat := (text.utf8ByteSize + 3) / 4

structure FocusSummary where
  decided : Nat := 0
  engaged : Nat := 0
  escalated : Nat := 0
  deriving DecidableEq

namespace FocusSummary

def record (s : FocusSummary) (extracted escalated : Bool) : FocusSummary where
  decided := s.decided + 1
  engaged := if extracted then s.engaged + 1 else s.engaged
  escalated := if escalated then s.escalated + 1 else s.escalated

def add (s t : FocusSummary) : FocusSummary :=
  ⟨s.decided + t.decided, s.engaged + t.engaged, s.escalated + t.escalated⟩

end FocusSummary

/-- The state to decide on; an extracted view keeps the facts and shrinks the
text. -/
structure FocusView where
  state : State
  keptSentences : Nat
  totalSentences : Nat
  estimatedTokens : Nat
  extracted : Bool

namespace Focus

variable [RustStd]

structure Sentence where
  position : Nat
  text : String
  tokens : Nat
  deriving DecidableEq

def asciiWhitespace (c : Char) : Bool :=
  c = ' ' || c = '\t' || c = '\n' || c = '\r' || c = '\x0c'

def terminal (c : Char) : Bool := c = '.' || c = '!' || c = '?'

/-- Whether a sentence ends after `c`, given what follows it. -/
def boundary (c : Char) (rest : List Char) : Bool :=
  c = '\n' || (terminal c && (rest.head?.all asciiWhitespace))

/-- The pieces of a text between boundaries; delimiters stay attached. -/
def pieces (current : List Char) : List Char → List (List Char)
  | [] => if current = [] then [] else [current]
  | c :: rest =>
    if boundary c rest then (current ++ [c]) :: pieces [] rest
    else pieces (current ++ [c]) rest

def sentences (text : String) : List Sentence :=
  ((pieces [] text.toList).map String.ofList).zipIdx.filterMap fun piece =>
    if Condition.blank piece.1 then none
    else some ⟨piece.2, piece.1, estimateTokens piece.1⟩

def queryFor : DecisionQuestion → String
  | .choice q => q.candidates.foldl (fun query c => query ++ " " ++ c.description) q.text
  | q => q.text

def mentionsCandidate (sentence : String) : DecisionQuestion → Bool
  | .choice q => q.candidates.any fun c => c.id.text.toList <:+: sentence.toList
  | _ => false

def rankOrder (left right : Sentence × ℚ) : Prop := right.2 ≤ left.2

instance : DecidableRel rankOrder := fun _ _ => inferInstanceAs (Decidable (_ ≤ _))

def positionOrder (left right : Sentence) : Prop := left.position ≤ right.position

instance : DecidableRel positionOrder := fun _ _ => inferInstanceAs (Decidable (_ ≤ _))

/-- Take sentences while they fit the budget; the first is always taken. -/
def takeBudget (budget used : Nat) (kept : List Sentence) : List Sentence → List Sentence × Nat
  | [] => (kept, used)
  | s :: rest =>
    if kept ≠ [] ∧ budget < used + s.tokens then (kept, used)
    else takeBudget budget (used + s.tokens) (kept ++ [s]) rest

def identityView (state : State) : FocusView :=
  ⟨state, 0, 0, estimateTokens state.text, false⟩

def focus (state : State) (question : DecisionQuestion) (policy : FocusPolicy) : FocusView :=
  if policy.budgetTokens = 0 ∨ estimateTokens state.text ≤ policy.budgetTokens then
    identityView state
  else
    let parts := sentences state.text
    let scores := (Lexical.Bm25Index.new (parts.map Sentence.text)).scoreAll (queryFor question)
    let ranked := ((parts.zip scores).filter fun e =>
      0 < e.2 || mentionsCandidate e.1.text question).insertionSort rankOrder
    if ranked = [] then identityView state
    else
      let taken := takeBudget policy.budgetTokens 0 [] (ranked.map Prod.fst)
      let kept := taken.1.insertionSort positionOrder
      let focused := String.join (kept.map Sentence.text)
      if estimateTokens state.text ≤ estimateTokens focused then identityView state
      else
        { state := { State.fromText focused with facts := state.facts }
          keptSentences := kept.length
          totalSentences := parts.length
          estimatedTokens := taken.2
          extracted := true }

end Focus

end OpenCodifier
