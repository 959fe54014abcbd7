import OpenCodifier.Engine.Focus
import OpenCodifier.Engine.Sample
import OpenCodifier.Lib.Greedy
set_option autoImplicit false

namespace OpenCodifier.Focus

section Estimates

def padding (text : String) : Nat := (4 - text.utf8ByteSize % 4) % 4

end Estimates

section Views

variable [RustStd] (state : State) (question : DecisionQuestion) (policy : FocusPolicy)

def scored : List (Sentence × ℚ) :=
  (sentences state.text).zip
    ((Lexical.Bm25Index.new ((sentences state.text).map Sentence.text)).scoreAll
      (queryFor question))

def signals (e : Sentence × ℚ) : Bool := 0 < e.2 || mentionsCandidate e.1.text question

def eligible : List (Sentence × ℚ) := (scored state question).filter (signals question)

def kept : List Sentence :=
  (takeBudget policy.budgetTokens 0 []
    (((eligible state question).insertionSort rankOrder).map Prod.fst)).1.insertionSort
      positionOrder

def ahead (a b : Sentence × ℚ) : Prop := b.2 < a.2 ∨ (a.2 = b.2 ∧ a.1.position < b.1.position)

instance : DecidableRel ahead := fun _ _ => inferInstanceAs (Decidable (_ ∨ _))

def tokensOf (e : Sentence × ℚ) : Nat := e.1.tokens

/-- A sentence is within reach when nothing is ahead of it, or when it fits the budget together
with all that is ahead of it. -/
def Reached (e : Sentence × ℚ) : Prop :=
  (∀ t ∈ eligible state question, t = e ∨ ahead e t) ∨
    Greedy.costUpTo tokensOf ahead (eligible state question) e ≤ policy.budgetTokens

instance (e : Sentence × ℚ) : Decidable (Reached state question policy e) :=
  inferInstanceAs (Decidable (_ ∨ _))

def reached : List Sentence :=
  ((eligible state question).filter (Reached state question policy)).map Prod.fst

section Selection

instance : Std.Total rankOrder := ⟨fun a b => le_total b.2 a.2⟩

instance : IsTrans (Sentence × ℚ) rankOrder := ⟨fun _ _ _ hab hbc => le_trans hbc hab⟩

instance : Std.Total positionOrder := ⟨fun a b => le_total a.position b.position⟩

instance : IsTrans Sentence positionOrder := ⟨fun _ _ _ => le_trans⟩

end Selection

section Engaged

def joined : String := String.join ((kept state question policy).map Sentence.text)

def engaged : Bool :=
  policy.budgetTokens ≠ 0 && policy.budgetTokens < estimateTokens state.text &&
    !(eligible state question).isEmpty &&
      estimateTokens (joined state question policy) < estimateTokens state.text

end Engaged

section Law

structure Lawful : Prop where
  facts : (focus state question policy).state.facts = state.facts
  images : (focus state question policy).state.images = state.images
  full : (focus state question policy).extracted = false →
    (focus state question policy).state = state
  subsequence : (focus state question policy).extracted = true →
    (kept state question policy).Sublist (sentences state.text) ∧
      (focus state question policy).state.text =
        String.join ((kept state question policy).map Sentence.text)
  budget : (focus state question policy).extracted = true →
    estimateTokens (focus state question policy).state.text ≤ policy.budgetTokens ∨
      (kept state question policy).length = 1
  tokens : (focus state question policy).estimatedTokens =
    estimateTokens (focus state question policy).state.text
  named : (focus state question policy).extracted = true →
    ∀ dropped ∈ sentences state.text, dropped ∉ kept state question policy →
      mentionsCandidate dropped.text question = true →
        ∀ s ∈ kept state question policy, mentionsCandidate s.text question = true
  whole : (estimateTokens state.text ≤ policy.budgetTokens ∨
      ∀ e ∈ scored state question, signals question e = false) →
    (focus state question policy).state = state

end Law

end Views

section Samples

attribute [local instance] plainStd

/-- A text of two sentences, one of which names a candidate, and a picture. -/
def pictured : State := (State.fromText "db. xx yy zz.").withImage ⟨.png, [1]⟩

end Samples

end OpenCodifier.Focus
