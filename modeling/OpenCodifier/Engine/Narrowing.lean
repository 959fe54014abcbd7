import Mathlib.Data.List.Sort
import OpenCodifier.Lib.Result
import OpenCodifier.Engine.Rules
set_option autoImplicit false

namespace OpenCodifier

structure NarrowingOutcome where
  questionId : QuestionId
  before : Nat
  after : Nat
  removed : List CandidateId
  surviving : List Candidate
  after_eq : after = surviving.length
  deriving DecidableEq

namespace NarrowingOutcome

/-- Exclusions in order, without pinned ids and without repeats. -/
def removedBy (pins : List CandidateId) (removed : List CandidateId) :
    List CandidateId → List CandidateId
  | [] => removed
  | c :: rest =>
    if c ∈ pins ∨ c ∈ removed then removedBy pins removed rest
    else removedBy pins (removed ++ [c]) rest

def apply (question : ChoiceQuestion) (exclusions pins : List CandidateId) :
    NarrowingOutcome :=
  let removed := removedBy pins [] exclusions
  let surviving := question.candidates.filter fun c => c.id ∉ removed
  { questionId := question.id
    before := question.candidates.length
    after := surviving.length
    removed := removed
    surviving := surviving
    after_eq := rfl }

def isStarved (n : NarrowingOutcome) : Bool := n.after = 0

def narrowedQuestion (n : NarrowingOutcome) (question : ChoiceQuestion) :
    Option ChoiceQuestion :=
  (ChoiceQuestion.new question.id.text question.text n.surviving).toOption

theorem mem_removedBy (pins removed exclusions : List CandidateId) (c : CandidateId) :
    c ∈ removedBy pins removed exclusions ↔ c ∈ removed ∨ (c ∈ exclusions ∧ c ∉ pins) := by
  induction exclusions generalizing removed with
  | nil => simp [removedBy]
  | cons d rest ih =>
    simp only [removedBy]
    split
    · rename_i h
      rw [ih]
      simp only [List.mem_cons]
      constructor
      · tauto
      · rintro (hc | ⟨rfl | hc, hp⟩)
        · exact Or.inl hc
        · rcases h with h | h
          · exact absurd h hp
          · exact Or.inl h
        · exact Or.inr ⟨hc, hp⟩
    · rename_i h
      rw [ih]
      simp only [List.mem_append, List.mem_cons, List.not_mem_nil, or_false]
      push Not at h
      constructor
      · rintro ((hc | rfl) | hc)
        · exact Or.inl hc
        · exact Or.inr ⟨Or.inl rfl, h.1⟩
        · exact Or.inr ⟨Or.inr hc.1, hc.2⟩
      · rintro (hc | ⟨rfl | hc, hp⟩)
        · exact Or.inl (Or.inl hc)
        · exact Or.inl (Or.inr rfl)
        · exact Or.inr ⟨hc, hp⟩

theorem apply_surviving (question : ChoiceQuestion) (exclusions pins : List CandidateId) :
    (apply question exclusions pins).surviving =
      question.candidates.filter fun c => !(c.id ∈ exclusions && c.id ∉ pins) := by
  simp only [apply]
  refine List.filter_congr fun c _ => ?_
  simp [mem_removedBy]

theorem narrowedQuestion_some (n : NarrowingOutcome) {question narrowed : ChoiceQuestion}
    (h : n.narrowedQuestion question = some narrowed) :
    narrowed.id = question.id ∧ narrowed.text = question.text ∧
      narrowed.candidates = n.surviving := by
  obtain ⟨hid, htext, hc⟩ := ChoiceQuestion.new_ok (Result.toOption_eq_some.mp h)
  exact ⟨Ident.ext_text hid, htext, hc⟩

end NarrowingOutcome

/-- Best score first; equal scores by ascending candidate id. -/
def scoreOrder (left right : CandidateId × ℚ) : Prop :=
  right.2 < left.2 ∨ (left.2 = right.2 ∧ left.1 ≤ right.1)

instance : DecidableRel scoreOrder := fun _ _ => inferInstanceAs (Decidable (_ ∨ _))

/-- Lexical scores of one question's surviving candidates, with the index they
were read from. -/
structure LexicalScores where
  questionId : QuestionId
  scores : List (CandidateId × ℚ)
  pruned : List CandidateId
  index : Option Lexical.Bm25Index
  deriving DecidableEq

namespace LexicalScores

def score [RustStd] (question : ChoiceQuestion) (candidates : List Candidate)
    (query : String) : LexicalScores :=
  let index := Lexical.Bm25Index.new (candidates.map Candidate.description)
  { questionId := question.id
    scores := ((candidates.map Candidate.id).zip (index.scoreAll query)).insertionSort scoreOrder
    pruned := []
    index := some index }

/-- Drop candidates ranked below `keep`; ties at the cut stay. -/
def prune (s : LexicalScores) (keep : Nat) : LexicalScores :=
  if keep = 0 ∨ s.scores.length ≤ keep then s
  else match s.scores[keep - 1]? with
    | none => s
    | some last =>
      { s with
        scores := s.scores.filter fun e => last.2 ≤ e.2
        pruned := (s.scores.filter fun e => !(last.2 ≤ e.2)).map Prod.fst }

@[simp] theorem prune_index (s : LexicalScores) (keep : Nat) : (s.prune keep).index = s.index := by
  unfold prune
  split
  · rfl
  · split <;> rfl

@[simp] theorem prune_questionId (s : LexicalScores) (keep : Nat) :
    (s.prune keep).questionId = s.questionId := by
  unfold prune
  split
  · rfl
  · split <;> rfl

end LexicalScores

end OpenCodifier
