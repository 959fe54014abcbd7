import Mathlib.Data.List.Nodup
import Mathlib.Algebra.Order.Floor.Defs
import Mathlib.Data.Rat.Floor
import OpenCodifier.Core.Ids
import OpenCodifier.Lib.Result
set_option autoImplicit false

namespace OpenCodifier

def firstRepeat {α : Type} [DecidableEq α] (seen : List α) : List α → Option α
  | [] => none
  | a :: rest => if a ∈ seen then some a else firstRepeat (a :: seen) rest

theorem firstRepeat_none {α : Type} [DecidableEq α] (seen l : List α) :
    firstRepeat seen l = none ↔ l.Nodup ∧ ∀ a ∈ l, a ∉ seen := by
  induction l generalizing seen with
  | nil => simp [firstRepeat]
  | cons a l ih =>
    simp only [firstRepeat]
    split
    · rename_i h
      simp [h]
    · rename_i h
      rw [ih]
      simp only [List.mem_cons, List.nodup_cons, not_or]
      constructor
      · rintro ⟨hn, ha⟩
        refine ⟨⟨fun hm => (ha a hm).1 rfl, hn⟩, fun b hb => ?_⟩
        rcases hb with rfl | hb
        · exact h
        · exact (ha b hb).2
      · rintro ⟨⟨hm, hn⟩, ha⟩
        exact ⟨hn, fun b hb => ⟨fun he => hm (he ▸ hb), ha b (Or.inr hb)⟩⟩

structure Candidate where
  id : CandidateId
  description : String
  deriving DecidableEq

def Candidate.new (id description : String) : CoreResult Candidate := do
  let id ← Ident.new id
  pure ⟨id, description⟩

structure ChoiceQuestion where
  id : QuestionId
  text : String
  candidates : List Candidate
  text_ne : text ≠ ""
  candidates_ne : candidates ≠ []
  unique : (candidates.map Candidate.id).Nodup
  deriving DecidableEq

def ChoiceQuestion.new (id text : String) (candidates : List Candidate) :
    CoreResult ChoiceQuestion := do
  let id ← Ident.new id
  if ht : text = "" then .error (.emptyField "text")
  else if hc : candidates = [] then .error (.emptyCandidates id.text)
  else match hu : firstRepeat [] (candidates.map Candidate.id) with
    | some repeated => .error (.duplicateCandidate repeated.text)
    | none => .ok ⟨id, text, candidates, ht, hc, ((firstRepeat_none _ _).mp hu).1⟩

theorem ChoiceQuestion.new_ok {id text : String} {candidates : List Candidate}
    {q : ChoiceQuestion} (h : ChoiceQuestion.new id text candidates = .ok q) :
    q.id.text = id ∧ q.text = text ∧ q.candidates = candidates := by
  unfold ChoiceQuestion.new at h
  cases hi : (Ident.new id : CoreResult QuestionId) with
  | error e =>
    rw [hi] at h
    cases h
  | ok qid =>
    rw [hi] at h
    simp only [bind, Except.bind] at h
    split at h
    · cases h
    · split at h
      · cases h
      · split at h
        · cases h
        · cases h
          exact ⟨Ident.new_ok hi, rfl, rfl⟩

theorem ChoiceQuestion.new_self (q : ChoiceQuestion) :
    ChoiceQuestion.new q.id.text q.text q.candidates = .ok q := by
  have hfirst := (firstRepeat_none [] (q.candidates.map Candidate.id)).mpr ⟨q.unique, by simp⟩
  rw [ChoiceQuestion.new, Ident.new_text]
  simp only [bind, Except.bind]
  rw [dif_neg q.text_ne, dif_neg q.candidates_ne]
  split
  · rename_i h
    rw [hfirst] at h
    cases h
  · rfl

theorem ChoiceQuestion.unique_texts (q : ChoiceQuestion) :
    (q.candidates.map fun c => c.id.text).Nodup := by
  have h := q.unique.map Ident.text_injective
  rwa [List.map_map] at h

structure BooleanQuestion where
  id : QuestionId
  text : String
  text_ne : text ≠ ""
  deriving DecidableEq

def BooleanQuestion.new (id text : String) : CoreResult BooleanQuestion :=
  if ht : text = "" then .error (.emptyField "text")
  else do
    let id ← Ident.new id
    pure ⟨id, text, ht⟩

theorem BooleanQuestion.new_ok {id text : String} {q : BooleanQuestion}
    (h : BooleanQuestion.new id text = .ok q) : q.id.text = id ∧ q.text = text := by
  unfold BooleanQuestion.new at h
  split at h
  · cases h
  · cases hi : (Ident.new id : CoreResult QuestionId) with
    | error e =>
      rw [hi] at h
      cases h
    | ok qid =>
      rw [hi] at h
      cases h
      exact ⟨Ident.new_ok hi, rfl⟩

structure ScoreLevel where
  label : String
  label_ne : label ≠ ""
  deriving DecidableEq

def ScoreLevel.new (label : String) : CoreResult ScoreLevel :=
  if h : label = "" then .error (.emptyField "label") else .ok ⟨label, h⟩

theorem ScoreLevel.new_ok {label : String} {level : ScoreLevel}
    (h : ScoreLevel.new label = .ok level) : level.label = label := by
  unfold ScoreLevel.new at h
  split at h
  · cases h
  · cases h
    rfl

structure ScoreQuestion where
  id : QuestionId
  text : String
  levels : List ScoreLevel
  text_ne : text ≠ ""
  two_levels : 2 ≤ levels.length
  unique : (levels.map ScoreLevel.label).Nodup
  deriving DecidableEq

namespace ScoreQuestion

def new (id text : String) (levels : List ScoreLevel) : CoreResult ScoreQuestion := do
  let id ← Ident.new id
  if ht : text = "" then .error (.emptyField "text")
  else if hl : levels.length < 2 then .error (.tooFewLevels id.text levels.length)
  else match hu : firstRepeat [] (levels.map ScoreLevel.label) with
    | some repeated => .error (.duplicateLevel repeated)
    | none => .ok ⟨id, text, levels, ht, by omega, ((firstRepeat_none _ _).mp hu).1⟩

theorem new_text {id text : String} {levels : List ScoreLevel} {q : ScoreQuestion}
    (h : ScoreQuestion.new id text levels = .ok q) : q.text = text := by
  unfold ScoreQuestion.new at h
  obtain ⟨_, -, h⟩ := Result.bind_ok.mp h
  split at h
  · cases h
  · split at h
    · cases h
    · split at h
      · cases h
      · cases h
        rfl

theorem new_ok {id text : String} {levels : List ScoreLevel} {q : ScoreQuestion}
    (h : ScoreQuestion.new id text levels = .ok q) : q.id.text = id ∧ q.levels = levels := by
  unfold ScoreQuestion.new at h
  cases hi : (Ident.new id : CoreResult QuestionId) with
  | error e =>
    rw [hi] at h
    cases h
  | ok qid =>
    rw [hi] at h
    simp only [bind, Except.bind] at h
    split at h
    · cases h
    · split at h
      · cases h
      · split at h
        · cases h
        · cases h
          exact ⟨Ident.new_ok hi, rfl⟩

def weights (q : ScoreQuestion) : List ℚ := (List.range q.levels.length).map fun i => (i : ℚ)

/-- The index of the level an expected value falls into: floor, clamped. -/
def levelIndex (q : ScoreQuestion) (expected : ℚ) : Nat :=
  if 0 ≤ expected then min ⌊expected⌋.toNat (q.levels.length - 1) else 0

theorem levelIndex_lt (q : ScoreQuestion) (expected : ℚ) :
    q.levelIndex expected < q.levels.length := by
  have h := q.two_levels
  unfold levelIndex
  split <;> omega

def levelFor (q : ScoreQuestion) (expected : ℚ) : ScoreLevel :=
  q.levels.get ⟨q.levelIndex expected, q.levelIndex_lt expected⟩

end ScoreQuestion

inductive DecisionQuestion where
  | choice (question : ChoiceQuestion)
  | boolean (question : BooleanQuestion)
  | score (question : ScoreQuestion)
  deriving DecidableEq

namespace DecisionQuestion

def id : DecisionQuestion → QuestionId
  | choice q => q.id
  | boolean q => q.id
  | score q => q.id

def text : DecisionQuestion → String
  | choice q => q.text
  | boolean q => q.text
  | score q => q.text

end DecisionQuestion

end OpenCodifier
