import Mathlib.Data.List.ReduceOption
import Mathlib.Data.List.Sort
import OpenCodifier.Lib.Worklist
import OpenCodifier.Engine.Classifier
import OpenCodifier.Engine.Facts
import OpenCodifier.Engine.Sample
set_option autoImplicit false

namespace OpenCodifier.RelationalSolver

section Operators

def pushUnder {α : Type} (m : OrdMap String (List α)) (key : String) (x : α) :
    OrdMap String (List α) :=
  m.insert key ((m.get? key).getD [] ++ [x])

def only : List String → Option String
  | [single] => some single
  | _ => none

/-- An operator's winner stands only as a candidate. -/
def amongCandidates (winner : Option String) (candidates : List String) : Option String :=
  winner.filter fun w => candidates.contains w

/-- What the root cause operator collects: who needs a component, what it needs, and what is
down. -/
structure DependencyBoard where
  dependentsOf : OrdMap String (List String) := OrdMap.empty
  dependenciesOf : OrdMap String (List String) := OrdMap.empty
  failing : OrdMap String Unit := OrdMap.empty

def DependencyBoard.collect (board : DependencyBoard) : RelationalFact → DependencyBoard
  | .dependsOn dependent dependency =>
    { board with
      dependentsOf := pushUnder board.dependentsOf dependency dependent
      dependenciesOf := pushUnder board.dependenciesOf dependent dependency }
  | .health entity .down => { board with failing := board.failing.insert entity () }
  | _ => board

def dependencyBoard (facts : List RelationalFact) : DependencyBoard :=
  facts.foldl DependencyBoard.collect {}

namespace DependencyBoard

variable (board : DependencyBoard)

/-- The search pops its stack from the end, so the last dependency comes first. -/
def nextOf (node : String) : List String := ((board.dependenciesOf.get? node).getD []).reverse

/-- Pushes that a search can make at most, twice over. -/
def searchFuel : Nat := 2 * (board.dependenciesOf.values.map List.length).sum + 1

def transitiveDependencies (start : String) : List String :=
  Worklist.explore board.nextOf board.searchFuel (board.nextOf start) []

def isRoot (node : String) : Bool :=
  ((board.dependentsOf.get? node).any fun deps => deps ≠ []) &&
    !(board.transitiveDependencies node).any fun dependency =>
      dependency ≠ node && board.failing.contains dependency

def roots : List String := board.failing.keys.filter board.isRoot

end DependencyBoard

/-- The unique failing entity with dependents that no other failing entity leads to. -/
def rootCauseWinner (facts : List RelationalFact) : Option String :=
  let board := dependencyBoard facts
  if board.failing.keys = [] || board.dependentsOf.keys = [] then none else only board.roots

def rootCause (facts : List RelationalFact) (candidates : List String) : Option String :=
  amongCandidates (rootCauseWinner facts) candidates

def addCount (counts : OrdMap String Nat) (entity : String) (n : Nat) : OrdMap String Nat :=
  counts.insert entity ((counts.get? entity).getD 0 + n)

def countHealthy (counts : OrdMap String Nat) : RelationalFact → OrdMap String Nat
  | .health entity .healthy => addCount counts entity 1
  | .healthList entity statuses => addCount counts entity (statuses.count .healthy)
  | _ => counts

def countOrder (a b : String × Nat) : Prop := b.2 < a.2 ∨ (a.2 = b.2 ∧ a.1 ≤ b.1)

instance : DecidableRel countOrder := fun _ _ => inferInstanceAs (Decidable (_ ∨ _))

def healthiestWinner (facts : List RelationalFact) : Option String :=
  match (facts.foldl countHealthy OrdMap.empty).entries.insertionSort countOrder with
  | [] => none
  | best :: others =>
    if best.2 = 0 || others.head?.any fun second => best.2 ≤ second.2 then none else some best.1

def healthiest (facts : List RelationalFact) (candidates : List String) : Option String :=
  amongCandidates (healthiestWinner facts) candidates

def restoreSets (sets : OrdMap String Unit × OrdMap String Unit) :
    RelationalFact → OrdMap String Unit × OrdMap String Unit
  | .restoresAfter later earlier => (sets.1.insert later (), sets.2.insert earlier ())
  | _ => sets

def firstRestoredWinner (facts : List RelationalFact) : Option String :=
  let sets := facts.foldl restoreSets (OrdMap.empty, OrdMap.empty)
  only (sets.2.keys.filter fun entity => !sets.1.contains entity)

def firstRestored (facts : List RelationalFact) (candidates : List String) : Option String :=
  amongCandidates (firstRestoredWinner facts) candidates

def deadlineOf : RelationalFact → Option (String × Timestamp)
  | .deadline entity time => some (entity, time)
  | _ => none

def eventOf : RelationalFact → Option (String × Timestamp)
  | .event entity time => some (entity, time)
  | _ => none

def timesOf (dated : RelationalFact → Option (String × Timestamp)) (facts : List RelationalFact) :
    OrdMap String (List Timestamp) :=
  (facts.filterMap dated).foldl (fun m e => pushUnder m e.1 e.2) OrdMap.empty

def soonerOrder (a b : String × Timestamp) : Prop := a.2 < b.2 ∨ (a.2 = b.2 ∧ a.1 ≤ b.1)

def laterOrder (a b : String × Timestamp) : Prop := b.2 < a.2 ∨ (a.2 = b.2 ∧ a.1 ≤ b.1)

instance : DecidableRel soonerOrder := fun _ _ => inferInstanceAs (Decidable (_ ∨ _))

instance : DecidableRel laterOrder := fun _ _ => inferInstanceAs (Decidable (_ ∨ _))

/-- The head of a ranking, unless the next entry has the same time. -/
def strictHead : List (String × Timestamp) → Option String
  | [] => none
  | best :: others =>
    if others.head?.any fun second => second.2 = best.2 then none else some best.1

def soonestDeadlineWinner (facts : List RelationalFact) : Option String :=
  strictHead (((timesOf deadlineOf facts).entries.filterMap fun e =>
    e.2.min?.map fun time => (e.1, time)).insertionSort soonerOrder)

def soonestDeadline (facts : List RelationalFact) (candidates : List String) : Option String :=
  amongCandidates (soonestDeadlineWinner facts) candidates

def mostRecentEventWinner (facts : List RelationalFact) : Option String :=
  strictHead (((timesOf eventOf facts).entries.filterMap fun e =>
    e.2.max?.map fun time => (e.1, time)).insertionSort laterOrder)

def mostRecentEvent (facts : List RelationalFact) (candidates : List String) : Option String :=
  amongCandidates (mostRecentEventWinner facts) candidates

end Operators

section Solver

variable [RustStd]

def candidateIds (question : ChoiceQuestion) : List String :=
  question.candidates.map fun c => c.id.text

def proven (facts : List RelationalFact) (candidates : List String) : List String :=
  [rootCause facts candidates, healthiest facts candidates, firstRestored facts candidates,
    soonestDeadline facts candidates, mostRecentEvent facts candidates].reduceOption

def unanimous : List String → Option String
  | [] => none
  | first :: rest => if rest.all fun answer => answer = first then some first else none

def prove (question : ChoiceQuestion) (state : State) : Option String :=
  let facts := Facts.extract state.text
  if facts = [] then none else unanimous (proven facts (candidateIds question))

def certainPairs (question : ChoiceQuestion) (answer : String) : List (String × ℚ) :=
  question.candidates.map fun c => (c.id.text, if c.id.text = answer then 1 else 0)

def decide (inner : Classifier) (state : State) : DecisionQuestion → EngineResult Distribution
  | .choice choice =>
    match prove choice state with
    | some answer =>
      match Distribution.fromPairs (certainPairs choice answer) with
      | .ok d => .ok d
      | .error e => .error (.invalidDistribution choice.id.text e.display)
    | none => inner.decide state (.choice choice)
  | question => inner.decide state question

/-- The solver over an inner classifier; it takes the trait's default extended form. -/
def classifier (inner : Classifier) : Classifier :=
  .ofDecide ("relational-v2|" ++ inner.modelId) (decide inner)

end Solver

section Law

def winners (facts : List RelationalFact) : List String :=
  [rootCauseWinner facts, healthiestWinner facts, firstRestoredWinner facts,
    soonestDeadlineWinner facts, mostRecentEventWinner facts].reduceOption

def agreed (facts : List RelationalFact) : Option String := unanimous (winners facts)

/-- The winners disagree, and the candidates hide all of them but one. -/
def SplitVote (facts : List RelationalFact) (candidates : List String) : Prop :=
  agreed facts = none ∧ ∃! winner, winner ∈ winners facts ∧ winner ∈ candidates

theorem proven_eq (facts : List RelationalFact) (candidates : List String) :
    proven facts candidates = (winners facts).filter fun w => candidates.contains w := by
  have hfilter : ∀ l : List (Option String),
      (l.map fun o => amongCandidates o candidates).reduceOption =
        l.reduceOption.filter fun w => candidates.contains w := by
    intro l
    induction l with
    | nil => rfl
    | cons o l ih =>
      cases o with
      | none =>
        rw [List.map_cons, List.reduceOption_cons_of_none, ← ih]
        exact List.reduceOption_cons_of_none _
      | some w =>
        rw [List.map_cons, List.reduceOption_cons_of_some, List.filter_cons, ← ih]
        cases hw : candidates.contains w with
        | true =>
          rw [amongCandidates, Option.filter, hw, if_pos rfl, if_pos rfl,
            List.reduceOption_cons_of_some]
        | false =>
          rw [amongCandidates, Option.filter, hw]
          exact List.reduceOption_cons_of_none _
  exact hfilter [rootCauseWinner facts, healthiestWinner facts, firstRestoredWinner facts,
    soonestDeadlineWinner facts, mostRecentEventWinner facts]

theorem unanimous_eq_some_iff (answers : List String) (answer : String) :
    unanimous answers = some answer ↔ answer ∈ answers ∧ ∀ a ∈ answers, a = answer := by
  cases answers with
  | nil => simp [unanimous]
  | cons first rest =>
    simp only [unanimous, List.mem_cons, forall_eq_or_imp]
    split
    · rename_i h
      simp only [List.all_eq_true, decide_eq_true_eq] at h
      constructor
      · intro he
        cases he
        exact ⟨Or.inl rfl, rfl, h⟩
      · intro hm
        exact congrArg some hm.2.1
    · rename_i h
      constructor
      · intro he
        cases he
      · intro hm
        obtain ⟨-, rfl, hall⟩ := hm
        exact absurd (by simpa using hall) h

theorem unanimous_ne_none_iff (answers : List String) :
    unanimous answers ≠ none ↔ ∃! answer, answer ∈ answers := by
  constructor
  · intro h
    obtain ⟨answer, ha⟩ := Option.ne_none_iff_exists'.mp h
    exact ⟨answer, (unanimous_eq_some_iff _ _).mp ha⟩
  · intro h
    obtain ⟨answer, ha⟩ := h
    rw [(unanimous_eq_some_iff answers answer).mpr ha]
    simp

/-- Dropping votes keeps the result, unless a split vote is left with a single voice. -/
theorem unanimous_filter_iff (answers : List String) (p : String → Bool) :
    unanimous (answers.filter p) = (unanimous answers).filter p ↔
      ¬ (unanimous answers = none ∧ ∃! answer, answer ∈ answers ∧ p answer) := by
  cases hu : unanimous answers with
  | none =>
    have hiff := unanimous_ne_none_iff (answers.filter p)
    simp only [List.mem_filter] at hiff
    rw [← hiff]
    simp
  | some answer =>
    obtain ⟨hmem, hall⟩ := (unanimous_eq_some_iff _ _).mp hu
    have hsame : unanimous (answers.filter p) = (some answer).filter p := by
      cases hp : p answer with
      | true =>
        have hkeep : answers.filter p = answers :=
          List.filter_eq_self.mpr fun a ha => by rw [hall a ha, hp]
        rw [hkeep, hu, Option.filter, hp, if_pos rfl]
      | false =>
        have hdrop : answers.filter p = [] :=
          List.filter_eq_nil_iff.mpr fun a ha => by rw [hall a ha, hp]; simp
        rw [hdrop, Option.filter, hp]
        rfl
    simp [hsame]

variable [RustStd]

theorem prove_eq (question : ChoiceQuestion) (state : State) :
    prove question state =
      unanimous ((winners (Facts.extract state.text)).filter fun w =>
        (candidateIds question).contains w) := by
  simp only [prove, proven_eq]
  split
  · rename_i h
    rw [h]
    rfl
  · rfl

/-- The solver answers with the agreed winner exactly when no split vote is left with one
candidate. -/
theorem prove_eq_agreed_iff (question : ChoiceQuestion) (state : State) :
    prove question state =
        (agreed (Facts.extract state.text)).filter (fun w => (candidateIds question).contains w) ↔
      ¬ SplitVote (Facts.extract state.text) (candidateIds question) := by
  rw [prove_eq, agreed, unanimous_filter_iff, SplitVote, agreed]
  simp

/-- What is delegated on more candidates stays so on fewer unless the vote splits there. -/
theorem prove_narrowed_iff {question narrowed : ChoiceQuestion} {state : State}
    (hsub : candidateIds narrowed ⊆ candidateIds question) (hnone : prove question state = none) :
    prove narrowed state = none ↔
      ¬ SplitVote (Facts.extract state.text) (candidateIds narrowed) := by
  rw [← prove_eq_agreed_iff]
  cases ha : agreed (Facts.extract state.text) with
  | none => simp
  | some answer =>
    have hq : ¬ SplitVote (Facts.extract state.text) (candidateIds question) := by
      intro h
      rw [SplitVote, ha] at h
      exact absurd h.1 (by simp)
    have hproved := (prove_eq_agreed_iff question state).mpr hq
    rw [hnone, ha] at hproved
    have hout : answer ∉ candidateIds narrowed := by
      intro hm
      have hin : (candidateIds question).contains answer = true := by simpa using hsub hm
      rw [Option.filter, hin, if_pos rfl] at hproved
      cases hproved
    have hcontains : (candidateIds narrowed).contains answer = false := by simpa using hout
    rw [Option.filter, hcontains]
    rfl

theorem prove_mem {question : ChoiceQuestion} {state : State} {answer : String}
    (h : prove question state = some answer) : answer ∈ candidateIds question := by
  rw [prove_eq] at h
  have hm := ((unanimous_eq_some_iff _ _).mp h).1
  simpa using (List.mem_filter.mp hm).2

omit [RustStd] in
theorem sum_certain {keys : List String} {answer : String} (hn : keys.Nodup) (hm : answer ∈ keys) :
    (keys.map fun key => if key = answer then (1 : ℚ) else 0).sum = 1 := by
  have hcount : ∀ l : List String,
      (l.map fun key => if key = answer then (1 : ℚ) else 0).sum = l.count answer := by
    intro l
    induction l with
    | nil => rfl
    | cons key l ih =>
      rw [List.map_cons, List.sum_cons, ih, List.count_cons]
      by_cases hk : key = answer <;> simp [hk, add_comm]
  rw [hcount, List.count_eq_one_of_mem hn hm]
  rfl

omit [RustStd] in
theorem certain_ok {question : ChoiceQuestion} {answer : String}
    (h : answer ∈ candidateIds question) :
    ∃ d, Distribution.fromPairs (certainPairs question answer) = .ok d ∧
      d.entries = (certainPairs question answer).map fun p => ⟨p.1, p.2⟩ := by
  have hkeys : (((certainPairs question answer).map fun p : String × ℚ =>
      (⟨p.1, p.2⟩ : DistributionEntry)).map DistributionEntry.key) = candidateIds question := by
    simp [certainPairs, candidateIds]
  have hnodup : (candidateIds question).Nodup := by
    have hu := question.unique.map Ident.text_injective
    simpa [candidateIds, Function.comp_def] using hu
  have hsum : (((certainPairs question answer).map fun p : String × ℚ =>
      (⟨p.1, p.2⟩ : DistributionEntry)).map DistributionEntry.probability).sum = 1 := by
    have hs := sum_certain hnodup h
    simpa [certainPairs, candidateIds, Function.comp_def] using hs
  let d : Distribution :=
    { entries := (certainPairs question answer).map fun p => ⟨p.1, p.2⟩
      entries_ne := by simpa [certainPairs] using question.candidates_ne
      unique := by rw [hkeys]; exact hnodup
      unit := by
        intro e he
        simp only [certainPairs, List.map_map, List.mem_map, Function.comp_apply] at he
        obtain ⟨c, -, rfl⟩ := he
        dsimp only
        split <;> norm_num
      normalized := by rw [hsum, sub_self, abs_zero]; norm_num [sumTolerance] }
  exact ⟨d, Distribution.new_self d, rfl⟩

/-- The solver's law for a text and a question: it proves the agreed winner or nothing exactly
when no split vote is left with one candidate; what it delegates, it keeps delegating on fewer
candidates exactly under the same condition; a proof is answered with all mass on its
candidate, anything else by the inner classifier. -/
theorem solver_law (inner : Classifier) (question : ChoiceQuestion) (state : State) :
    (prove question state =
        (agreed (Facts.extract state.text)).filter
          (fun w => (candidateIds question).contains w) ↔
      ¬ SplitVote (Facts.extract state.text) (candidateIds question)) ∧
    (∀ narrowed : ChoiceQuestion, candidateIds narrowed ⊆ candidateIds question →
      prove question state = none →
      (prove narrowed state = none ↔
        ¬ SplitVote (Facts.extract state.text) (candidateIds narrowed))) ∧
    (∀ answer, prove question state = some answer → answer ∈ candidateIds question ∧
      ∃ d, decide inner state (.choice question) = .ok d ∧
        d.entries = question.candidates.map fun c =>
          ⟨c.id.text, if c.id.text = answer then 1 else 0⟩) ∧
    (prove question state = none →
      decide inner state (.choice question) = inner.decide state (.choice question)) := by
  refine ⟨prove_eq_agreed_iff question state, fun narrowed hsub hnone =>
    prove_narrowed_iff hsub hnone, fun answer h => ⟨prove_mem h, ?_⟩, fun h => ?_⟩
  · obtain ⟨d, hd, hentries⟩ := certain_ok (prove_mem h)
    refine ⟨d, ?_, by simpa [certainPairs, Function.comp_def] using hentries⟩
    simp only [decide, h, hd]
  · simp only [decide, h]

end Law

section Samples

attribute [local instance] plainStd

def splitText : String :=
  "a comes back online only after b. a: healthy, healthy. b: healthy. c: down."

example : Facts.extract splitText =
    [.restoresAfter "a" "b", .healthList "a" [.healthy, .healthy], .healthList "b" [.healthy],
      .healthList "c" [.down]] := by decide +kernel

def ballot (candidates : List String)
    (h : (Sample.newChoice "q" candidates).toOption.isSome = true := by decide) : ChoiceQuestion :=
  (Sample.newChoice "q" candidates).toOption.get h

/-- Health and ordering disagree about the full ballot; without b, only the dissenting winner
is left, and the solver is certain of it. -/
theorem prove_after_narrowing :
    ∃ (state : State) (question narrowed : ChoiceQuestion),
      candidateIds narrowed ⊆ candidateIds question ∧
        winners (Facts.extract state.text) = ["a", "b"] ∧
        prove question state = none ∧ prove narrowed state = some "a" := by
  refine ⟨State.fromText splitText, ballot ["a", "b", "c"], ballot ["a", "c"], ?_, ?_, ?_, ?_⟩
  · have hall : candidateIds (ballot ["a", "b", "c"]) = ["a", "b", "c"] := by decide +kernel
    have hkept : candidateIds (ballot ["a", "c"]) = ["a", "c"] := by decide +kernel
    simp [hall, hkept]
  all_goals decide +kernel

end Samples

end OpenCodifier.RelationalSolver
