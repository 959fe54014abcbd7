import OpenCodifier.Core.Request
import OpenCodifier.Engine.Decide
import OpenCodifier.Engine.Focus
import OpenCodifier.Engine.GraphValid
import OpenCodifier.Engine.Rerank
set_option autoImplicit false

namespace OpenCodifier

variable [RustStd]

structure EngineConfig where
  graph : DecisionGraph
  rules : RuleEngine
  calibration : Calibration := identityCalibration
  ladder : LadderPolicy := { id := "none" }
  focus : Option FocusPolicy := none
  safeMode : Bool := true
  lexicalPruneLimit : Option Nat := none
  embedding : Option EmbeddingBackend := none

inductive GuardPoint where
  | wave (ids : List NodeId)
  | node (id : NodeId)
  | rung (node : NodeId) (question : QuestionId) (index : Nat)

/-- What a run reads and never changes. The clock and the token are one oracle:
the verdict of each check the run makes. -/
structure Executor where
  config : EngineConfig
  classifier : Classifier
  verifier : Option Classifier
  fallbacks : List Rung
  request : DecisionRequest
  key : String
  guard : GuardPoint → EngineResult Unit

structure RunState where
  state : State
  rules : Option RuleReport
  narrowing : OrdMap QuestionId NarrowingOutcome
  lexical : OrdMap QuestionId LexicalScores
  prunedLexically : OrdMap QuestionId (List CandidateId)
  semantic : OrdMap QuestionId (List (CandidateId × ℚ))
  prunedSemantically : OrdMap QuestionId (List CandidateId)
  reranked : OrdMap QuestionId (List CandidateId)
  decisions : OrdMap QuestionId QuestionDecision
  trace : List TraceEntry
  skipped : List NodeId
  focus : FocusSummary

def initialState (request : DecisionRequest) : RunState where
  state := request.state
  rules := none
  narrowing := OrdMap.empty
  lexical := OrdMap.empty
  prunedLexically := OrdMap.empty
  semantic := OrdMap.empty
  prunedSemantically := OrdMap.empty
  reranked := OrdMap.empty
  decisions := OrdMap.empty
  trace := []
  skipped := []
  focus := {}

def choiceQuestions (request : DecisionRequest) : List ChoiceQuestion :=
  request.questions.filterMap fun q =>
    match q with
    | .choice choice => some choice
    | _ => none

namespace Executor

variable (ex : Executor)

/-- The policy that governs a question decided by a node, with the ladder source
to record in the trace. -/
def policyFor (nodeId : String) (kind : NodeKind) : DecisionPolicy × Option String :=
  match ex.config.ladder.resolve nodeId kind (ex.request.metadata.family.map Ident.text) with
  | some (policy, source) => (policy, some source)
  | none => (ex.request.policy, none)

/-- The calibration of the questions a node decides, with its ladder source. -/
def calibrationFor (nodeId : String) (kind : NodeKind) : Calibration × Option String :=
  match ex.config.ladder.resolveCalibration nodeId kind with
  | some (calibration, source) => (calibration, some source)
  | none => (ex.config.calibration, none)

end Executor

namespace RunState

variable (s : RunState)

def selectorsFor (id : QuestionId) : List CandidateId × List CandidateId :=
  match s.rules with
  | some report => (report.exclusionsFor id, report.pinsFor id)
  | none => ([], [])

def unpruned (question : QuestionId) (id : CandidateId) : Bool :=
  id ∉ (s.prunedLexically.get? question).getD [] &&
    id ∉ (s.prunedSemantically.get? question).getD []

/-- The survivors of the filter when one ran, the declared candidates otherwise. -/
def baseCandidates (choice : ChoiceQuestion) : List Candidate :=
  match s.narrowing.get? choice.id with
  | some outcome => outcome.surviving
  | none => choice.candidates

def candidatesInPlay (choice : ChoiceQuestion) : List Candidate :=
  (s.baseCandidates choice).filter fun c => s.unpruned choice.id c.id

/-- Candidates by their position in an order, absent ones last. -/
def orderedBy (order : List CandidateId) (left right : Candidate) : Prop :=
  order.idxOf left.id ≤ order.idxOf right.id

instance (order : List CandidateId) : DecidableRel (orderedBy order) := fun _ _ =>
  inferInstanceAs (Decidable (_ ≤ _))

/-- The question the filter leaves; starved questions have none. -/
def narrowedChoice (choice : ChoiceQuestion) : Option ChoiceQuestion :=
  match s.narrowing.get? choice.id with
  | some outcome => if outcome.isStarved then none else outcome.narrowedQuestion choice
  | none => some choice

def reorder (choice : QuestionId) (candidates : List Candidate) : List Candidate :=
  match s.reranked.get? choice with
  | some order => candidates.insertionSort (orderedBy order)
  | none => candidates

/-- The abstain candidate rides last unless a declared candidate has its id. -/
def withAbstain (abstain : Option AbstainCandidate) (candidates : List Candidate) :
    Option (List Candidate) :=
  match abstain with
  | none => some candidates
  | some candidate =>
    if candidates.any fun c => c.id.text = candidate.id then some candidates
    else
      (Candidate.new candidate.id candidate.description).toOption.map fun c => candidates ++ [c]

def prepareQuestion (question : DecisionQuestion) (abstain : Option AbstainCandidate) :
    Option DecisionQuestion :=
  match question with
  | .choice choice => do
    let narrowed ← s.narrowedChoice choice
    let surviving := narrowed.candidates.filter fun c => s.unpruned choice.id c.id
    if surviving = [] then none
    else
      let candidates ← withAbstain abstain (s.reorder choice.id surviving)
      let rebuilt ← (ChoiceQuestion.new choice.id.text narrowed.text candidates).toOption
      some (.choice rebuilt)
  | other => some other

/-- The index of the lexical node, when the filter's survivors have the ids of
the deciding list in the same order. -/
def lexicalHandoff (question narrowed : DecisionQuestion) : Option Lexical.Bm25Index :=
  match question, narrowed with
  | .choice choice, .choice narrowedChoice =>
    match s.narrowing.get? choice.id, s.lexical.get? choice.id with
    | some outcome, some scores =>
      match scores.index with
      | some index =>
        if outcome.surviving.map Candidate.id = narrowedChoice.candidates.map Candidate.id then
          some index
        else none
      | none => none
    | _, _ => none
  | _, _ => none

end RunState

inductive NodeOutput where
  | inert
  | rules (report : RuleReport)
  | filtered (outcomes : List NarrowingOutcome)
  | scored (scores : List LexicalScores)
  | decided (decisions : List QuestionDecision) (focus : FocusSummary)
  | resolved (outcomes : List (QuestionId × DecisionOutcome × Option Bool))
      (replacements : List QuestionDecision)
  | branched (fired : Bool)
  | semantic (scores : List (QuestionId × List (CandidateId × ℚ)))
  | retrieved (prunes : List (QuestionId × List CandidateId × List CandidateId))
  | reranked (orders : List (QuestionId × List CandidateId))

structure NodeExecution where
  output : NodeOutput
  entries : List TraceEntry

end OpenCodifier
