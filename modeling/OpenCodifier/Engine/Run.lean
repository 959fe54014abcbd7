import Mathlib.Data.Prod.Lex
import OpenCodifier.Engine.Walk
set_option autoImplicit false

namespace OpenCodifier.Executor

variable [RustStd] (ex : Executor)

section Execute

def normalizeEntry (s : RunState) (id : NodeId) : TraceEntry :=
  .new id.text
    [("state_bytes", .integer s.state.text.utf8ByteSize), ("facts", .integer s.state.facts.size)]

def ruleEntry (id : NodeId) (report : RuleReport) : TraceEntry :=
  .new id.text
    [("fired", .integer report.fired.length), ("facts_set", .integer report.factsSet.length),
      ("excluded", .integer (report.excluded.values.map List.length).sum),
      ("pinned", .integer (report.pinned.values.map List.length).sum)]

/-- A branch without a condition always fires. -/
def branchFires (s : RunState) (spec : NodeSpec) : Bool :=
  spec.when'.all fun condition => condition.Matches s.state

/-- One node against an immutable snapshot of the run. -/
def execute (s : RunState) (spec : NodeSpec) : EngineResult NodeExecution := do
  ex.guard (.node spec.id)
  match spec.kind with
  | .normalize => .ok ⟨.inert, [normalizeEntry s spec.id]⟩
  | .rule =>
    let report := ex.config.rules.evaluate s.state ex.request.questions
    .ok ⟨.rules report, [ruleEntry spec.id report]⟩
  | .cache =>
    .ok ⟨.inert, [.new spec.id.text [("hit", .boolean false), ("key", .text ex.key)]]⟩
  | .filter => .ok (ex.filterCandidates s spec.id)
  | .lexical => .ok (ex.scoreLexical s spec.id)
  | .embedding => ex.scoreSemantic s spec.id
  | .retrieve => ex.retrieve s spec.id spec
  | .rerank => ex.rerankCandidates s spec.id spec
  | .choice => ex.decideQuestions s spec.id .choice
  | .boolean => ex.decideQuestions s spec.id .boolean
  | .score => ex.decideQuestions s spec.id .score
  | .threshold => ex.resolveThreshold s spec.id
  | .branch =>
    let fired := branchFires s spec
    .ok ⟨.branched fired, [.new spec.id.text [("fired", .boolean fired)]]⟩
  | .output => .ok ⟨.inert, [.new spec.id.text [("reached", .boolean true)]]⟩

end Execute

section Merge

/-- The gate's verdict lands on the stored decision of its question. -/
def patch (outcome : DecisionOutcome) (agreement : Option Bool) (d : QuestionDecision) :
    QuestionDecision :=
  { d with
    outcome
    report := { d.report with verifierAgreement := agreement }
    verificationTriggered := agreement.isSome }

def skipEntry (id : NodeId) : TraceEntry := .new id.text [("skipped", .boolean true)]

def markSkipped (s : RunState) (id : NodeId) : RunState :=
  let nodes := ex.config.graph.nodes
  let skipped := Worklist.explore (dependentsIn nodes) (traversalFuel nodes) [id] s.skipped
  { s with
    skipped
    trace := s.trace ++ (skipped.drop s.skipped.length).map skipEntry }

def extendPruned (m : OrdMap QuestionId (List CandidateId)) (question : QuestionId)
    (pruned : List CandidateId) : OrdMap QuestionId (List CandidateId) :=
  if pruned = [] then m else m.insert question ((m.get? question).getD [] ++ pruned)

def mergeScored (s : RunState) (scores : LexicalScores) : RunState :=
  { s with
    lexical := s.lexical.insert scores.questionId scores
    prunedLexically := extendPruned s.prunedLexically scores.questionId scores.pruned }

def mergeRetrieved (s : RunState) (prune : QuestionId × List CandidateId × List CandidateId) :
    RunState :=
  { s with
    prunedSemantically := extendPruned s.prunedSemantically prune.1 prune.2.1
    reranked := s.reranked.insert prune.1 prune.2.2 }

def insertDecision (m : OrdMap QuestionId QuestionDecision) (d : QuestionDecision) :
    OrdMap QuestionId QuestionDecision :=
  m.insert d.answer.questionId d

def patchDecision (m : OrdMap QuestionId QuestionDecision)
    (r : QuestionId × DecisionOutcome × Option Bool) : OrdMap QuestionId QuestionDecision :=
  m.modify r.1 (patch r.2.1 r.2.2)

def merge (s : RunState) (spec : NodeSpec) : NodeOutput → RunState
  | .inert => s
  | .rules report => { s with state := report.applyTo s.state, rules := some report }
  | .filtered outcomes =>
    { s with narrowing := outcomes.foldl (fun m o => m.insert o.questionId o) s.narrowing }
  | .scored scores => scores.foldl mergeScored s
  | .semantic scores =>
    { s with semantic := scores.foldl (fun m e => m.insert e.1 e.2) s.semantic }
  | .retrieved prunes => prunes.foldl mergeRetrieved s
  | .reranked orders =>
    { s with reranked := orders.foldl (fun m e => m.insert e.1 e.2) s.reranked }
  | .decided decisions focus =>
    { s with
      decisions := decisions.foldl insertDecision s.decisions
      focus := s.focus.add focus }
  | .resolved outcomes replacements =>
    { s with
      decisions := outcomes.foldl patchDecision (replacements.foldl insertDecision s.decisions) }
  | .branched fired =>
    if fired then s
    else (ex.config.graph.dependentsOf spec.id).foldl ex.markSkipped s

def mergeExecution (s : RunState) (spec : NodeSpec) (execution : NodeExecution) : RunState :=
  ex.merge { s with trace := s.trace ++ execution.entries } spec execution.output

end Merge

section Run

def resultOrder (left right : NodeSpec × EngineResult NodeExecution) : Prop :=
  left.1.id ≤ right.1.id

instance : DecidableRel resultOrder := fun _ _ => inferInstanceAs (Decidable (_ ≤ _))

def runnable (s : RunState) (wave : List NodeId) : List NodeSpec :=
  (wave.filterMap ex.config.graph.node).filter fun spec => spec.id ∉ s.skipped

/-- Merge the results of a wave; the flag tells whether the output was reached. -/
def mergeResults (acc : RunState × Bool) :
    List (NodeSpec × EngineResult NodeExecution) → EngineResult (RunState × Bool)
  | [] => .ok acc
  | (spec, result) :: rest => do
    let execution ← result
    mergeResults (ex.mergeExecution acc.1 spec execution, acc.2 || spec.kind = .output) rest

/-- Every runnable node of a wave reads the same snapshot; the results are merged
in node-id order. -/
def runWave (s : RunState) (wave : List NodeId) : EngineResult (RunState × Bool) :=
  let results := (ex.runnable s wave).map fun spec => (spec, ex.execute s spec)
  ex.mergeResults (s, false) (results.insertionSort resultOrder)

/-- Wave after wave; a wave that is skipped as a whole is passed over, and the run
stops after the wave of the output node. Nodes already skipped are not marked
again. -/
def runWaves (s : RunState) : List (List NodeId) → EngineResult RunState
  | [] => .ok s
  | wave :: rest => do
    ex.guard (.wave wave)
    if wave.all (· ∈ s.skipped) then runWaves s rest
    else
      let r ← ex.runWave s wave
      if r.2 then pure r.1 else runWaves r.1 rest

def runState : EngineResult RunState :=
  ex.runWaves (initialState ex.request) ex.config.graph.waves

end Run

section Assemble

/-- What the graph produced, before the engine turns it into a response. The source also reports
which waves ran in parallel and on how many threads, which no answer depends on. -/
structure GraphOutcome where
  answers : List DecisionAnswer
  outcome : DecisionOutcome
  report : ConfidenceReport
  metrics : DecisionMetrics
  trace : List TraceEntry
  narrowing : List NarrowingOutcome
  lexical : List LexicalScores
  skipped : List NodeId
  focus : FocusSummary
  waves : List (List NodeId)
  outcomes : List (QuestionId × DecisionOutcome)

/-- The answer a question ships: a decision's, unless it abstained. -/
def shippedAnswer (s : RunState) (question : DecisionQuestion) : Option DecisionAnswer :=
  (s.decisions.get? question.id).bind fun d => if d.abstained.isSome then none else some d.answer

/-- A question without a decision abstains. -/
def questionOutcome (s : RunState) (question : DecisionQuestion) : QuestionId × DecisionOutcome :=
  (question.id, ((s.decisions.get? question.id).map QuestionDecision.outcome).getD .abstain)

def severity : DecisionOutcome → Nat
  | .accept => 1
  | .verified => 2
  | .verify => 3
  | .escalate => 4
  | .abstain => 4
  | .noValidCandidate => 5

def confidenceOf (s : RunState) (id : QuestionId) : ℚ :=
  ((s.decisions.get? id).map fun d => d.report.calibratedConfidence).getD 1

/-- The key of the most conservative outcome: severity, then lowest confidence,
then question id. -/
def conservativeKey (s : RunState) (entry : QuestionId × DecisionOutcome) :
    Lex (Nat × Lex (ℚᵒᵈ × QuestionId)) :=
  toLex (severity entry.2, toLex (OrderDual.toDual (confidenceOf s entry.1), entry.1))

def conservative (s : RunState) (outcomes : List (QuestionId × DecisionOutcome)) :
    DecisionOutcome :=
  ((Extremum.lastMax (conservativeKey s) outcomes).map Prod.snd).getD .abstain

def driverKey (s : RunState) (entry : QuestionId × DecisionOutcome) : Lex (ℚ × QuestionId) :=
  toLex (confidenceOf s entry.1, entry.1)

def driver (s : RunState) (outcome : DecisionOutcome)
    (outcomes : List (QuestionId × DecisionOutcome)) : Option QuestionId :=
  (Extremum.firstMin (driverKey s) (outcomes.filter fun e => e.2 = outcome)).map Prod.fst

def emptyReport : ConfidenceReport := ⟨0, 0, 0, 0, 0, none⟩

def confidenceFor (s : RunState) (outcome : DecisionOutcome)
    (outcomes : List (QuestionId × DecisionOutcome)) : ConfidenceReport :=
  (((driver s outcome outcomes).bind s.decisions.get?).map QuestionDecision.report).getD
    emptyReport

def listMax (l : List Nat) : Nat := l.foldl max 0

def metricsOf (s : RunState) : DecisionMetrics where
  candidatesIn := listMax (s.narrowing.values.map NarrowingOutcome.before)
  candidatesOut := listMax (s.narrowing.values.map NarrowingOutcome.after) -
    listMax (s.prunedLexically.values.map List.length) -
    listMax (s.prunedSemantically.values.map List.length)
  cacheHit := false
  verificationTriggered := s.decisions.values.any QuestionDecision.verificationTriggered

def idLe (left right : NodeId) : Prop := left ≤ right

instance : DecidableRel idLe := fun _ _ => inferInstanceAs (Decidable (_ ≤ _))

def overallOutcome (s : RunState) : DecisionOutcome :=
  if s.narrowing.values.any NarrowingOutcome.isStarved then .noValidCandidate
  else conservative s (ex.request.questions.map (questionOutcome s))

def assemble (s : RunState) : GraphOutcome :=
  let outcomes := ex.request.questions.map (questionOutcome s)
  { answers := ex.request.questions.filterMap (shippedAnswer s)
    outcome := ex.overallOutcome s
    report := confidenceFor s (ex.overallOutcome s) outcomes
    metrics := metricsOf s
    trace := s.trace
    narrowing := s.narrowing.values
    lexical := s.lexical.values
    skipped := s.skipped.insertionSort idLe
    focus := s.focus
    waves := ex.config.graph.waves
    outcomes }

def run : EngineResult GraphOutcome := do
  let s ← ex.runState
  pure (ex.assemble s)

end Assemble

end OpenCodifier.Executor
