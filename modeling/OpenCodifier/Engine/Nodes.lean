import OpenCodifier.Engine.RunState
set_option autoImplicit false

namespace OpenCodifier.Executor

variable [RustStd] (ex : Executor) (s : RunState)

def outcomeName : DecisionOutcome → String
  | .accept => "accept"
  | .verified => "verified"
  | .verify => "verify"
  | .abstain => "abstain"
  | .escalate => "escalate"
  | .noValidCandidate => "no_valid_candidate"

def orderText (ids : List CandidateId) : String := ",".intercalate (ids.map Ident.text)

section Filter

def filterQuestion (choice : ChoiceQuestion) : NarrowingOutcome :=
  NarrowingOutcome.apply choice (s.selectorsFor choice.id).1 (s.selectorsFor choice.id).2

def filterEntry (id : NodeId) (outcome : NarrowingOutcome) : TraceEntry :=
  .new id.text
    [("question", .text outcome.questionId.text), ("before", .integer outcome.before),
      ("after", .integer outcome.after), ("removed", .integer outcome.removed.length)]

def filterCandidates (id : NodeId) : NodeExecution :=
  let outcomes := (choiceQuestions ex.request).map (filterQuestion s)
  ⟨.filtered outcomes, outcomes.map (filterEntry id)⟩

end Filter

section Scoring

/-- Safe mode keeps every candidate; scores only order them. -/
def pruneScores (scored : LexicalScores) : LexicalScores :=
  match ex.config.safeMode, ex.config.lexicalPruneLimit with
  | false, some keep => scored.prune keep
  | _, _ => scored

def scoreQuestion (choice : ChoiceQuestion) : Option LexicalScores := do
  let outcome ← s.narrowing.get? choice.id
  let narrowed ← outcome.narrowedQuestion choice
  let query := LexicalClassifier.queryFor s.state (.choice choice)
  some (ex.pruneScores (LexicalScores.score narrowed outcome.surviving query))

def lexicalEntry (id : NodeId) (scored : LexicalScores) : TraceEntry :=
  .new id.text
    [("question", .text scored.questionId.text), ("scored", .integer scored.scores.length),
      ("top_score", .float ((scored.scores.head?.map Prod.snd).getD 0)),
      ("pruned", .integer scored.pruned.length), ("safe_mode", .boolean ex.config.safeMode)]

def scoreLexical (id : NodeId) : NodeExecution :=
  let scored := (choiceQuestions ex.request).filterMap (ex.scoreQuestion s)
  ⟨.scored scored, scored.map (ex.lexicalEntry id)⟩

def semanticQuestion (backend : EmbeddingBackend) (id : NodeId) (choice : ChoiceQuestion) :
    EngineResult ((QuestionId × List (CandidateId × ℚ)) × TraceEntry) := do
  let inPlay := s.candidatesInPlay choice
  let query := LexicalClassifier.queryFor s.state (.choice choice)
  let vectors ← embedTexts backend query (inPlay.map Candidate.description)
  let scores := ((inPlay.map Candidate.id).zip
    (vectors.2.map (cosine vectors.1))).insertionSort scoreOrder
  let entry := TraceEntry.new id.text
    [("question", .text choice.id.text), ("model", .text backend.modelId),
      ("dims", .integer vectors.1.length), ("scored", .integer scores.length),
      ("top_score", .float ((scores.head?.map Prod.snd).getD 0))]
  pure ((choice.id, scores), entry)

def scoreSemantic (id : NodeId) : EngineResult NodeExecution :=
  match ex.config.embedding with
  | none => .error (.missingBackend id.text "embedding")
  | some backend => do
    let results ← (choiceQuestions ex.request).mapM (semanticQuestion s backend id)
    pure ⟨.semantic (results.map Prod.fst), results.map Prod.snd⟩

end Scoring

section Retrieval

/-- The kept candidates: the best `topN` above the floor, or the single best. -/
def retrieveKept (topN : Nat) (floor : ℚ) (ranked : List (CandidateId × ℚ)) :
    List (CandidateId × ℚ) :=
  let aboveFloor := ranked.filter fun e => floor ≤ e.2
  if aboveFloor = [] then ranked.take 1 else aboveFloor.take topN

def retrieveQuestion (id : NodeId) (spec : NodeSpec) (choice : ChoiceQuestion) :
    EngineResult ((QuestionId × List CandidateId × List CandidateId) × List TraceEntry) :=
  let topN := spec.topN.getD 1
  let floor := spec.floor.getD 0
  match s.semantic.get? choice.id with
  | none =>
    .error (.nodeFailed id.text ("no semantic scores for question `" ++ choice.id.text
      ++ "`: `retrieve` requires an upstream `embedding` node"))
  | some scores =>
    let surviving := (s.candidatesInPlay choice).map Candidate.id
    let ranked := scores.filter fun e => e.1 ∈ surviving
    let kept := retrieveKept topN floor ranked
    let dropped := ranked.filter fun e => e.1 ∉ kept.map Prod.fst
    let droppedEntries := dropped.map fun e => TraceEntry.new id.text
      [("question", .text choice.id.text), ("dropped_candidate", .text e.1.text),
        ("score", .float e.2), ("floor", .float floor)]
    let entry := TraceEntry.new id.text
      [("question", .text choice.id.text), ("kept", .integer kept.length),
        ("dropped", .integer dropped.length), ("top_n", .integer topN), ("floor", .float floor),
        ("order", .text (orderText (kept.map Prod.fst)))]
    .ok ((choice.id, dropped.map Prod.fst, kept.map Prod.fst), droppedEntries ++ [entry])

def retrieve (id : NodeId) (spec : NodeSpec) : EngineResult NodeExecution := do
  let results ← (choiceQuestions ex.request).mapM (retrieveQuestion s id spec)
  pure ⟨.retrieved (results.map Prod.fst), results.flatMap Prod.snd⟩

def rerankerOf (id : NodeId) (spec : NodeSpec) : EngineResult Reranker :=
  match spec.reranker with
  | some name =>
    if name = "lexical" then .ok lexicalReranker
    else if name = "embedding" then
      match ex.config.embedding with
      | some backend => .ok (embeddingReranker backend)
      | none => .error (.missingBackend id.text "embedding")
    else .error (.nodeFailed id.text ("unknown reranker `" ++ name ++ "`"))
  | none => .error (.nodeFailed id.text "rerank nodes must name a reranker")

/-- The reranked order of one choice question; questions with nothing in play are
passed over. -/
def rerankQuestion (reranker : Reranker) (id : NodeId) (choice : ChoiceQuestion) :
    EngineResult (Option ((QuestionId × List CandidateId) × TraceEntry)) :=
  let surviving := s.candidatesInPlay choice
  if surviving = [] then .ok none
  else do
    let scored ← reranker.rerank (LexicalClassifier.queryFor s.state (.choice choice)) surviving
    let order := scored.map fun c => c.candidate.id
    let entry := TraceEntry.new id.text
      [("question", .text choice.id.text), ("reranker", .text reranker.modelId),
        ("count", .integer order.length), ("top", .text ((order.head?.map Ident.text).getD "")),
        ("order", .text (orderText order))]
    pure (some ((choice.id, order), entry))

def rerankCandidates (id : NodeId) (spec : NodeSpec) : EngineResult NodeExecution := do
  let reranker ← ex.rerankerOf id spec
  let results ← (choiceQuestions ex.request).mapM (rerankQuestion s reranker id)
  let results := results.filterMap fun r => r
  pure ⟨.reranked (results.map Prod.fst), results.map Prod.snd⟩

end Retrieval

section Deciding

def wants : NodeKind → DecisionQuestion → Bool
  | .choice, .choice _ => true
  | .boolean, .boolean _ => true
  | .score, .score _ => true
  | _, _ => false

def escalationWarranted (policy : DecisionPolicy) (d : Distribution) : Bool :=
  d.top.probability < policy.minConfidence || policy.entropyCeiling ≤ (d.entropy : WithTop ℚ)

def viewOf (narrowed : DecisionQuestion) : Option FocusView :=
  ex.config.focus.map (Focus.focus s.state narrowed)

/-- One reading of the classifier, clipped: the distribution, the count of
clipped entries and the lexical support. -/
def readClassifier (classifier : Classifier) (state : State) (question : DecisionQuestion)
    (index : Option Lexical.Bm25Index) : EngineResult (Distribution × Nat × Option ℚ) := do
  let raw ← classifier.decideExtended state question index
  let clipped ← clip raw.1 question
  pure (clipped.1, clipped.2, raw.2)

structure Reading where
  distribution : Distribution
  clipped : Nat
  lexicalSupport : Option ℚ
  view : Option FocusView
  escalated : Bool

/-- Read a question, and once more on the full state when a focused view was too
weak. -/
def readQuestion (policy : DecisionPolicy) (narrowed : DecisionQuestion)
    (handoff : Option Lexical.Bm25Index) : EngineResult Reading := do
  let view := ex.viewOf s narrowed
  let decideState := (view.map FocusView.state).getD s.state
  let extracted := (view.map FocusView.extracted).getD false
  let first ← readClassifier ex.classifier decideState narrowed handoff
  if extracted && escalationWarranted policy first.1 then
    let full ← readClassifier ex.classifier s.state narrowed handoff
    pure ⟨full.1, full.2.1, full.2.2, view, true⟩
  else pure ⟨first.1, first.2.1, first.2.2, view, false⟩

/-- Every configured gate names itself on the deciding trace entry. -/
def gateDisclosures (narrowed : DecisionQuestion) (policy : DecisionPolicy)
    (decision : QuestionDecision) : List (String × FactValue) :=
  match narrowed with
  | .boolean _ =>
    match policy.booleanThreshold with
    | some threshold =>
      ("boolean_threshold", .float threshold) ::
        (if decision.booleanFlipped then [("boolean_flipped", .boolean true)] else [])
    | none => []
  | .choice _ =>
    (match policy.abstainCandidate with
    | some candidate =>
      ("abstain_candidate", .text candidate.id) ::
        (if decision.abstained = some .elicited then [("abstain_elicited", .boolean true)]
        else [])
    | none => []) ++
    (match policy.maxLabelOverlap with
    | some limit =>
      ("max_label_overlap", .float limit) ::
        (match decision.labelOverlap with
        | some (score, pair) =>
          [("label_overlap", .float score), ("label_overlap_pair", .text pair)] ++
            (if decision.abstained = some .labelOverlap then
              [("label_overlap_abstained", .boolean true)]
            else [])
        | none => [])
    | none => [])
  | .score _ => []

def focusFacts (reading : Reading) : List (String × FactValue) :=
  match reading.view with
  | some view =>
    [("focus_engaged", .boolean view.extracted), ("focus_kept", .integer view.keptSentences),
      ("focus_total", .integer view.totalSentences),
      ("focus_tokens", .integer view.estimatedTokens),
      ("focus_escalated", .boolean reading.escalated)]
  | none => []

def sourceFact (name : String) (source : Option String) : List (String × FactValue) :=
  (source.map fun text => (name, FactValue.text text)).toList

def decideOne (id : NodeId) (kind : NodeKind) (question : DecisionQuestion) :
    EngineResult (Option (QuestionDecision × Reading × TraceEntry)) :=
  let policy := ex.policyFor id.text kind
  let calibration := ex.calibrationFor id.text kind
  match s.prepareQuestion question policy.1.abstainCandidate with
  | none => .ok none
  | some narrowed => do
    let reading ← ex.readQuestion s policy.1 narrowed (s.lexicalHandoff question narrowed)
    let decision ← decideQuestion narrowed reading.distribution policy.1 calibration.1 id.text kind
      reading.lexicalSupport
    let entry := TraceEntry.new id.text
      ([("question", .text question.id.text), ("top", .text decision.distribution.top.key),
        ("probability", .float decision.distribution.top.probability),
        ("calibrated", .float decision.report.calibratedConfidence),
        ("ood", .float decision.report.oodScore), ("model", .text ex.classifier.modelId),
        ("clipped", .integer reading.clipped)] ++
        sourceFact "policy_source" policy.2 ++ sourceFact "calibration_source" calibration.2 ++
        gateDisclosures narrowed policy.1 decision ++ focusFacts reading)
    pure (some (decision, reading, entry))

def recordFocus (acc : FocusSummary) (reading : Reading) : FocusSummary :=
  match reading.view with
  | some view => acc.record view.extracted reading.escalated
  | none => acc

def decideQuestions (id : NodeId) (kind : NodeKind) : EngineResult NodeExecution := do
  let results ← (ex.request.questions.filter (wants kind)).mapM (ex.decideOne s id kind)
  let results := results.filterMap fun r => r
  pure ⟨.decided (results.map Prod.fst)
      ((results.map fun r => r.2.1).foldl recordFocus {}),
    results.map fun r => r.2.2⟩

end Deciding

end OpenCodifier.Executor
