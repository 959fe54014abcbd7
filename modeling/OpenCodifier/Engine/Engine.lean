import OpenCodifier.Engine.Run
import OpenCodifier.Engine.Cache
set_option autoImplicit false

namespace OpenCodifier

structure EngineIdentity where
  graphVersion : Nat
  modelId : String
  calibrationVersion : Nat
  engineSemver : String
  embeddingModel : String
  deriving DecidableEq

def CacheKey.asHex (key : CacheKey) : String :=
  let digits := Nat.toDigits 16 key.val
  String.ofList (List.replicate (64 - digits.length) '0' ++ digits)

namespace CacheKeyBuilder

def candidateOrder (left right : Candidate) : Prop := left.id ≤ right.id

instance : DecidableRel candidateOrder := fun _ _ => inferInstanceAs (Decidable (_ ≤ _))

def normalizeChoice (question : ChoiceQuestion) : ChoiceQuestion :=
  match ChoiceQuestion.new question.id.text question.text
    (question.candidates.insertionSort candidateOrder) with
  | .ok sorted => sorted
  | .error _ => question

def normalizeQuestion : DecisionQuestion → DecisionQuestion
  | .choice choice => .choice (normalizeChoice choice)
  | other => other

/-- The canonical form of a request; the request itself when rebuilding fails. -/
def normalizedRequest (request : DecisionRequest) : DecisionRequest :=
  match DecisionRequest.new request.state (request.questions.map normalizeQuestion) request.policy
    request.metadata with
  | .ok normalized => normalized
  | .error _ => request

end CacheKeyBuilder

variable [RustStd]

structure RunReport where
  waves : List (List NodeId) := []
  cacheKey : Option CacheKey := none
  cacheHit : Bool := false
  skipped : List NodeId := []
  narrowing : List NarrowingOutcome := []
  lexical : List LexicalScores := []
  focus : FocusSummary := {}
  outcomes : List (QuestionId × DecisionOutcome) := []

/-- The engine. `keyOf` is the hash of the serialized canonical request and the
identity, `serializedLen` the length of a serialized report. -/
structure DecisionEngine where
  config : EngineConfig
  identity : EngineIdentity
  cache : DecisionCache CacheKey DecisionResponse
  classifier : Classifier
  verifier : Option Classifier
  fallbacks : List Rung
  keyOf : DecisionRequest → EngineIdentity → EngineResult CacheKey
  serializedLen : EscalationReport → Nat

namespace DecisionEngine

def defaultEscalationBudgetBytes : Nat := 65536

section Escalation

def questionKind : DecisionQuestion → String
  | .choice _ => "choice"
  | .boolean _ => "boolean"
  | .score _ => "score"

def evidence (why : String) (ids : List CandidateId) : List CandidateEvidence :=
  ids.map fun id => ⟨id, why⟩

def partialAnswerOf : DecisionAnswer → PartialAnswer
  | .choice _ choice distribution _ => ⟨.text choice.text, distribution.top.probability⟩
  | .boolean _ value probability _ => ⟨.boolean value, probability⟩
  | .score _ _ level distribution _ => ⟨.text level, distribution.top.probability⟩

/-- The first question of a request; the invariant says there is one. -/
def firstQuestion (request : DecisionRequest) : DecisionQuestion :=
  request.questions.head request.questions_ne

def ruledBy (outcome : NarrowingOutcome) : List CandidateEvidence × List CandidateEvidence :=
  (evidence "survived deterministic narrowing" (outcome.surviving.map Candidate.id),
    evidence "excluded by rule or narrowed out" outcome.removed)

def ruled (narrowing : List NarrowingOutcome) (question : QuestionId) :
    List CandidateEvidence × List CandidateEvidence :=
  ((narrowing.find? fun n => n.questionId = question).map ruledBy).getD ([], [])

def guidance : String :=
  "Answer from the state summary and evidence above; reply 'unknown' if the evidence does not settle it."

def escalationDraft (request : DecisionRequest) (outcome : Executor.GraphOutcome)
    (identity : EngineIdentity) : EscalationReport :=
  let question := firstQuestion request
  { reason := .belowConfidence
    gate :=
      { kind := .confidence
        threshold := request.policy.escalateBelow.getD outcome.report.calibratedConfidence
        observed := outcome.report.calibratedConfidence }
    requestedAction := .askTheHostModel
    engine :=
      { modelId := identity.modelId
        graphVersion := identity.graphVersion
        calibrationVersion := identity.calibrationVersion
        engineSemver := identity.engineSemver }
    payload :=
      { question := ⟨questionKind question, question.text⟩
        stateSummary :=
          ⟨request.state.text.utf8ByteSize, request.state.facts.size, request.state.images.length⟩
        candidatesRuledIn := (ruled outcome.narrowing question.id).1
        candidatesRuledOut := (ruled outcome.narrowing question.id).2
        partialAnswer := outcome.answers.head?.map partialAnswerOf
        trace := outcome.trace
        guidance := guidance
        truncated := false } }

def escalationReport (serializedLen : EscalationReport → Nat) (request : DecisionRequest)
    (outcome : Executor.GraphOutcome) (identity : EngineIdentity) : EscalationReport :=
  (escalationDraft request outcome identity).fitTo serializedLen defaultEscalationBudgetBytes

end Escalation

section Decide

/-- Request-level checks the request type does not make. -/
def validate (engine : DecisionEngine) (request : DecisionRequest) : EngineResult Unit :=
  match firstRepeat [] request.questionIds with
  | some repeated => .error (.duplicateQuestion repeated.text)
  | none =>
    if request.metadata.limits.maxGraphNodes < engine.config.graph.nodes.length then
      .error (.graphTooLarge engine.config.graph.nodes.length
        request.metadata.limits.maxGraphNodes)
    else if request.state.hasImages && !engine.fallbacks.any fun rung => rung.modality.isImage then
      .error (.visionRequired request.state.images.length)
    else .ok ()

def hitEntry (key : CacheKey) : TraceEntry :=
  .new "cache" [("hit", .boolean true), ("key", .text key.asHex)]

/-- A cached response rebuilt as a hit; the cached one when rebuilding fails. -/
def relabelled (cached : DecisionResponse) (key : CacheKey) : DecisionResponse :=
  match DecisionResponse.new cached.answers cached.outcome cached.confidence
    { entries := hitEntry key :: cached.trace.entries }
    { cached.metrics with cacheHit := true } with
  | .ok response => response
  | .error _ => cached

def withEscalationFor (rebuilt cached : DecisionResponse) : DecisionResponse :=
  match cached.escalation with
  | some report =>
    match rebuilt.withEscalation report with
    | .ok response => response
    | .error _ => cached
  | none => rebuilt

def cachedResponse (cached : DecisionResponse) (key : CacheKey) : DecisionResponse :=
  withEscalationFor (relabelled cached key) cached

def perQuestionOutcomes (request : DecisionRequest) (outcome : DecisionOutcome) :
    List (QuestionId × DecisionOutcome) :=
  request.questions.map fun question => (question.id, outcome)

def executor (engine : DecisionEngine) (request : DecisionRequest) (key : CacheKey)
    (guard : GuardPoint → EngineResult Unit) : Executor where
  config := engine.config
  classifier := engine.classifier
  verifier := engine.verifier
  fallbacks := engine.fallbacks
  request := request
  key := key.asHex
  guard := guard

/-- The identity a request is keyed under: the loaded calibration's version rules. -/
def liveIdentity (engine : DecisionEngine) : EngineIdentity :=
  { engine.identity with calibrationVersion := engine.config.calibration.version }

def respond (engine : DecisionEngine) (request : DecisionRequest)
    (outcome : Executor.GraphOutcome) : EngineResult DecisionResponse := do
  let response ← ofCore (DecisionResponse.new outcome.answers outcome.outcome outcome.report
    { entries := outcome.trace } outcome.metrics)
  if outcome.outcome = .escalate then
    ofCore (response.withEscalation
      (escalationReport engine.serializedLen request outcome engine.liveIdentity))
  else pure response

/-- Decide a request. The clock is read once for the lookup and once for the
insertion. -/
def decideWithReport (engine : DecisionEngine) (request : DecisionRequest)
    (lookupAt insertAt : Nat) (guard : GuardPoint → EngineResult Unit) :
    EngineResult (DecisionEngine × DecisionResponse × RunReport) := do
  engine.validate request
  let key ← engine.keyOf (CacheKeyBuilder.normalizedRequest request) engine.liveIdentity
  let probe := engine.cache.get lookupAt key
  let engine := { engine with cache := probe.1 }
  match probe.2 with
  | some cached =>
    pure (engine, cachedResponse cached key,
      { waves := engine.config.graph.waves, cacheKey := some key, cacheHit := true
        outcomes := perQuestionOutcomes request cached.outcome })
  | none =>
    let outcome ← (engine.executor request key guard).run
    let response ← engine.respond request outcome
    pure ({ engine with cache := engine.cache.insert insertAt key response }, response,
      { waves := outcome.waves, cacheKey := some key, cacheHit := false
        skipped := outcome.skipped, narrowing := outcome.narrowing, lexical := outcome.lexical
        focus := outcome.focus, outcomes := outcome.outcomes })

omit [RustStd] in
theorem relabelled_frame (cached : DecisionResponse) (key : CacheKey) :
    (relabelled cached key).answers = cached.answers ∧
      (relabelled cached key).outcome = cached.outcome ∧
      (cached.escalation = none → (relabelled cached key).escalation = none) := by
  unfold relabelled
  split
  · rename_i response h
    obtain ⟨ha, ho, -, -, -, he⟩ := DecisionResponse.new_ok h
    exact ⟨ha, ho, fun _ => he⟩
  · exact ⟨rfl, rfl, id⟩

theorem cachedResponse_frame (cached : DecisionResponse) (key : CacheKey) :
    (cachedResponse cached key).answers = cached.answers ∧
      (cachedResponse cached key).outcome = cached.outcome ∧
      (cachedResponse cached key).escalation = cached.escalation := by
  obtain ⟨ha, ho, he⟩ := relabelled_frame cached key
  unfold cachedResponse withEscalationFor
  cases hc : cached.escalation with
  | none => exact ⟨ha, ho, he hc⟩
  | some report =>
    cases hw : (relabelled cached key).withEscalation report with
    | error e => simp [hw, hc]
    | ok response =>
      obtain ⟨hwa, hwo, -, hwe⟩ := DecisionResponse.withEscalation_frame hw
      simp [hw, hwa, ha, hwo, ho, hwe]

end Decide

end DecisionEngine

end OpenCodifier
