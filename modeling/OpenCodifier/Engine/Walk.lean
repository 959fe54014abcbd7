import OpenCodifier.Engine.Nodes
set_option autoImplicit false

namespace OpenCodifier.Executor

variable [RustStd] (ex : Executor) (s : RunState)

/-- The escalation walk of one question: the live decision, the decisions of the
rungs fired so far, and the trace of both. -/
structure Walk where
  live : QuestionDecision
  fired : List QuestionDecision
  chain : List String
  skipped : List String

/-- The policy a rung's decision is made under: its own or the node's. -/
def rungPolicy (policy : DecisionPolicy) (rung : Rung) : DecisionPolicy := rung.policy.getD policy

/-- An image rung does not fit a state without images. -/
def fits (rung : Rung) : Bool := !(rung.modality.isImage && !s.state.hasImages)

def fireRung (policy : DecisionPolicy) (rung : Rung) (live : QuestionDecision)
    (decidedBy : String × NodeKind) : EngineResult QuestionDecision := do
  let reading ← readClassifier rung.classifier s.state live.question none
  decideQuestion live.question reading.1 (rungPolicy policy rung)
    (rung.calibration.getD ex.config.calibration) decidedBy.1 decidedBy.2 reading.2.2

def chainText (policy : DecisionPolicy) (rung : Rung) (escalated : QuestionDecision) : String :=
  rung.classifier.modelId ++ "(top=" ++ escalated.distribution.top.key ++ ", "
    ++ outcomeName (escalated.report.outcomeFor (rungPolicy policy rung)) ++ ")"

/-- Walk the rungs in order while the live report is not accepted. -/
def walkRungs (id : NodeId) (question : QuestionId) (policy : DecisionPolicy)
    (decidedBy : String × NodeKind) : List (Rung × Nat) → Walk → EngineResult Walk
  | [], w => .ok w
  | (rung, index) :: rest, w =>
    if w.live.report.outcomeFor policy = .accept then .ok w
    else if !fits s rung then
      walkRungs id question policy decidedBy rest
        { w with skipped := w.skipped ++ [rung.classifier.modelId] }
    else do
      ex.guard (.rung id question index)
      let escalated ← ex.fireRung s policy rung w.live decidedBy
      walkRungs id question policy decidedBy rest
        { live := escalated
          fired := w.fired ++ [escalated]
          chain := w.chain ++ [chainText policy rung escalated]
          skipped := w.skipped }

def walk (id : NodeId) (question : QuestionId) (decision : QuestionDecision) :
    EngineResult Walk :=
  ex.walkRungs s id question (ex.policyFor decision.decidedBy.1 decision.decidedBy.2).1
    decision.decidedBy ex.fallbacks.zipIdx ⟨decision, [], [], []⟩

/-- The gate on the walk's final decision; an abstention is terminal. -/
def gate (policy : DecisionPolicy) (live : QuestionDecision) : DecisionOutcome :=
  if live.abstained.isSome then .abstain else live.report.outcomeFor policy

/-- The verifier runs exactly on a gated `Verify`. -/
def verify (live : QuestionDecision) (outcome : DecisionOutcome) :
    EngineResult (DecisionOutcome × Option Bool × String) :=
  if outcome = .verify then
    match ex.verifier with
    | some verifier => do
      let alternative ← verifier.decide s.state live.question
      if alternative.top.key = live.distribution.top.key then
        pure (.verified, some true, "agree")
      else pure (.abstain, some false, "disagree")
    | none => .ok (.verify, none, "none")
  else .ok (outcome, none, "none")

def walkFacts (w : Walk) : List (String × FactValue) :=
  (if w.chain ≠ [] then
    [("rungs_fired", FactValue.integer w.chain.length),
      ("rung_chain", FactValue.text (" -> ".intercalate w.chain))]
  else []) ++
  (if w.skipped ≠ [] then [("rungs_skipped", FactValue.text (" -> ".intercalate w.skipped))]
  else [])

structure Resolution where
  question : QuestionId
  outcome : DecisionOutcome
  agreement : Option Bool
  walk : Walk
  entry : TraceEntry

def resolveOne (id : NodeId) (entry : QuestionId × QuestionDecision) :
    EngineResult Resolution := do
  let policy := ex.policyFor entry.2.decidedBy.1 entry.2.decidedBy.2
  let w ← ex.walk s id entry.1 entry.2
  let verified ← ex.verify s w.live (gate policy.1 w.live)
  pure {
    question := entry.1
    outcome := verified.1
    agreement := verified.2.1
    walk := w
    entry := TraceEntry.new id.text
      ([("question", .text entry.1.text), ("threshold", .float policy.1.minConfidence),
        ("passed", .boolean (policy.1.minConfidence ≤ w.live.report.calibratedConfidence)),
        ("outcome", .text (outcomeName verified.1)), ("verifier", .text verified.2.2)] ++
        sourceFact "policy_source" policy.2 ++ walkFacts w) }

def lastIndex (replacements : List QuestionDecision) : OrdMap QuestionId Nat :=
  replacements.zipIdx.foldl (fun m e => m.insert e.1.answer.questionId e.2) OrdMap.empty

/-- One replacement per question: the last one fired for it, in question order. -/
def finalReplacements (replacements : List QuestionDecision) : List QuestionDecision :=
  (lastIndex replacements).values.filterMap fun i => replacements[i]?

/-- All questions share one vector of fired decisions. -/
def resolveThreshold (id : NodeId) : EngineResult NodeExecution := do
  let resolutions ← s.decisions.entries.mapM (ex.resolveOne s id)
  let replacements := resolutions.flatMap fun r => r.walk.fired
  pure ⟨.resolved (resolutions.map fun r => (r.question, r.outcome, r.agreement))
      (finalReplacements replacements),
    resolutions.map Resolution.entry⟩

end OpenCodifier.Executor
