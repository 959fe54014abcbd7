import OpenCodifier.Lib.Result
import OpenCodifier.Core.Escalation
set_option autoImplicit false

namespace OpenCodifier

/-- One decision request; there is always a question to decide, and question ids
may repeat because nothing rejects that. -/
structure DecisionRequest where
  state : State
  questions : List DecisionQuestion
  policy : DecisionPolicy
  metadata : RequestMetadata
  questions_ne : questions ≠ []
  deriving DecidableEq

namespace DecisionRequest

def candidateCount : DecisionQuestion → Nat
  | .choice q => q.candidates.length
  | _ => 0

def new (state : State) (questions : List DecisionQuestion) (policy : DecisionPolicy)
    (metadata : RequestMetadata) : CoreResult DecisionRequest :=
  let limits := metadata.limits
  if hq : questions = [] then .error .emptyQuestions
  else if questions.length > limits.maxQuestions then
    .error (.invalidPolicy ("request carries " ++ toString questions.length
      ++ " questions, limit is " ++ toString limits.maxQuestions))
  else if state.text.utf8ByteSize > limits.maxInputBytes then
    .error (.invalidPolicy ("state text is " ++ toString state.text.utf8ByteSize
      ++ " bytes, limit is " ++ toString limits.maxInputBytes))
  else if state.images.length > limits.maxImages then
    .error (.tooManyImages state.images.length limits.maxImages)
  else match state.images.find? fun image => limits.maxImageBytes < image.data.length with
    | some image => .error (.imageTooLarge image.data.length limits.maxImageBytes)
    | none =>
      match questions.find? fun q => limits.maxCandidates < candidateCount q with
      | some q =>
        .error (.invalidPolicy ("question `" ++ q.id.text ++ "` carries "
          ++ toString (candidateCount q) ++ " candidates, limit is "
          ++ toString limits.maxCandidates))
      | none => .ok ⟨state, questions, policy, metadata, hq⟩

def questionIds (r : DecisionRequest) : List QuestionId := r.questions.map DecisionQuestion.id

theorem new_ok {state : State} {questions : List DecisionQuestion} {policy : DecisionPolicy}
    {metadata : RequestMetadata} {r : DecisionRequest}
    (h : DecisionRequest.new state questions policy metadata = .ok r) :
    r.state = state ∧ r.questions = questions ∧ r.policy = policy ∧ r.metadata = metadata := by
  simp only [new] at h
  repeat' split at h
  all_goals cases h
  simp

theorem new_self {state : State} {questions : List DecisionQuestion} {policy : DecisionPolicy}
    {metadata : RequestMetadata} {r : DecisionRequest}
    (h : DecisionRequest.new state questions policy metadata = .ok r) :
    DecisionRequest.new r.state r.questions r.policy r.metadata = .ok r := by
  obtain ⟨rfl, rfl, rfl, rfl⟩ := new_ok h
  exact h

end DecisionRequest

structure Admitted (limits : Limits) (state : State) (questions : List DecisionQuestion) : Prop where
  nonempty : questions ≠ []
  count : questions.length ≤ limits.maxQuestions
  bytes : state.text.utf8ByteSize ≤ limits.maxInputBytes
  images : state.images.length ≤ limits.maxImages
  imageBytes : ∀ image ∈ state.images, image.data.length ≤ limits.maxImageBytes
  candidates : ∀ q ∈ questions, DecisionRequest.candidateCount q ≤ limits.maxCandidates

namespace DecisionRequest

theorem new_of_admitted {state : State} {questions : List DecisionQuestion}
    (policy : DecisionPolicy) (metadata : RequestMetadata)
    (h : Admitted metadata.limits state questions) :
    DecisionRequest.new state questions policy metadata =
      .ok ⟨state, questions, policy, metadata, h.nonempty⟩ := by
  have himages : state.images.find? (fun image =>
      metadata.limits.maxImageBytes < image.data.length) = none :=
    List.find?_eq_none.mpr fun image hi => by simpa using h.imageBytes image hi
  have hcandidates : questions.find? (fun q =>
      metadata.limits.maxCandidates < candidateCount q) = none :=
    List.find?_eq_none.mpr fun q hq => by simpa using h.candidates q hq
  simp only [DecisionRequest.new]
  rw [dif_neg h.nonempty, if_neg (not_lt.mpr h.count), if_neg (not_lt.mpr h.bytes),
    if_neg (not_lt.mpr h.images), himages]
  simp only [hcandidates]

theorem admitted_of_new {state : State} {questions : List DecisionQuestion}
    {policy : DecisionPolicy} {metadata : RequestMetadata} {r : DecisionRequest}
    (h : DecisionRequest.new state questions policy metadata = .ok r) :
    Admitted metadata.limits state questions := by
  simp only [DecisionRequest.new] at h
  split at h
  · cases h
  · rename_i hne
    split at h
    · cases h
    · rename_i hcount
      split at h
      · cases h
      · rename_i hbytes
        split at h
        · cases h
        · rename_i himages
          split at h
          · cases h
          · rename_i hfindImage
            split at h
            · cases h
            · rename_i hfind
              refine ⟨hne, not_lt.mp hcount, not_lt.mp hbytes, not_lt.mp himages,
                fun image hi => ?_, fun q hq => ?_⟩
              · simpa using List.find?_eq_none.mp hfindImage image hi
              · simpa using List.find?_eq_none.mp hfind q hq

end DecisionRequest

structure DecisionTrace where
  traceVersion : Nat := 1
  entries : List TraceEntry
  deriving DecidableEq

/-- The result of one request. Only an escalated response carries a report. -/
structure DecisionResponse where
  answers : List DecisionAnswer
  outcome : DecisionOutcome
  confidence : ConfidenceReport
  trace : DecisionTrace
  metrics : DecisionMetrics
  escalation : Option EscalationReport
  decisive_answers : outcome.isDecisive = true → answers ≠ []
  answers_valid : ∀ a ∈ answers, a.validate = .ok ()
  escalation_outcome : escalation ≠ none → outcome = .escalate
  deriving DecidableEq

namespace DecisionResponse

def new (answers : List DecisionAnswer) (outcome : DecisionOutcome)
    (confidence : ConfidenceReport) (trace : DecisionTrace) (metrics : DecisionMetrics) :
    CoreResult DecisionResponse :=
  if hd : outcome.isDecisive = true ∧ answers = [] then
    .error (.emptyField "answers (decisive outcome requires at least one)")
  else
    match hv : answers.mapM DecisionAnswer.validate with
    | .error e => .error e
    | .ok _ => .ok {
        answers, outcome, confidence, trace, metrics
        escalation := none
        decisive_answers := fun h he => hd ⟨h, he⟩
        answers_valid := fun _ ha => (Result.mapM_ok_mem hv ha).choose_spec.2
        escalation_outcome := fun h => absurd rfl h }

theorem new_ok {answers : List DecisionAnswer} {outcome : DecisionOutcome}
    {confidence : ConfidenceReport} {trace : DecisionTrace} {metrics : DecisionMetrics}
    {r : DecisionResponse} (h : new answers outcome confidence trace metrics = .ok r) :
    r.answers = answers ∧ r.outcome = outcome ∧ r.confidence = confidence ∧ r.trace = trace ∧
      r.metrics = metrics ∧ r.escalation = none := by
  unfold new at h
  split at h
  · cases h
  · split at h
    · cases h
    · cases h
      simp

def withEscalation [RustStd] (r : DecisionResponse) (report : EscalationReport) :
    CoreResult DecisionResponse :=
  match report.validate with
  | .error e => .error e
  | .ok () =>
    if h : r.outcome = .escalate then
      .ok { r with escalation := some report, escalation_outcome := fun _ => h }
    else
      .error (.invalidEscalation
        ("report attached to outcome " ++ debugName r.outcome ++ ", only Escalate carries one"))
where
  debugName : DecisionOutcome → String
    | .accept => "Accept"
    | .verified => "Verified"
    | .verify => "Verify"
    | .abstain => "Abstain"
    | .escalate => "Escalate"
    | .noValidCandidate => "NoValidCandidate"

theorem withEscalation_frame [RustStd] {r r' : DecisionResponse} {report : EscalationReport}
    (h : r.withEscalation report = .ok r') :
    r'.answers = r.answers ∧ r'.outcome = r.outcome ∧ r'.confidence = r.confidence ∧
      r'.escalation = some report := by
  unfold withEscalation at h
  split at h
  · cases h
  · split at h
    · cases h
      simp
    · cases h

end DecisionResponse

end OpenCodifier
