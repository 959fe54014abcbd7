import Mathlib.Data.Finset.Card
import OpenCodifier.Lib.Result
import OpenCodifier.Engine.Ladder
set_option autoImplicit false

namespace OpenCodifier

/-- Why a decision abstained ahead of the confidence gate. -/
inductive AbstainReason where
  | elicited
  | labelOverlap
  deriving DecidableEq

structure QuestionDecision where
  question : DecisionQuestion
  distribution : Distribution
  answer : DecisionAnswer
  report : ConfidenceReport
  outcome : DecisionOutcome
  verificationTriggered : Bool
  booleanFlipped : Bool
  abstained : Option AbstainReason
  labelOverlap : Option (ℚ × String)
  decidedBy : String × NodeKind
  deriving DecidableEq

def expectedValue (d : Distribution) : ℚ :=
  (d.entries.zipIdx.map fun e => e.1.probability * (e.2 : ℚ)).sum

def answerOf (question : DecisionQuestion) (d : Distribution) (verdict : Option (Bool × ℚ))
    (confidence : ℚ) : EngineResult DecisionAnswer :=
  match question with
  | .choice q => do
    let choice ← ofCore (Ident.new d.top.key)
    pure (.choice q.id choice d confidence)
  | .boolean q =>
    match verdict with
    | some (value, mass) => .ok (.boolean q.id value mass confidence)
    | none => .ok (.boolean q.id (d.top.key = "true") d.top.probability confidence)
  | .score q =>
    let expected := expectedValue d
    .ok (.score q.id expected (q.levelFor expected).label d confidence)

theorem answerOf_questionId {question : DecisionQuestion} {d : Distribution}
    {verdict : Option (Bool × ℚ)} {confidence : ℚ} {answer : DecisionAnswer}
    (h : answerOf question d verdict confidence = .ok answer) :
    answer.questionId = question.id := by
  cases question with
  | choice q =>
    obtain ⟨choice, _, hc⟩ := Result.bind_ok.mp h
    cases hc
    rfl
  | boolean q =>
    cases verdict with
    | none => cases h; rfl
    | some v => cases h; rfl
  | score q => cases h; rfl

variable [RustStd]

def distributionalOod (d : Distribution) : ℚ :=
  if d.entries.length < 2 then 0
  else max 0 (min 1 (d.entropy / RustStd.log2 d.entries.length))

def labelTokens (c : Candidate) : Finset String :=
  ((((RustStd.toLowercase c.id.text).toList.splitOnP fun ch => !ch.isAlphanum).map
    String.ofList).filter (· ≠ "")).toFinset

/-- Jaccard overlap of two names. -/
def labelSimilarity (left right : Candidate) : ℚ :=
  let union := (labelTokens left ∪ labelTokens right).card
  if union = 0 then 0 else (labelTokens left ∩ labelTokens right).card / (union : ℚ)

def scanPairs {α : Type} : List α → List (α × α)
  | [] => []
  | a :: rest => rest.map (fun b => (a, b)) ++ scanPairs rest

def bestPair (best : Option (ℚ × Candidate × Candidate)) (pair : Candidate × Candidate) :
    Option (ℚ × Candidate × Candidate) :=
  let score := labelSimilarity pair.1 pair.2
  match best with
  | none => some (score, pair)
  | some top => if top.1 < score then some (score, pair) else best

def maxLabelOverlap (candidates : List Candidate) : Option (ℚ × String) :=
  if candidates.length < 2 then none
  else ((scanPairs candidates).foldl bestPair none).map fun best =>
    (best.1, best.2.1.id.text ++ "|" ++ best.2.2.id.text)

/-- The overlap measurement when the policy opts in and the question is a choice;
the configured abstain candidate is not scanned. -/
def measureLabelOverlap (question : DecisionQuestion) (policy : DecisionPolicy) :
    Option (ℚ × String) :=
  match question, policy.maxLabelOverlap with
  | .choice q, some _ =>
    maxLabelOverlap (q.candidates.filter fun c =>
      some c.id.text ≠ policy.abstainCandidate.map AbstainCandidate.id)
  | _, _ => none

def allowedKeys (question : DecisionQuestion) : List String := answerKeys question

def clipPairs (kept : List DistributionEntry) : List (String × ℚ) :=
  let total := (kept.map DistributionEntry.probability).sum
  if total ≤ 0 then kept.map fun e => (e.key, 1 / (kept.length : ℚ))
  else kept.map fun e => (e.key, e.probability / total)

/-- Restrict a distribution to the answers that still exist and renormalize; the
count of dropped entries goes to the trace. -/
def clip (d : Distribution) (question : DecisionQuestion) : EngineResult (Distribution × Nat) :=
  let kept := d.entries.filter fun e => e.key ∈ allowedKeys question
  if kept = [] then
    .error (.invalidDistribution question.id.text "no key overlaps the surviving answer set")
  else match Distribution.fromPairs (clipPairs kept) with
    | .ok normalized => .ok (normalized, d.entries.length - kept.length)
    | .error e => .error (.invalidDistribution question.id.text e.display)

def booleanKey (value : Bool) : String := if value then "true" else "false"

/-- The verdict a Boolean threshold selects when it disagrees with the argmax,
with its own mass. -/
def flippedBooleanVerdict (d : Distribution) (threshold : ℚ) : Option (Bool × ℚ) :=
  let pTrue := (d.probabilityOf "true").getD 0
  let value : Bool := threshold ≤ pTrue
  if d.top.key = booleanKey value then none
  else some (value, if value then pTrue else 1 - pTrue)

/-- The flipped verdict of a question under a policy: Boolean questions only. -/
def booleanVerdict (question : DecisionQuestion) (d : Distribution) (policy : DecisionPolicy) :
    Option (Bool × ℚ) :=
  match question, policy.booleanThreshold with
  | .boolean _, some threshold => flippedBooleanVerdict d threshold
  | _, _ => none

def abstainElicited (question : DecisionQuestion) (topKey : String) (policy : DecisionPolicy) :
    Bool :=
  match question, policy.abstainCandidate with
  | .choice q, some candidate =>
    topKey = candidate.id && q.candidates.any fun c => c.id.text = candidate.id
  | _, _ => false

def overlapAbstained (question : DecisionQuestion) (overlap : Option (ℚ × String))
    (policy : DecisionPolicy) : Bool :=
  match question, policy.maxLabelOverlap with
  | .choice _, some limit => overlap.any fun m => limit ≤ m.1
  | _, _ => false

def abstainReason (question : DecisionQuestion) (d : Distribution) (policy : DecisionPolicy) :
    Option AbstainReason :=
  if abstainElicited question d.top.key policy then some .elicited
  else if overlapAbstained question (measureLabelOverlap question policy) policy then
    some .labelOverlap
  else none

def oodScore (d : Distribution) (policy : DecisionPolicy) (lexicalSupport : Option ℚ) : ℚ :=
  match policy.oodMode with
  | .lexicalBand =>
    match lexicalSupport with
    | some coverage => 1 - coverage
    | none => distributionalOod d
  | .answerEntropy => distributionalOod d

def calibratedConfidence (question : DecisionQuestion) (d : Distribution)
    (policy : DecisionPolicy) (calibration : Calibration) : ℚ :=
  match booleanVerdict question d policy with
  | some (_, mass) => calibration.calibrateProbability (questionClass question) mass
  | none => calibration.calibrate (questionClass question) d

/-- Turn a normalized distribution into an answer and a confidence report, gated
by the given policy. -/
def decideQuestion (question : DecisionQuestion) (d : Distribution) (policy : DecisionPolicy)
    (calibration : Calibration) (decidedBy : String) (decidedKind : NodeKind)
    (lexicalSupport : Option ℚ) : EngineResult QuestionDecision := do
  let verdict := booleanVerdict question d policy
  let abstained := abstainReason question d policy
  let report := ConfidenceReport.fromDistribution d
    (calibratedConfidence question d policy calibration) (oodScore d policy lexicalSupport) none
  let answer ← answerOf question d verdict report.calibratedConfidence
  pure {
    question
    distribution := d
    answer
    report
    outcome := if abstained.isSome then .abstain else report.outcomeFor policy
    verificationTriggered := false
    booleanFlipped := verdict.isSome
    abstained
    labelOverlap := measureLabelOverlap question policy
    decidedBy := (decidedBy, decidedKind) }

/-- Everything a successful decision says about its inputs. -/
theorem decideQuestion_ok {question : DecisionQuestion} {d : Distribution}
    {policy : DecisionPolicy} {calibration : Calibration} {decidedBy : String}
    {decidedKind : NodeKind} {lexicalSupport : Option ℚ} {decision : QuestionDecision}
    (h : decideQuestion question d policy calibration decidedBy decidedKind lexicalSupport =
      .ok decision) :
    decision.question = question ∧
    decision.distribution = d ∧
    decision.report = ConfidenceReport.fromDistribution d
      (calibratedConfidence question d policy calibration) (oodScore d policy lexicalSupport)
      none ∧
    decision.abstained = abstainReason question d policy ∧
    decision.outcome =
      (if decision.abstained.isSome then .abstain else decision.report.outcomeFor policy) ∧
    decision.verificationTriggered = false ∧
    decision.booleanFlipped = (booleanVerdict question d policy).isSome ∧
    answerOf question d (booleanVerdict question d policy)
      decision.report.calibratedConfidence = .ok decision.answer ∧
    decision.answer.questionId = question.id ∧
    decision.decidedBy = (decidedBy, decidedKind) := by
  obtain ⟨answer, ha, hd⟩ := Result.bind_ok.mp h
  cases hd
  exact ⟨rfl, rfl, rfl, rfl, rfl, rfl, rfl, ha, answerOf_questionId ha, rfl⟩

theorem clip_ok {d normalized : Distribution} {question : DecisionQuestion} {clipped : Nat}
    (h : clip d question = .ok (normalized, clipped)) :
    normalized.entries = (clipPairs (d.entries.filter fun e => e.key ∈ allowedKeys question)).map
      fun p => ⟨p.1, p.2⟩ := by
  unfold clip at h
  dsimp only at h
  split at h
  · cases h
  · split at h
    · rename_i n hn
      cases h
      exact Distribution.new_entries hn
    · cases h

end OpenCodifier
