import OpenCodifier.Core.Response
set_option autoImplicit false

namespace OpenCodifier

inductive EscalationReason where
  | belowConfidence
  deriving DecidableEq

inductive EscalationGateKind where
  | confidence
  deriving DecidableEq

inductive EscalationAction where
  | askTheHostModel
  deriving DecidableEq

structure EscalationGate where
  kind : EscalationGateKind
  threshold : ℚ
  observed : ℚ
  deriving DecidableEq

structure EngineProvenance where
  modelId : String
  graphVersion : Nat
  calibrationVersion : Nat
  engineSemver : String
  deriving DecidableEq

structure EscalationQuestion where
  kind : String
  text : String
  deriving DecidableEq

structure StateSummary where
  textBytes : Nat
  factCount : Nat
  imageCount : Nat
  deriving DecidableEq

structure CandidateEvidence where
  id : CandidateId
  why : String
  deriving DecidableEq

inductive PartialAnswerValue where
  | boolean (value : Bool)
  | text (value : String)
  deriving DecidableEq

structure PartialAnswer where
  value : PartialAnswerValue
  probability : ℚ
  deriving DecidableEq

structure EscalationPayload where
  question : EscalationQuestion
  stateSummary : StateSummary
  candidatesRuledIn : List CandidateEvidence
  candidatesRuledOut : List CandidateEvidence
  partialAnswer : Option PartialAnswer
  trace : List TraceEntry
  guidance : String
  truncated : Bool
  deriving DecidableEq

structure EscalationReport where
  reason : EscalationReason
  gate : EscalationGate
  requestedAction : EscalationAction
  engine : EngineProvenance
  payload : EscalationPayload
  deriving DecidableEq

/-- The longest prefix of at most `n` bytes that ends between characters. -/
def takeBytes : Nat → List Char → List Char
  | _, [] => []
  | n, c :: rest => if c.utf8Size ≤ n then c :: takeBytes (n - c.utf8Size) rest else []

def utf8Len (l : List Char) : Nat := (l.map Char.utf8Size).sum

theorem utf8Len_cons (c : Char) (l : List Char) : utf8Len (c :: l) = c.utf8Size + utf8Len l := rfl

theorem utf8Len_append (l m : List Char) : utf8Len (l ++ m) = utf8Len l + utf8Len m := by
  simp [utf8Len]

theorem utf8Len_takeBytes_le (n : Nat) (l : List Char) : utf8Len (takeBytes n l) ≤ n := by
  induction l generalizing n with
  | nil => simp [takeBytes, utf8Len]
  | cons c rest ih =>
    simp only [takeBytes]
    split
    · have h := ih (n - c.utf8Size)
      simp only [utf8Len, List.map_cons, List.sum_cons] at h ⊢
      omega
    · simp [utf8Len]

def isCharBoundary (n : Nat) (l : List Char) : Bool := utf8Len (takeBytes n l) == n

namespace EscalationReport

def invalid (reason : String) : CoreResult Unit := .error (.invalidEscalation reason)

/-- The checks of the source, in its order; the reason and the gate kind always
agree, each having one value. -/
def validate [RustStd] (r : EscalationReport) : CoreResult Unit :=
  if !isUnitInterval r.gate.threshold then
    invalid ("gate threshold must be a finite value in [0, 1], got "
      ++ RustStd.display r.gate.threshold)
  else if !isUnitInterval r.gate.observed then
    invalid ("gate observation must be a finite value in [0, 1], got "
      ++ RustStd.display r.gate.observed)
  else if r.reason = .belowConfidence ∧ r.gate.kind ≠ .confidence then
    invalid "reason `below_confidence` requires gate kind `confidence`"
  else if r.payload.question.kind = "" then invalid "question kind must not be empty"
  else if r.payload.question.text = "" then invalid "question text must not be empty"
  else if r.payload.guidance = "" then invalid "guidance must not be empty"
  else if r.engine.modelId = "" then invalid "engine model_id must not be empty"
  else if r.engine.engineSemver = "" then invalid "engine engine_semver must not be empty"
  else
    match (r.payload.candidatesRuledIn ++ r.payload.candidatesRuledOut).find? fun e =>
        e.why = "" with
    | some evidence =>
      invalid ("evidence for candidate `" ++ evidence.id.text ++ "` must say why")
    | none =>
      match r.payload.partialAnswer with
      | some answer =>
        if !isUnitInterval answer.probability then
          invalid ("partial answer probability must be a finite value in [0, 1], got "
            ++ RustStd.display answer.probability)
        else .ok ()
      | none => .ok ()

variable (serializedLen : EscalationReport → Nat)

def withTrace (r : EscalationReport) (trace : List TraceEntry) : EscalationReport :=
  { r with payload := { r.payload with trace } }

def withRuledOut (r : EscalationReport) (l : List CandidateEvidence) : EscalationReport :=
  { r with payload := { r.payload with candidatesRuledOut := l } }

def withRuledIn (r : EscalationReport) (l : List CandidateEvidence) : EscalationReport :=
  { r with payload := { r.payload with candidatesRuledIn := l } }

def withGuidance (r : EscalationReport) (guidance : String) : EscalationReport :=
  { r with payload := { r.payload with guidance } }

def cutTail {α : Type} (rebuild : List α → EscalationReport) (maxBytes : Nat) :
    (n : Nat) → List α → List α
  | 0, l => l
  | n + 1, l =>
    if serializedLen (rebuild l) > maxBytes ∧ l ≠ [] then
      cutTail rebuild maxBytes n l.dropLast
    else l

/-- The smallest cut of at least `cut` bytes that leaves a character boundary;
`len` itself when there is none before it. -/
def boundaryCut (guidance : List Char) (len : Nat) : (n : Nat) → Nat → Nat
  | 0, cut => cut
  | n + 1, cut =>
    if cut < len ∧ !isCharBoundary (len - cut) guidance then
      boundaryCut guidance len n (cut + 1)
    else cut

/-- Guidance is cut by an eighth at a time and never to nothing. -/
def cutGuidance (r : EscalationReport) (maxBytes : Nat) : (n : Nat) → List Char → List Char
  | 0, guidance => guidance
  | n + 1, guidance =>
    let len := utf8Len guidance
    if len = 0 then guidance
    else
      let cut := boundaryCut guidance len len (max (len / 8) 1)
      if len ≤ cut then guidance
      else
        let shorter := takeBytes (len - cut) guidance
        if serializedLen (r.withGuidance (String.ofList shorter)) ≤ maxBytes then shorter
        else cutGuidance r maxBytes n shorter

/-- Shrink a report to a byte budget: trace tail, ruled-out tail, ruled-in tail,
then guidance. -/
def fitTo (r : EscalationReport) (maxBytes : Nat) : EscalationReport :=
  if serializedLen r ≤ maxBytes then r
  else
    let r := { r with payload := { r.payload with truncated := true } }
    let r := r.withTrace
      (cutTail serializedLen r.withTrace maxBytes r.payload.trace.length r.payload.trace)
    let r := r.withRuledOut
      (cutTail serializedLen r.withRuledOut maxBytes r.payload.candidatesRuledOut.length
        r.payload.candidatesRuledOut)
    let r := r.withRuledIn
      (cutTail serializedLen r.withRuledIn maxBytes r.payload.candidatesRuledIn.length
        r.payload.candidatesRuledIn)
    if serializedLen r ≤ maxBytes then r
    else
      let guidance := r.payload.guidance.toList
      r.withGuidance (String.ofList (cutGuidance serializedLen r maxBytes guidance.length guidance))

theorem cutTail_initial {α : Type} (rebuild : List α → EscalationReport) (maxBytes n : Nat)
    (l : List α) : cutTail serializedLen rebuild maxBytes n l <+: l := by
  induction n generalizing l with
  | zero => exact List.prefix_rfl
  | succ n ih =>
    simp only [cutTail]
    split
    · exact (ih l.dropLast).trans <| List.dropLast_prefix l
    · exact List.prefix_rfl

/-- Fitting a report to a budget keeps its reason, its gate, its engine, its
question, its state summary and its partial answer. -/
theorem fitTo_frame (r : EscalationReport) (maxBytes : Nat) :
    (r.fitTo serializedLen maxBytes).gate = r.gate ∧
    (r.fitTo serializedLen maxBytes).reason = r.reason ∧
    (r.fitTo serializedLen maxBytes).engine = r.engine ∧
    (r.fitTo serializedLen maxBytes).payload.question = r.payload.question ∧
    (r.fitTo serializedLen maxBytes).payload.stateSummary = r.payload.stateSummary ∧
    (r.fitTo serializedLen maxBytes).payload.partialAnswer = r.payload.partialAnswer := by
  unfold fitTo
  split
  · simp
  · dsimp only
    split <;> simp [withTrace, withRuledOut, withRuledIn, withGuidance]

theorem fitTo_candidates (r : EscalationReport) (maxBytes : Nat) :
    (r.fitTo serializedLen maxBytes).payload.candidatesRuledIn <+: r.payload.candidatesRuledIn ∧
    (r.fitTo serializedLen maxBytes).payload.candidatesRuledOut <+:
      r.payload.candidatesRuledOut := by
  unfold fitTo
  split
  · exact ⟨List.prefix_rfl, List.prefix_rfl⟩
  · dsimp only
    split <;>
      exact ⟨cutTail_initial _ _ _ _ _, cutTail_initial _ _ _ _ _⟩

end EscalationReport

end OpenCodifier
