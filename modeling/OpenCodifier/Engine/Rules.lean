import OpenCodifier.Core.Response
import OpenCodifier.Core.Question
import OpenCodifier.Engine.Error
import OpenCodifier.Engine.Lexical
set_option autoImplicit false

namespace OpenCodifier

inductive Condition where
  | factEquals (fact : String) (value : FactValue)
  | factGt (fact : String) (value : ℚ)
  | factGte (fact : String) (value : ℚ)
  | factLt (fact : String) (value : ℚ)
  | factLte (fact : String) (value : ℚ)
  | factContains (fact : String) (needle : String)
  | listContains (fact : String) (item : String)
  | factExists (fact : String)
  | all (conditions : List Condition)
  | any (conditions : List Condition)
  | not (condition : Condition)

namespace Condition

mutual

def beq : Condition → Condition → Bool
  | factEquals f v, factEquals f' v' => f = f' && v = v'
  | factGt f v, factGt f' v' => f = f' && v = v'
  | factGte f v, factGte f' v' => f = f' && v = v'
  | factLt f v, factLt f' v' => f = f' && v = v'
  | factLte f v, factLte f' v' => f = f' && v = v'
  | factContains f n, factContains f' n' => f = f' && n = n'
  | listContains f i, listContains f' i' => f = f' && i = i'
  | factExists f, factExists f' => f = f'
  | all cs, all ds => beqAll cs ds
  | any cs, any ds => beqAll cs ds
  | not c, not d => beq c d
  | _, _ => false

def beqAll : List Condition → List Condition → Bool
  | [], [] => true
  | c :: cs, d :: ds => beq c d && beqAll cs ds
  | _, _ => false

end

mutual

theorem beq_iff (c d : Condition) : beq c d = true ↔ c = d := by
  cases c with
  | all cs => cases d <;> simp [beq, beqAll_iff cs]
  | any cs => cases d <;> simp [beq, beqAll_iff cs]
  | not c => cases d <;> simp [beq, beq_iff c]
  | _ => cases d <;> simp [beq]

theorem beqAll_iff (cs ds : List Condition) : beqAll cs ds = true ↔ cs = ds := by
  cases cs with
  | nil => cases ds <;> simp [beqAll]
  | cons c cs => cases ds <;> simp [beqAll, beq_iff c, beqAll_iff cs]

end

instance : DecidableEq Condition := fun c d => decidable_of_iff _ (beq_iff c d)

def compareFact (state : State) (fact : String) (value : ℚ) : Option Ordering :=
  ((state.fact fact).bind FactValue.asF64).map fun found => compare found value

mutual

def Matches (state : State) : Condition → Bool
  | factEquals fact value => state.fact fact = some value
  | factGt fact value => compareFact state fact value = some .gt
  | factGte fact value =>
    compareFact state fact value = some .gt || compareFact state fact value = some .eq
  | factLt fact value => compareFact state fact value = some .lt
  | factLte fact value =>
    compareFact state fact value = some .lt || compareFact state fact value = some .eq
  | factContains fact needle =>
    ((state.fact fact).bind FactValue.asStr).any fun text => needle.toList <:+: text.toList
  | listContains fact item => (state.fact fact).any (FactValue.listContains item)
  | factExists fact => (state.fact fact).isSome
  | all conditions => allMatch state conditions
  | any conditions => anyMatch state conditions
  | not condition => !Matches state condition

def allMatch (state : State) : List Condition → Bool
  | [] => true
  | c :: cs => Matches state c && allMatch state cs

def anyMatch (state : State) : List Condition → Bool
  | [] => false
  | c :: cs => Matches state c || anyMatch state cs

end

def invalid (reason : String) : EngineResult Unit := .error (.invalidRule reason)

/-- A name that is empty once trimmed. -/
def blank [RustStd] (text : String) : Bool := text.toList.all RustStd.isWhitespace

def validateFact [RustStd] (fact : String) : EngineResult Unit :=
  if blank fact then invalid "fact name must not be empty" else .ok ()

mutual

def validate [RustStd] : Condition → EngineResult Unit
  | factEquals fact _ => validateFact fact
  | factExists fact => validateFact fact
  | factGt fact _ => validateFact fact
  | factGte fact _ => validateFact fact
  | factLt fact _ => validateFact fact
  | factLte fact _ => validateFact fact
  | factContains fact needle => do
    validateFact fact
    if needle = "" then invalid "fact_contains needle must not be empty" else .ok ()
  | listContains fact item => do
    validateFact fact
    if item = "" then invalid "list_contains item must not be empty" else .ok ()
  | all conditions =>
    if conditions.isEmpty then invalid "composite conditions must not be empty"
    else validateAll conditions
  | any conditions =>
    if conditions.isEmpty then invalid "composite conditions must not be empty"
    else validateAll conditions
  | not condition => validate condition

def validateAll [RustStd] : List Condition → EngineResult Unit
  | [] => .ok ()
  | c :: cs => do
    validate c
    validateAll cs

end

end Condition

inductive Action where
  | setFact (fact : String) (value : FactValue)
  | excludeCandidate (id tag : Option String)
  | includeCandidate (id tag : Option String)
  deriving DecidableEq

def Action.emptySelector (id tag : Option String) : Bool :=
  id.all (· = "") && tag.all (· = "")

def Action.validate [RustStd] : Action → EngineResult Unit
  | .setFact fact _ =>
    if Condition.blank fact then .error (.invalidRule "set_fact fact name must not be empty")
    else .ok ()
  | .excludeCandidate id tag =>
    if emptySelector id tag then .error (.invalidRule "candidate selectors need an id or a tag")
    else .ok ()
  | .includeCandidate id tag =>
    if emptySelector id tag then .error (.invalidRule "candidate selectors need an id or a tag")
    else .ok ()

structure Rule where
  name : Option String
  when' : Condition
  then' : List Action
  deriving DecidableEq

def Rule.validate [RustStd] (r : Rule) : EngineResult Unit := do
  if r.then'.isEmpty then .error (.invalidRule "a rule must declare at least one action")
  r.when'.validate
  r.then'.forM Action.validate

/-- What a rule run decided: facts to set in order, and the candidates each
question loses or keeps. -/
structure RuleReport where
  fired : List String := []
  factsSet : List (String × FactValue) := []
  excluded : OrdMap QuestionId (List CandidateId) := OrdMap.empty
  pinned : OrdMap QuestionId (List CandidateId) := OrdMap.empty
  deriving DecidableEq

namespace RuleReport

def exclusionsFor (r : RuleReport) (question : QuestionId) : List CandidateId :=
  (r.excluded.get? question).getD []

def pinsFor (r : RuleReport) (question : QuestionId) : List CandidateId :=
  (r.pinned.get? question).getD []

def applyTo (r : RuleReport) (state : State) : State :=
  r.factsSet.foldl (fun s f => s.withFact f.1 f.2) state

end RuleReport

section Selection

variable [RustStd]

def matchesSelector (candidate : Candidate) (id tag : Option String) : Bool :=
  id.any (candidate.id.text = ·) ||
  tag.any fun tag =>
    candidate.id.text = tag ||
      (Lexical.tokenize candidate.description).contains (RustStd.toLowercase tag)

/-- Add the matching candidates of one question to its bucket, once each. -/
def collectQuestion (id tag : Option String) (into : OrdMap QuestionId (List CandidateId))
    (question : ChoiceQuestion) : OrdMap QuestionId (List CandidateId) :=
  question.candidates.foldl (fun m c =>
    if matchesSelector c id tag then
      let bucket := (m.get? question.id).getD []
      m.insert question.id (if c.id ∈ bucket then bucket else bucket ++ [c.id])
    else m) into

def collectMatches (questions : List DecisionQuestion) (id tag : Option String)
    (into : OrdMap QuestionId (List CandidateId)) : OrdMap QuestionId (List CandidateId) :=
  questions.foldl (fun m q =>
    match q with
    | .choice question => collectQuestion id tag m question
    | _ => m) into

def applyAction (questions : List DecisionQuestion) (acc : State × RuleReport) :
    Action → State × RuleReport
  | .setFact fact value =>
    (acc.1.withFact fact value,
      { acc.2 with factsSet := acc.2.factsSet ++ [(fact, value)] })
  | .excludeCandidate id tag =>
    (acc.1, { acc.2 with excluded := collectMatches questions id tag acc.2.excluded })
  | .includeCandidate id tag =>
    (acc.1, { acc.2 with pinned := collectMatches questions id tag acc.2.pinned })

def ruleName (index : Nat) (rule : Rule) : String :=
  rule.name.getD ("rule[" ++ toString index ++ "]")

/-- One rule: skipped unless its condition holds of the working state. -/
def applyRule (questions : List DecisionQuestion) (acc : State × RuleReport)
    (entry : Rule × Nat) : State × RuleReport :=
  if entry.1.when'.Matches acc.1 then
    let acc := (acc.1, { acc.2 with fired := acc.2.fired ++ [ruleName entry.2 entry.1] })
    entry.1.then'.foldl (applyAction questions) acc
  else acc

structure RuleEngine where
  rules : List Rule
  valid : ∀ r ∈ rules, r.validate = .ok ()

def RuleEngine.firstInvalid (rules : List Rule) : Option EngineError :=
  rules.zipIdx.findSome? fun entry =>
    match entry.1.validate with
    | .ok () => none
    | .error (.invalidRule reason) =>
      some (.invalidRule ("rule[" ++ toString entry.2 ++ "]: " ++ reason))
    | .error other => some other

theorem RuleEngine.firstInvalid_none {rules : List Rule} (h : firstInvalid rules = none) :
    ∀ r ∈ rules, r.validate = .ok () := by
  intro r hr
  obtain ⟨i, hi⟩ := List.mem_iff_getElem?.mp hr
  have hm : (r, i) ∈ rules.zipIdx := List.mem_zipIdx_iff_getElem?.mpr hi
  have hv := List.findSome?_eq_none_iff.mp h _ hm
  split at hv
  · assumption
  · cases hv
  · cases hv

def RuleEngine.new (rules : List Rule) : EngineResult RuleEngine :=
  match h : RuleEngine.firstInvalid rules with
  | some error => .error error
  | none => .ok ⟨rules, RuleEngine.firstInvalid_none h⟩

def RuleEngine.evaluate (engine : RuleEngine) (state : State)
    (questions : List DecisionQuestion) : RuleReport :=
  (engine.rules.zipIdx.foldl (applyRule questions) (state, {})).2

end Selection

end OpenCodifier
