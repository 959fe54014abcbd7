import OpenCodifier.Engine.History
set_option autoImplicit false

namespace OpenCodifier

/-- A standard library for sample runs. Its logarithm is exact on powers of two;
what no sample run reads is constant. -/
abbrev plainStd : RustStd where
  log2 x := if 1 ≤ x then (Nat.log2 ⌊x⌋.toNat : ℚ) else -(Nat.log2 ⌊1 / x⌋.toNat : ℚ)
  ln _ := 0
  exp _ := 1
  sqrt _ := 1
  powf x _ := x
  display x := toString x
  isAlphanumeric := Char.isAlphanum
  isWhitespace := Char.isWhitespace
  toLowercase := String.map Char.toLower

namespace Sample

attribute [local instance] plainStd

def ident {kind : IdKind} (id : String)
    (h : decide (validateId id = .ok ()) = true := by exact Eq.refl true) : Ident kind :=
  ⟨id, of_decide_eq_true h⟩

def node (id : String) (kind : NodeKind) (deps : List String)
    (hid : decide (validateId id = .ok ()) = true := by exact Eq.refl true)
    (hdeps : decide (∀ d ∈ deps, validateId d = .ok ()) = true := by exact Eq.refl true) : NodeSpec where
  id := ident id hid
  kind := kind
  dependsOn := deps.attach.map fun d => ⟨d.1, of_decide_eq_true hdeps d.1 d.2⟩
  threshold := if kind = .threshold then some 0 else none

def graph (nodes : List NodeSpec)
    (h : (DecisionGraph.new 1 nodes).toOption.isSome = true := by decide +kernel) :
    DecisionGraph :=
  (DecisionGraph.new 1 nodes).toOption.get h

def newChoice (id : String) (candidates : List String) : CoreResult ChoiceQuestion := do
  let candidates ← candidates.mapM fun c => Candidate.new c c
  ChoiceQuestion.new id "pick one" candidates

def choice (id : String) (candidates : List String)
    (h : (newChoice id candidates).toOption.isSome = true := by exact Eq.refl true) : DecisionQuestion :=
  .choice ((newChoice id candidates).toOption.get h)

def boolean (id : String)
    (h : (BooleanQuestion.new id "is it so").toOption.isSome = true := by exact Eq.refl true) :
    DecisionQuestion :=
  .boolean ((BooleanQuestion.new id "is it so").toOption.get h)

def newScore (id : String) (levels : List String) : CoreResult ScoreQuestion := do
  let levels ← levels.mapM ScoreLevel.new
  ScoreQuestion.new id "how much" levels

def score (id : String) (levels : List String)
    (h : (newScore id levels).toOption.isSome = true := by exact Eq.refl true) : DecisionQuestion :=
  .score ((newScore id levels).toOption.get h)

def distribution (pairs : List (String × ℚ))
    (h : (Distribution.fromPairs pairs).toOption.isSome = true := by decide +kernel) :
    Distribution :=
  (Distribution.fromPairs pairs).toOption.get h

def certain : Distribution := distribution [("a", 1), ("b", 0)]

def mostly : Distribution := distribution [("a", 3 / 4), ("b", 1 / 4)]

def even : Distribution := distribution [("a", 1 / 2), ("b", 1 / 2)]

def yes : Distribution := distribution [("true", 1), ("false", 0)]

/-- A classifier that answers one question from a table and the others uniformly. -/
def scripted (modelId question : String) (d : Distribution) : Classifier :=
  MockClassifier.classifier modelId (OrdMap.empty.insert question d)

def request (questions : List DecisionQuestion) (policy : DecisionPolicy)
    (h : questions.isEmpty = false := by exact Eq.refl false) : DecisionRequest :=
  ⟨State.fromText "ticket", questions, policy, {}, List.isEmpty_eq_false_iff.mp h⟩

def noRules : RuleEngine := ⟨[], by simp⟩

def executor (graph : DecisionGraph) (request : DecisionRequest) (classifier : Classifier)
    (verifier : Option Classifier) (fallbacks : List Rung) : Executor where
  config := { graph, rules := noRules }
  classifier := classifier
  verifier := verifier
  fallbacks := fallbacks
  request := request
  key := "sample"
  guard := fun _ => .ok ()

def gateGraph : DecisionGraph :=
  graph [node "in" .normalize [], node "judge" .choice ["in"], node "gate" .threshold ["judge"],
    node "out" .output ["gate"]]

end Sample

end OpenCodifier
