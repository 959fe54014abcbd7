import OpenCodifier.Lib.Kahn
import OpenCodifier.Lib.Worklist
import OpenCodifier.Lib.Result
import OpenCodifier.Core.Policy
import OpenCodifier.Engine.Rules
set_option autoImplicit false

namespace OpenCodifier

inductive NodeKind where
  | normalize
  | rule
  | cache
  | filter
  | lexical
  | choice
  | boolean
  | score
  | threshold
  | branch
  | embedding
  | retrieve
  | rerank
  | output
  deriving DecidableEq

def NodeKind.asStr : NodeKind → String
  | normalize => "normalize"
  | rule => "rule"
  | cache => "cache"
  | filter => "filter"
  | lexical => "lexical"
  | choice => "choice"
  | boolean => "boolean"
  | score => "score"
  | threshold => "threshold"
  | branch => "branch"
  | embedding => "embedding"
  | retrieve => "retrieve"
  | rerank => "rerank"
  | output => "output"

structure NodeSpec where
  id : NodeId
  kind : NodeKind
  dependsOn : List NodeId := []
  threshold : Option ℚ := none
  when' : Option Condition := none
  topN : Option Nat := none
  floor : Option ℚ := none
  reranker : Option String := none
  deriving DecidableEq

namespace NodeSpec

section Validate

variable [RustStd] (s : NodeSpec)

def invalid (reason : String) : EngineResult Unit :=
  .error (.invalidNode s.kind.asStr s.id.text reason)

def validateThreshold : EngineResult Unit :=
  match s.kind with
  | .threshold =>
    match s.threshold with
    | none => s.invalid "threshold nodes must declare a threshold"
    | some t =>
      if isUnitInterval t then .ok ()
      else s.invalid ("threshold must be finite in [0, 1], got " ++ RustStd.display t)
  | .branch =>
    if s.threshold.isSome then s.invalid "branch nodes must not declare a threshold" else .ok ()
  | other =>
    if s.threshold.isSome || s.when'.isSome then
      s.invalid (other.asStr ++ " nodes take neither a threshold nor a branch condition")
    else .ok ()

def validateKnobs : EngineResult Unit :=
  if s.topN.isSome || s.floor.isSome || s.reranker.isSome then
    if s.kind = .retrieve ∨ (s.kind = .rerank ∧ s.topN = none ∧ s.floor = none) then .ok ()
    else s.invalid "only `retrieve` takes top_n/floor, and only `rerank` takes reranker"
  else .ok ()

def validateRetrieve : EngineResult Unit :=
  if s.kind = .retrieve then
    if s.topN = some 0 ∨ s.topN = none then
      s.invalid "retrieve nodes must declare top_n of at least 1"
    else match s.floor with
      | some f =>
        if isUnitInterval f then .ok ()
        else s.invalid ("floor must be finite in [0, 1], got " ++ RustStd.display f)
      | none => .ok ()
  else .ok ()

def validateRerank : EngineResult Unit :=
  if s.kind = .rerank then
    if s.reranker = some "lexical" ∨ s.reranker = some "embedding" then .ok ()
    else s.invalid "rerank nodes must declare reranker as \"lexical\" or \"embedding\""
  else .ok ()

def validate : EngineResult Unit := do
  s.validateThreshold
  s.validateKnobs
  s.validateRetrieve
  s.validateRerank
  match s.when' with
  | some condition => condition.validate
  | none => .ok ()

end Validate

/-- The kinds whose nodes may be merged with an identical one. -/
def isPure (s : NodeSpec) : Bool :=
  match s.kind with
  | .normalize | .rule | .filter | .lexical | .embedding | .retrieve | .rerank | .choice
  | .boolean | .score | .branch => true
  | _ => false

def idOrder (left right : NodeSpec) : Prop := left.id ≤ right.id

instance : DecidableRel idOrder := fun _ _ => inferInstanceAs (Decidable (_ ≤ _))

end NodeSpec

def nodeIds (nodes : List NodeSpec) : List NodeId := nodes.map NodeSpec.id

def findNode (nodes : List NodeSpec) (id : NodeId) : Option NodeSpec :=
  nodes.find? fun n => n.id = id

def depsOf (nodes : List NodeSpec) (id : NodeId) : List NodeId :=
  ((findNode nodes id).map NodeSpec.dependsOn).getD []

def dependentsIn (nodes : List NodeSpec) (id : NodeId) : List NodeId :=
  nodeIds (nodes.filter fun n => id ∈ n.dependsOn)

/-- Pops a traversal of the dependents can take. -/
def traversalFuel (nodes : List NodeSpec) : Nat :=
  1 + ((nodeIds nodes).map fun id => (dependentsIn nodes id).length).sum

/-- The nodes a traversal of the dependents reaches; its frontier is a stack
whose top is the node pushed last. -/
def reachableFrom (nodes : List NodeSpec) (root : NodeId) : List NodeId :=
  Worklist.explore (fun id => (dependentsIn nodes id).reverse) (traversalFuel nodes) [root] []

/-- The topological waves, and a stuck node when the dependencies are cyclic. -/
def wavesFor (nodes : List NodeSpec) : List (List NodeId) × Option String :=
  let layers := Kahn.layers (nodeIds nodes) (depsOf nodes)
  let placed := (layers.1.map List.length).sum
  (layers.1,
    if placed = nodes.length then none
    else some (((nodes.find? fun n => (layers.2.get? n.id).any (0 < ·)).map
      fun n => n.id.text).getD ""))

section Checks

def adjacentRepeat : List NodeId → Option NodeId
  | a :: b :: rest => if a = b then some a else adjacentRepeat (b :: rest)
  | _ => none

def checkDependencies (nodes : List NodeSpec) (node : NodeSpec) (seen : List NodeId) :
    List NodeId → EngineResult Unit
  | [] => .ok ()
  | d :: rest =>
    if d ∈ seen then
      .error (.invalidNode node.kind.asStr node.id.text ("duplicate dependency `" ++ d.text ++ "`"))
    else if d ∉ nodeIds nodes then .error (.unknownDependency node.id.text d.text)
    else checkDependencies nodes node (d :: seen) rest

def checkRoot (nodes : List NodeSpec) : EngineResult Unit :=
  match nodes.filter fun n => n.dependsOn = [] with
  | [] => .error (.cycle ((nodes.head?.map fun n => n.id.text).getD ""))
  | [root] =>
    let reached := reachableFrom nodes root.id
    if reached.length ≠ nodes.length then
      .error (.unreachableNode
        (((nodes.find? fun n => n.id ∉ reached).map fun n => n.id.text).getD root.id.text))
    else .ok ()
  | roots => .error (.multipleRoots roots.length)

def checkOutput (nodes : List NodeSpec) : EngineResult Unit :=
  match nodes.filter fun n => n.kind = .output with
  | [] => .error .missingOutput
  | [output] =>
    if output.dependsOn = [] then .error (.outputWithoutDependency output.id.text)
    else match nodes.find? fun n => output.id ∈ n.dependsOn with
      | some dependent => .error (.outputNotTerminal output.id.text dependent.id.text)
      | none => .ok ()
  | outputs => .error (.multipleOutputs outputs.length)

def checkUnique (nodes : List NodeSpec) : EngineResult Unit :=
  match adjacentRepeat (nodeIds nodes) with
  | some id => .error (.duplicateNode id.text)
  | none => .ok ()

/-- The waves are recomputed on demand; here they only witness acyclicity. -/
def checkAcyclic (nodes : List NodeSpec) : EngineResult Unit :=
  match (wavesFor nodes).2 with
  | some stuck => .error (.cycle stuck)
  | none => .ok ()

def checkGraph (nodes : List NodeSpec) : EngineResult Unit := do
  checkUnique nodes
  nodes.forM fun n => checkDependencies nodes n [] n.dependsOn
  checkAcyclic nodes
  checkRoot nodes
  checkOutput nodes

end Checks

structure WellFormed (nodes : List NodeSpec) : Prop where
  sorted : (nodeIds nodes).Pairwise (· < ·)
  deps_nodup : ∀ n ∈ nodes, n.dependsOn.Nodup
  deps_known : ∀ n ∈ nodes, ∀ d ∈ n.dependsOn, d ∈ nodeIds nodes
  acyclic : ∃ rank : NodeId → Nat, ∀ n ∈ nodes, ∀ d ∈ n.dependsOn, rank d < rank n.id
  one_root : ∃ root, nodes.filter (fun n => n.dependsOn = []) = [root]
  one_output : ∃ output, nodes.filter (fun n => n.kind = .output) = [output]
  output_deps : ∀ n ∈ nodes, n.kind = .output → n.dependsOn ≠ []
  output_terminal : ∀ n ∈ nodes, n.kind = .output → ∀ m ∈ nodes, n.id ∉ m.dependsOn

section Lookup

variable {nodes : List NodeSpec}

theorem findNode_some {id : NodeId} {n : NodeSpec} (h : findNode nodes id = some n) :
    n ∈ nodes ∧ n.id = id := by
  unfold findNode at h
  exact ⟨List.mem_of_find?_eq_some h, by simpa using List.find?_some h⟩

theorem findNode_mem (hs : (nodeIds nodes).Nodup) {n : NodeSpec} (hn : n ∈ nodes) :
    findNode nodes n.id = some n := by
  unfold findNode
  induction nodes with
  | nil => simp at hn
  | cons m nodes ih =>
    rw [nodeIds, List.map_cons, List.nodup_cons] at hs
    by_cases hm : m.id = n.id
    · rw [List.find?_cons_of_pos (by simpa using hm)]
      rcases List.mem_cons.mp hn with rfl | hn
      · rfl
      · exact absurd (hm ▸ List.mem_map_of_mem hn) hs.1
    · rw [List.find?_cons_of_neg (by simpa using hm)]
      rcases List.mem_cons.mp hn with rfl | hn
      · exact absurd rfl hm
      · exact ih hs.2 hn

theorem depsOf_mem (hs : (nodeIds nodes).Nodup) {n : NodeSpec} (hn : n ∈ nodes) :
    depsOf nodes n.id = n.dependsOn := by
  simp [depsOf, findNode_mem hs hn]

theorem mem_nodeIds {id : NodeId} : id ∈ nodeIds nodes ↔ ∃ n ∈ nodes, n.id = id := by
  simp [nodeIds]

theorem mem_dependentsIn {id m : NodeId} :
    m ∈ dependentsIn nodes id ↔ ∃ n ∈ nodes, id ∈ n.dependsOn ∧ n.id = m := by
  simp [dependentsIn, nodeIds, and_assoc]

theorem node_ext_id (hs : (nodeIds nodes).Nodup) {m n : NodeSpec} (hm : m ∈ nodes) (hn : n ∈ nodes)
    (h : m.id = n.id) : m = n := by
  have h₁ := findNode_mem hs hm
  rw [h, findNode_mem hs hn] at h₁
  exact (Option.some.inj h₁).symm

end Lookup

end OpenCodifier
