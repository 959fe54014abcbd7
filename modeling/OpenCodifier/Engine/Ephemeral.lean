import OpenCodifier.Engine.Identity
import OpenCodifier.Engine.Relational
set_option autoImplicit false

namespace OpenCodifier

variable [RustStd]

section Assembly

def NodeSpec.needsEmbedding (n : NodeSpec) : Bool :=
  match n.kind with
  | .embedding | .retrieve => true
  | .rerank => n.reranker = some "embedding"
  | _ => false

def DecisionGraph.exceeds (g : DecisionGraph) (limit : Nat) : Bool := limit < g.nodes.length

def EngineConfig.new (graph : DecisionGraph) : EngineConfig := { graph, rules := ⟨[], by simp⟩ }

def EngineConfig.checkNode (config : EngineConfig) (n : NodeSpec) : EngineResult Unit :=
  if n.needsEmbedding && config.embedding.isNone then
    .error (.missingBackend n.id.text "embedding")
  else if config.safeMode && n.kind = .retrieve then
    .error (.invalidConfig ("safe mode forbids retrieval pruning: node `" ++ n.id.text ++
      "` eliminates candidates on semantic evidence; assemble the engine with " ++
      "`with_safe_mode(false)` to run `retrieve` nodes"))
  else .ok ()

structure EngineSetup where
  parallelism : Nat
  identity : EngineIdentity
  cache : CacheConfig
  keyOf : DecisionRequest → EngineIdentity → EngineResult CacheKey
  serializedLen : EscalationReport → Nat

def nodeLimit : Nat := ({} : Limits).maxGraphNodes

def DecisionEngine.newWithRungs (setup : EngineSetup) (config : EngineConfig)
    (classifier : Classifier) (verifier : Option Classifier) (fallbacks : List Rung) :
    EngineResult DecisionEngine :=
  if setup.parallelism = 0 then .error (.invalidConfig "parallelism must be at least 1")
  else if config.lexicalPruneLimit = some 0 then
    .error (.invalidConfig "lexical_prune_limit must be at least 1 if set")
  else if config.graph.exceeds nodeLimit then
    .error (.graphTooLarge config.graph.nodes.length nodeLimit)
  else do
    let cache ← DecisionCache.new setup.cache
    config.graph.nodes.forM config.checkNode
    match hladder : config.ladder.validate with
    | .error reason => .error (.invalidConfig reason)
    | .ok () =>
      .ok {
        config
        identity := Assembly.identity ⟨config, classifier, fallbacks, hladder⟩ setup.identity
        cache
        classifier
        verifier
        fallbacks
        keyOf := setup.keyOf
        serializedLen := setup.serializedLen }

theorem DecisionEngine.newWithRungs_ok {setup : EngineSetup} {config : EngineConfig}
    {classifier : Classifier} {verifier : Option Classifier} {fallbacks : List Rung}
    {engine : DecisionEngine}
    (h : newWithRungs setup config classifier verifier fallbacks = .ok engine) :
    engine.config = config ∧ (∀ n ∈ config.graph.nodes, config.checkNode n = .ok ()) ∧
      DecisionCache.new setup.cache = .ok engine.cache ∧ engine.classifier = classifier ∧
      engine.verifier = verifier ∧ engine.fallbacks = fallbacks ∧ engine.keyOf = setup.keyOf := by
  unfold newWithRungs at h
  split at h
  · cases h
  · split at h
    · cases h
    · split at h
      · cases h
      · obtain ⟨cache, hcache, h⟩ := Result.bind_ok.mp h
        obtain ⟨hnodes, h⟩ := Result.bind_unit_ok.mp h
        split at h
        · cases h
        · cases h
          exact ⟨rfl, (Result.forM_ok_iff _ _).mp hnodes, hcache, rfl, rfl, rfl, rfl⟩

end Assembly

namespace EngineHandle

/-- What an ephemeral engine takes from the process it is assembled in; the digest is that of the
serialized version and nodes of a graph. -/
structure Host where
  parallelism : Nat
  parallelism_pos : 0 < parallelism
  semver : String
  digest : DecisionGraph → Nat
  keyOf : DecisionRequest → EngineIdentity → EngineResult CacheKey
  serializedLen : EscalationReport → Nat

def builtin (host : Host) : EngineIdentity where
  graphVersion := 1
  modelId := "builtin-lexical-v1"
  calibrationVersion := 0
  engineSemver := host.semver
  embeddingModel := "none"

/-- The setup around a graph of a client: one cache slot for one second. -/
def ephemeralSetup (host : Host) (graph : DecisionGraph) : EngineSetup where
  parallelism := host.parallelism
  identity := { builtin host with graphVersion := host.digest graph }
  cache := ⟨1, 1000⟩
  keyOf := host.keyOf
  serializedLen := host.serializedLen

def ephemeral (host : Host) (graph : DecisionGraph) : EngineResult DecisionEngine :=
  DecisionEngine.newWithRungs (ephemeralSetup host graph) (.new graph)
    (RelationalSolver.classifier (LexicalClassifier.classifier "builtin-lexical-v2")) none []

/-- The constructor's own checks, made once more. -/
def validateGraph (graph : DecisionGraph) : EngineResult Unit :=
  (DecisionGraph.new graph.version graph.nodes).map fun _ => ()

section Laws

variable (host : Host) (graph : DecisionGraph)

theorem checkNode_new (n : NodeSpec) : (EngineConfig.new graph).checkNode n =
    if n.needsEmbedding then .error (.missingBackend n.id.text "embedding") else .ok () := by
  rw [EngineConfig.checkNode]
  cases hneeds : n.needsEmbedding with
  | true => rfl
  | false =>
    have hkind : n.kind ≠ .retrieve := fun hkind => by
      rw [NodeSpec.needsEmbedding, hkind] at hneeds
      cases hneeds
    simp [hkind]

/-- An ephemeral engine is refused for the size of its graph, then for a node that needs a
backend. -/
theorem ephemeral_cases :
    (graph.exceeds nodeLimit = true ∧
      ephemeral host graph = .error (.graphTooLarge graph.nodes.length nodeLimit)) ∨
    (graph.exceeds nodeLimit = false ∧ ∃ n ∈ graph.nodes, n.needsEmbedding = true ∧
      ephemeral host graph = .error (.missingBackend n.id.text "embedding")) ∨
    (graph.exceeds nodeLimit = false ∧ (∀ n ∈ graph.nodes, n.needsEmbedding = false) ∧
      ∃ engine, ephemeral host graph = .ok engine) := by
  have hparallel : ¬ (ephemeralSetup host graph).parallelism = 0 := host.parallelism_pos.ne'
  have hprune : ¬ (EngineConfig.new graph).lexicalPruneLimit = some 0 := by simp [EngineConfig.new]
  rw [ephemeral, DecisionEngine.newWithRungs, if_neg hparallel, if_neg hprune]
  cases hsize : graph.exceeds nodeLimit with
  | true => exact .inl ⟨rfl, if_pos hsize⟩
  | false =>
    refine .inr ?_
    rw [if_neg (by rw [EngineConfig.new, hsize]; simp)]
    cases hnodes : (EngineConfig.new graph).graph.nodes.forM (EngineConfig.new graph).checkNode with
    | error e =>
      obtain ⟨n, hn, he⟩ := Result.forM_error hnodes
      rw [checkNode_new] at he
      split at he
      · rename_i hneeds
        cases he
        exact .inl ⟨rfl, n, hn, hneeds, rfl⟩
      · cases he
    | ok u =>
      refine .inr ⟨rfl, fun n hn => ?_, _, rfl⟩
      have hok := (Result.forM_ok_iff _ _).mp hnodes n hn
      rw [checkNode_new] at hok
      split at hok
      · cases hok
      · rename_i hneeds
        exact Bool.not_eq_true _ ▸ hneeds

end Laws

end EngineHandle

end OpenCodifier
