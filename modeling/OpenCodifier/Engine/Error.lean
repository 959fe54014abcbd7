import OpenCodifier.Core.Error
set_option autoImplicit false

namespace OpenCodifier

inductive EngineError where
  | timeout (elapsedMs limitMs : Nat)
  | cancelled
  | cycle (node : String)
  | unknownDependency (node dependency : String)
  | duplicateNode (node : String)
  | missingOutput
  | multipleOutputs (count : Nat)
  | unreachableNode (node : String)
  | multipleRoots (count : Nat)
  | outputNotTerminal (node dependent : String)
  | outputWithoutDependency (node : String)
  | graphTooLarge (nodes limit : Nat)
  | invalidNode (kind node reason : String)
  | invalidRule (reason : String)
  | cacheMisconfigured (reason : String)
  | invalidDistribution (question reason : String)
  | duplicateQuestion (question : String)
  | invalidConfig (reason : String)
  | invalidCalibration (reason : String)
  | serialization (reason : String)
  | nodeFailed (node reason : String)
  | classifierFailed (modelId reason : String)
  | core (error : CoreError)
  | missingBackend (node backend : String)
  | backendFailed (modelId reason : String)
  | visionRequired (images : Nat)
  deriving DecidableEq

abbrev EngineResult := Except EngineError

def EngineError.code : EngineError → String
  | .timeout _ _ => "engine.timeout"
  | .cancelled => "engine.cancelled"
  | .cycle _ => "graph.cycle"
  | .unknownDependency _ _ => "graph.unknown_dependency"
  | .duplicateNode _ => "graph.duplicate_node"
  | .missingOutput => "graph.missing_output"
  | .multipleOutputs _ => "graph.multiple_outputs"
  | .unreachableNode _ => "graph.unreachable_node"
  | .multipleRoots _ => "graph.multiple_roots"
  | .outputNotTerminal _ _ => "graph.output_not_terminal"
  | .outputWithoutDependency _ => "graph.output_without_dependency"
  | .graphTooLarge _ _ => "graph.limit_exceeded"
  | .invalidNode _ _ _ => "graph.invalid_node"
  | .invalidRule _ => "rules.invalid"
  | .cacheMisconfigured _ => "cache.miss_configured"
  | .invalidDistribution _ _ => "engine.invalid_distribution"
  | .duplicateQuestion _ => "engine.duplicate_question"
  | .invalidConfig _ => "engine.invalid_config"
  | .invalidCalibration _ => "calibration.invalid"
  | .serialization _ => "engine.serialization"
  | .nodeFailed _ _ => "engine.node_failed"
  | .classifierFailed _ _ => "engine.classifier_failed"
  | .core _ => "ir.invalid"
  | .missingBackend _ _ => "engine.missing_backend"
  | .backendFailed _ _ => "engine.backend_failed"
  | .visionRequired _ => "engine.vision_required"

def EngineError.display [RustStd] : EngineError → String
  | .timeout elapsedMs limitMs =>
    "execution deadline exceeded after " ++ toString elapsedMs ++ " ms (limit "
      ++ toString limitMs ++ " ms)"
  | .cancelled => "execution cancelled"
  | .cycle node => "graph contains a cycle through node `" ++ node ++ "`"
  | .unknownDependency node dependency =>
    "node `" ++ node ++ "` depends on unknown node `" ++ dependency ++ "`"
  | .duplicateNode node => "duplicate node id `" ++ node ++ "`"
  | .missingOutput => "graph must declare exactly one output node, found 0"
  | .multipleOutputs count =>
    "graph must declare exactly one output node, found " ++ toString count
  | .unreachableNode node => "node `" ++ node ++ "` is unreachable from the entry node"
  | .multipleRoots count => "graph must have exactly one entry node, found " ++ toString count
  | .outputNotTerminal node dependent =>
    "node `" ++ dependent ++ "` depends on the output node `" ++ node
      ++ "`; output must be terminal"
  | .outputWithoutDependency node =>
    "output node `" ++ node ++ "` must depend on at least one other node"
  | .graphTooLarge nodes limit =>
    "graph declares " ++ toString nodes ++ " nodes, limit is " ++ toString limit
  | .invalidNode kind node reason => "invalid " ++ kind ++ " node `" ++ node ++ "`: " ++ reason
  | .invalidRule reason => "invalid rule: " ++ reason
  | .cacheMisconfigured reason => "invalid cache configuration: " ++ reason
  | .invalidDistribution question reason =>
    "classifier returned an unusable distribution for question `" ++ question ++ "`: " ++ reason
  | .duplicateQuestion question => "request contains duplicate question id `" ++ question ++ "`"
  | .invalidConfig reason => "invalid engine configuration: " ++ reason
  | .invalidCalibration reason => "invalid calibration artifact: " ++ reason
  | .serialization reason => "failed to serialize canonical request: " ++ reason
  | .nodeFailed node reason => "node `" ++ node ++ "` failed: " ++ reason
  | .classifierFailed modelId reason => "classifier `" ++ modelId ++ "` failed: " ++ reason
  | .core error => error.display
  | .missingBackend node backend =>
    "graph node `" ++ node ++ "` requires the " ++ backend
      ++ " backend, which this engine was not assembled with"
  | .backendFailed modelId reason => "backend `" ++ modelId ++ "` failed: " ++ reason
  | .visionRequired images =>
    "request carries " ++ toString images ++ " image(s) but no image-capable rung is configured; "
      ++ "attach a vision rung or send a text-only state"

def ofCore {α : Type} : CoreResult α → EngineResult α
  | .ok a => .ok a
  | .error e => .error (.core e)

theorem ofCore_ok {α : Type} {x : CoreResult α} {a : α} (h : ofCore x = .ok a) : x = .ok a := by
  cases x with
  | ok b =>
    cases h
    rfl
  | error e => cases h

end OpenCodifier
