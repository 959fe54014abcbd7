import OpenCodifier.Engine.Ephemeral
import OpenCodifier.Engine.GraphDocument
import OpenCodifier.Schema.Error
set_option autoImplicit false

namespace OpenCodifier.Mcp

open Json

structure Failure where
  code : String
  message : String
  deriving DecidableEq

variable [RustStd]

def Failure.schema (error : SchemaError) : Failure := ⟨error.code, error.display⟩

def Failure.engine (error : EngineError) : Failure := ⟨error.code, error.display⟩

variable [SerdeTexts]

def validateDocument (document : Value) : Except Failure Value :=
  match GraphDocument.deserialize document.1 with
  | none => .error (.schema (.invalidValue "graph" (SerdeTexts.refusal "GraphDocument" document.1)))
  | some parsed =>
    if nodeLimit < parsed.nodes.length then
      .error (.schema (.limitExceeded "max_graph_nodes" parsed.nodes.length nodeLimit))
    else do
      let graph ← (DecisionGraph.tryFrom parsed).mapError Failure.engine
      (EngineHandle.validateGraph graph).mapError Failure.engine
      pure (.struct [("valid", some (.bool true)), ("nodes", some (.nat graph.nodes.length))])

end OpenCodifier.Mcp
