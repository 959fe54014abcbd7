import OpenCodifier.Engine.GraphDocument
import OpenCodifier.Engine.Refusals
import OpenCodifier.Lib.JsonParts
import OpenCodifier.Lib.Loop
import OpenCodifier.Schema.Native
set_option autoImplicit false

namespace OpenCodifier

open Json

inductive WireFailure where
  | malformedJson (reason : String)
  | schema (error : SchemaError)
  | engine (error : EngineError)
  deriving DecidableEq

namespace WireFailure

def code : WireFailure → String
  | malformedJson _ => "schema.invalid_json"
  | schema error => error.code
  | engine error => error.code

def display [RustStd] : WireFailure → String
  | malformedJson reason => reason
  | schema error => error.display
  | engine error => error.display

end WireFailure

section Assembled

variable [RustStd]

def EngineHandle.assemble (host : Host) (document : GraphDocument) : EngineResult DecisionEngine := do
  let graph ← DecisionGraph.new document.version document.nodes
  ephemeral host graph

namespace GraphDocument

def Sound (document : GraphDocument) : Prop :=
  ∃ graph, DecisionGraph.new document.version document.nodes = .ok graph

/-- No node asks for an embedding backend; a retrieve node does. -/
def Plain (document : GraphDocument) : Prop := ∀ n ∈ document.nodes, n.needsEmbedding = false

variable {document : GraphDocument}

theorem new_of_sound (h : document.Sound) : ∃ graph : DecisionGraph,
    DecisionGraph.new document.version document.nodes = .ok graph ∧
      graph.nodes.length = document.nodes.length ∧ ∀ n, n ∈ graph.nodes ↔ n ∈ document.nodes := by
  obtain ⟨graph, hgraph⟩ := h
  have hnodes := (DecisionGraph.new_ok hgraph).2
  refine ⟨graph, hgraph, ?_, fun n => ?_⟩
  · rw [hnodes, List.length_insertionSort]
  · rw [hnodes, List.mem_insertionSort]

end GraphDocument

theorem EngineHandle.validateGraph_eq (graph : DecisionGraph) : validateGraph graph = .ok () := by
  have hsorted : graph.nodes.insertionSort NodeSpec.idOrder = graph.nodes :=
    (List.pairwise_map.mp graph.wellFormed.sorted).imp le_of_lt |>.insertionSort_eq
  have hne : graph.nodes ≠ [] := List.ne_nil_of_mem graph.output_mem
  obtain ⟨again, hagain⟩ := (DecisionGraph.new_isOk_iff graph.version graph.nodes).mpr
    ⟨hne, graph.nodes_valid, hsorted.symm ▸ graph.wellFormed⟩
  rw [validateGraph, hagain]
  rfl

/-- Without nodes that need a backend, an engine is assembled around what the constructor lets pass
and the node limit admits. -/
theorem EngineHandle.assemble_isOk_iff (host : Host) {document : GraphDocument}
    (hplain : document.Plain) : (assemble host document).isOk = true ↔
      document.Sound ∧ document.nodes.length ≤ nodeLimit := by
  rw [assemble]
  by_cases hsound : document.Sound
  · obtain ⟨graph, hgraph, hlength, hmem⟩ := GraphDocument.new_of_sound hsound
    rw [hgraph]
    show (ephemeral host graph).isOk = true ↔ _
    rw [← hlength]
    rcases ephemeral_cases host graph with ⟨hsize, he⟩ | ⟨-, n, hn, hneeds, -⟩ | ⟨hsize, -, engine, he⟩
    · rw [DecisionGraph.exceeds, decide_eq_true_eq] at hsize
      rw [he]
      exact iff_of_false (by simp [Except.isOk, Except.toBool]) fun h => absurd h.2 (not_le.mpr hsize)
    · rw [hplain n ((hmem n).mp hn)] at hneeds
      cases hneeds
    · rw [DecisionGraph.exceeds, decide_eq_false_iff_not, not_lt] at hsize
      rw [he]
      exact iff_of_true rfl ⟨hsound, hsize⟩
  · cases hnew : DecisionGraph.new document.version document.nodes with
    | error e =>
      have hrefused : (Except.error e : EngineResult DecisionEngine).isOk = true ↔ False :=
        iff_of_false Bool.false_ne_true id
      exact hrefused.trans (iff_of_false id fun h => hsound h.1)
    | ok graph => exact absurd ⟨graph, hnew⟩ hsound

theorem EngineHandle.assemble_error {host : Host} {document : GraphDocument} {e : EngineError}
    (hsound : document.Sound) (hsize : document.nodes.length ≤ nodeLimit)
    (h : assemble host document = .error e) :
    ∃ n ∈ document.nodes, n.needsEmbedding = true ∧ e = .missingBackend n.id.text "embedding" := by
  obtain ⟨graph, hgraph, hlength, hmem⟩ := GraphDocument.new_of_sound hsound
  rw [assemble, hgraph] at h
  have h : ephemeral host graph = .error e := h
  rcases ephemeral_cases host graph with ⟨hlarge, -⟩ | ⟨-, n, hn, hneeds, he⟩ | ⟨-, -, engine, he⟩
  · rw [DecisionGraph.exceeds, decide_eq_true_eq, hlength] at hlarge
    exact absurd hsize (not_le.mpr hlarge)
  · rw [he, Except.error.injEq] at h
    exact ⟨n, (hmem n).mp hn, hneeds, h.symm⟩
  · rw [he] at h
    cases h

section Stars

/-- Nodes that are sorted, pass their own checks and depend on the first one only. -/
def isStar : List NodeSpec → Bool
  | [] => false
  | root :: rest =>
    decide ((nodeIds (root :: rest)).IsChain (· < ·)) &&
      (root :: rest).all (fun n => n.validate.isOk) && root.dependsOn = [] && root.kind ≠ .output &&
      rest.all (fun n => n.dependsOn = [root.id]) &&
      (rest.filter fun n => n.kind = .output).length = 1

omit [RustStd] in
theorem wellFormed_star {root output : NodeSpec} {rest : List NodeSpec}
    (hsorted : (nodeIds (root :: rest)).Pairwise (· < ·)) (hroot : root.dependsOn = [])
    (hkind : root.kind ≠ .output) (hrest : ∀ n ∈ rest, n.dependsOn = [root.id])
    (houtput : rest.filter (fun n => n.kind = .output) = [output]) : WellFormed (root :: rest) := by
  have hfirst : ∀ n ∈ rest, root.id < n.id := fun n hn =>
    List.rel_of_pairwise_cons hsorted (List.mem_map_of_mem hn)
  have hdeps : ∀ n ∈ root :: rest, ∀ d ∈ n.dependsOn, n ∈ rest ∧ d = root.id := by
    intro n hn d hd
    rcases List.mem_cons.mp hn with rfl | hn
    · rw [hroot] at hd
      cases hd
    · rw [hrest n hn, List.mem_singleton] at hd
      exact ⟨hn, hd⟩
  have hnotRoot : ∀ n ∈ root :: rest, n.kind = .output → n ∈ rest := by
    intro n hn hout
    rcases List.mem_cons.mp hn with rfl | hn
    · exact absurd hout hkind
    · exact hn
  refine ⟨hsorted, fun n hn => ?_, fun n hn d hd => ?_,
    ⟨fun id => if id = root.id then 0 else 1, fun n hn d hd => ?_⟩, ⟨root, ?_⟩, ⟨output, ?_⟩,
    fun n hn hout => ?_, fun n hn hout m hm hd => ?_⟩
  · rcases List.mem_cons.mp hn with rfl | hn
    · rw [hroot]
      exact List.nodup_nil
    · rw [hrest n hn]
      exact List.nodup_singleton _
  · rw [(hdeps n hn d hd).2]
    exact List.mem_cons_self
  · obtain ⟨hn, rfl⟩ := hdeps n hn d hd
    simp [(hfirst n hn).ne']
  · rw [List.filter_cons_of_pos (by simpa using hroot), List.filter_eq_nil_iff.mpr]
    intro n hn
    simp [hrest n hn]
  · rw [List.filter_cons_of_neg (by simpa using hkind), houtput]
  · rw [hrest n (hnotRoot n hn hout)]
    exact List.cons_ne_nil _ _
  · exact (hfirst n (hnotRoot n hn hout)).ne' (hdeps m hm n.id hd).2

theorem sound_of_isStar {document : GraphDocument} (h : isStar document.nodes = true) :
    document.Sound := by
  obtain ⟨version, nodes⟩ := document
  cases nodes with
  | nil => cases h
  | cons root rest =>
    simp only [isStar, Bool.and_eq_true, decide_eq_true_eq, List.all_eq_true] at h
    obtain ⟨⟨⟨⟨⟨hchain, hvalid⟩, hroot⟩, hkind⟩, hrest⟩, hcount⟩ := h
    obtain ⟨output, houtput⟩ := List.length_eq_one_iff.mp hcount
    have hsorted : (nodeIds (root :: rest)).Pairwise (· < ·) :=
      List.isChain_iff_pairwise.mp hchain
    have hsame : (root :: rest).insertionSort NodeSpec.idOrder = root :: rest :=
      (List.pairwise_map.mp hsorted).imp le_of_lt |>.insertionSort_eq
    refine (DecisionGraph.new_isOk_iff version _).mpr ⟨List.cons_ne_nil _ _, fun n hn => ?_, ?_⟩
    · have hok := hvalid n hn
      cases hn : n.validate with
      | error e =>
        rw [hn] at hok
        cases hok
      | ok u => rfl
    · rw [hsame]
      exact wellFormed_star hsorted hroot hkind hrest houtput

end Stars

end Assembled

def EngineHandle.maxBatch : Nat := 16

namespace Wire

/-- A text, read as a document tree or refused with the parser's text. -/
abbrev Text := Except String Json

variable [RustStd] [SerdeTexts]

def readGraph (graph : Text) : Except WireFailure GraphDocument :=
  match graph with
  | .error reason => .error (.malformedJson reason)
  | .ok document =>
    match GraphDocument.deserialize document with
    | none => .error (.malformedJson (SerdeTexts.refusal "GraphDocument" document))
    | some document => .ok document

def validateGraphImpl (graph : Text) : Except WireFailure (Nat × Nat) := do
  let document ← readGraph graph
  let _ ← (DecisionGraph.new document.version document.nodes).mapError WireFailure.engine
  pure (document.version, document.nodes.length)

theorem validateGraphImpl_isOk_iff (document : Json) :
    (validateGraphImpl (.ok document)).isOk = true ↔
      ∃ d, GraphDocument.deserialize document = some d ∧ d.Sound := by
  rw [validateGraphImpl, readGraph]
  cases hread : GraphDocument.deserialize document with
  | none => simp [bind, Except.bind, Except.isOk, Except.toBool]
  | some d =>
    simp only [Option.some.injEq, exists_eq_left']
    cases hnew : DecisionGraph.new d.version d.nodes with
    | error e =>
      refine iff_of_false (by simp [bind, Except.bind, Except.mapError, hnew, Except.isOk,
        Except.toBool]) ?_
      rintro ⟨graph, hgraph⟩
      rw [hnew] at hgraph
      cases hgraph
    | ok graph =>
      exact iff_of_true (by simp [bind, Except.bind, Except.mapError, hnew, Except.isOk,
        Except.toBool, pure, Except.pure]) ⟨graph, hnew⟩

def decideValue (engine : DecisionEngine) (payload : Value) (moment : Moment) :
    Except WireFailure Value := do
  let request ← (Native.format.decodeRequest payload {}).mapError WireFailure.schema
  let response ← (engine.decide request moment).2.mapError WireFailure.engine
  (Native.format.encodeResponse response).mapError WireFailure.schema

def decideImpl (engine : DecisionEngine) (request : Text) (moment : Moment) :
    Except WireFailure Value :=
  match request with
  | .error reason => .error (.malformedJson reason)
  | .ok document => decideValue engine (.parse document) moment

def runGraphImpl (host : EngineHandle.Host) (graph request : Text) (moment : Moment) :
    Except WireFailure Value := do
  let document ← readGraph graph
  let engine ← (EngineHandle.assemble host document).mapError WireFailure.engine
  decideImpl engine request moment

theorem decideValue_engine {engine : DecisionEngine} {payload : Value} {request : DecisionRequest}
    {moment : Moment} {e : EngineError}
    (hrequest : Native.format.decodeRequest payload {} = .ok request)
    (h : decideValue engine payload moment = .error (.engine e)) :
    (engine.decide request moment).2 = .error e := by
  simp only [decideValue, hrequest, bind, Except.bind, Except.mapError] at h
  cases hdecide : (engine.decide request moment).2 with
  | error failed =>
    rw [hdecide] at h
    cases h
    rfl
  | ok response =>
    rw [hdecide] at h
    dsimp only at h
    split at h <;> cases h

/-- An accepted graph within the node limit is not refused when it is run, under a request whose
limits admit it; the keys and the checks of the deadline are taken to fail for other reasons. -/
theorem runGraphImpl_spares {host : EngineHandle.Host} {document text : Json} {d : GraphDocument}
    {request : DecisionRequest} {moment : Moment} {e : EngineError}
    (hread : GraphDocument.deserialize document = some d) (hsound : d.Sound)
    (hsize : d.nodes.length ≤ nodeLimit)
    (hrequest : Native.format.decodeRequest (.parse text) {} = .ok request)
    (hlimit : d.nodes.length ≤ request.metadata.limits.maxGraphNodes)
    (hkey : ∀ request identity, Spares (host.keyOf request identity))
    (hguard : ∀ point, Spares (moment.guard point))
    (h : runGraphImpl host (.ok document) (.ok text) moment = .error (.engine e)) :
    e.structural = false := by
  have hdocument : readGraph (.ok document) = .ok d := by
    simp only [readGraph, hread]
  simp only [runGraphImpl, hdocument, bind, Except.bind] at h
  obtain ⟨graph, hgraph, hlength, -⟩ := GraphDocument.new_of_sound hsound
  cases hengine : EngineHandle.assemble host d with
  | error refused =>
    obtain ⟨n, -, -, rfl⟩ := EngineHandle.assemble_error hsound hsize hengine
    rw [hengine] at h
    cases h
    rfl
  | ok engine =>
    rw [hengine] at h
    have hnew : EngineHandle.ephemeral host graph = .ok engine := by
      rw [EngineHandle.assemble, hgraph] at hengine
      exact hengine
    have hspares := EngineHandle.ephemeral_spares hnew (hlength.symm ▸ hlimit) hkey hguard
    rw [decideValue_engine hrequest h] at hspares
    exact hspares

section Batch

def jsonTypeName : Json → String
  | .null => "null"
  | .bool _ => "boolean"
  | .num _ => "number"
  | .str _ => "string"
  | .arr _ => "sequence"
  | .obj _ => "map"

def batchRequests (payload : Value) : Except WireFailure (List Value) :=
  match payload.get? "requests" with
  | none => .error (.schema (.invalidValue "requests" "missing field `requests`"))
  | some requests =>
    match requests.items? with
    | some items => .ok items
    | none =>
      .error (.schema (.invalidValue "requests"
        ("invalid type: " ++ jsonTypeName requests.1 ++ ", expected a sequence")))

def errorJson (failure : WireFailure) : Value :=
  .struct [("code", some (.str failure.code)), ("message", some (.str failure.display))]

def decideNext (engine : DecisionEngine) (payload : Value) (moment : Moment) :
    DecisionEngine × Except WireFailure Value :=
  (match Native.format.decodeRequest payload {} with
    | .error _ => engine
    | .ok request => (engine.decide request moment).1,
    decideValue engine payload moment)

def batchItem (engine : DecisionEngine) (item : Value × Moment) : DecisionEngine × Value :=
  let decided := decideNext engine item.1 item.2
  (decided.1,
    match decided.2 with
    | .ok response => .struct [("response", some response)]
    | .error failure => .struct [("error", some (errorJson failure))])

/-- The requests of a batch, in input order, on the one engine. -/
def decideRequests (engine : DecisionEngine) (requests : List Value) (moments : Nat → Moment) :
    DecisionEngine × SchemaResult Value :=
  if EngineHandle.maxBatch < requests.length then
    (engine, .error (.limitExceeded "max_batch" requests.length EngineHandle.maxBatch))
  else
    let decided := Mealy.run batchItem engine
      (requests.zipIdx.map fun item => (item.1, moments item.2))
    (decided.1, .ok (.struct [("results", some (.array decided.2)),
      ("count", some (.nat decided.2.length))]))

def decideBatchImpl (engine : DecisionEngine) (requests : Text) (moments : Nat → Moment) :
    DecisionEngine × Except WireFailure Value :=
  match requests with
  | .error reason => (engine, .error (.malformedJson reason))
  | .ok document =>
    match batchRequests (.parse document) with
    | .error failure => (engine, .error failure)
    | .ok requests =>
      let decided := decideRequests engine requests moments
      (decided.1, decided.2.mapError .schema)

end Batch

end Wire

end OpenCodifier
