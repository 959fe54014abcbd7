import OpenCodifier.Engine.Wire
import OpenCodifier.Http.Routes
import OpenCodifier.Mcp.Validate
import OpenCodifier.Schema.OpenAiRoundTrip
set_option autoImplicit false

namespace OpenCodifier.Http

open Json

section Handler

variable [RustStd] [SerdeTexts]

def validateGraph (body : Body) : Except HttpError Value :=
  match parseJson body with
  | .error e => .error e
  | .ok payload =>
    match GraphDocument.deserialize payload.1 with
    | none =>
      .error (.schema (.invalidValue "graph" (SerdeTexts.refusal "GraphDocument" payload.1)))
    | some document =>
      if nodeLimit < document.nodes.length then
        .error (.schema (.limitExceeded "max_graph_nodes" document.nodes.length nodeLimit))
      else do
        let graph ← (DecisionGraph.tryFrom document).mapError HttpError.graph
        (EngineHandle.validateGraph graph).mapError HttpError.graph
        pure (.struct [("valid", some (.bool true)), ("nodes", some (.nat graph.nodes.length))])

end Handler

/-- A refusal for what a graph is, whatever the engine it is to run in. -/
def refusesGraph : EngineError → Bool
  | .missingBackend _ _ => false
  | .invalidConfig _ => false
  | _ => true

section Verdicts

variable [RustStd] [SerdeTexts]

def Admitted (body : Json) : Prop :=
  ∃ d, GraphDocument.deserialize body.normalize = some d ∧ d.nodes.length ≤ nodeLimit ∧ d.Sound

/-- No run of a document refuses the graph, for a request whose limits admit it. The keys and the
checks of the deadline are taken to fail for other reasons. -/
def RunsSpare (host : EngineHandle.Host) (body : Json) : Prop :=
  ∀ d text request moment e, GraphDocument.deserialize body = some d →
    Native.format.decodeRequest (.parse text) {} = .ok request →
    d.nodes.length ≤ request.metadata.limits.maxGraphNodes →
    (∀ request identity, Spares (host.keyOf request identity)) →
    (∀ point, Spares (moment.guard point)) →
    Wire.runGraphImpl host (.ok body) (.ok text) moment = .error (.engine e) → e.structural = false

/-- The verdicts of the entry points on one document: they agree with each other and with the
assembly of an engine, which never refuses the graph itself when they accept it, and neither does a
run. -/
structure VerdictsAgree (host : EngineHandle.Host) (body : Json) : Prop where
  route : (Wire.validateGraphImpl (.ok body)).isOk = (validateGraph (.ok body)).isOk
  tool : (Wire.validateGraphImpl (.ok body)).isOk = (Mcp.validateDocument (.parse body)).isOk
  wire_assembles : ∀ d, GraphDocument.deserialize body = some d → d.Plain →
    (Wire.validateGraphImpl (.ok body)).isOk = (EngineHandle.assemble host d).isOk
  assembles : ∀ d, GraphDocument.deserialize body.normalize = some d → d.Plain →
    (validateGraph (.ok body)).isOk = (EngineHandle.assemble host d).isOk ∧
      (Mcp.validateDocument (.parse body)).isOk = (EngineHandle.assemble host d).isOk
  wire_runs : (Wire.validateGraphImpl (.ok body)).isOk = true →
    ∀ d e, GraphDocument.deserialize body = some d → EngineHandle.assemble host d = .error e →
      refusesGraph e = false
  runs : (validateGraph (.ok body)).isOk = true →
    ∀ d e, GraphDocument.deserialize body.normalize = some d →
      EngineHandle.assemble host d = .error e → refusesGraph e = false
  spared : (Wire.validateGraphImpl (.ok body)).isOk = true → RunsSpare host body

omit [SerdeTexts] in
theorem checked_isOk_iff {ε : Type} (body : Json) (unread : ε) (tooLarge : GraphDocument → ε)
    (refused : EngineError → ε) (verdict : DecisionGraph → Value) :
    Except.isOk (match GraphDocument.deserialize body.normalize with
      | none => .error unread
      | some document =>
        if nodeLimit < document.nodes.length then .error (tooLarge document)
        else do
          let graph ← (DecisionGraph.tryFrom document).mapError refused
          (EngineHandle.validateGraph graph).mapError refused
          pure (verdict graph)) = true ↔ Admitted body := by
  rw [Admitted]
  cases hread : GraphDocument.deserialize body.normalize with
  | none => simp [Except.isOk, Except.toBool]
  | some d =>
    simp only [Option.some.injEq, exists_eq_left']
    split
    · rename_i hsize
      exact iff_of_false Bool.false_ne_true fun h => absurd h.1 (not_le.mpr hsize)
    · rename_i hsize
      rw [DecisionGraph.tryFrom]
      cases hnew : DecisionGraph.new d.version d.nodes with
      | error e =>
        refine iff_of_false Bool.false_ne_true fun h => ?_
        obtain ⟨graph, hgraph⟩ := h.2
        rw [hnew] at hgraph
        cases hgraph
      | ok graph =>
        have hagain : (EngineHandle.validateGraph graph).mapError refused = .ok () := by
          rw [EngineHandle.validateGraph_eq]
          rfl
        refine iff_of_true ?_ ⟨not_lt.mp hsize, graph, hnew⟩
        simp only [Except.mapError, bind, Except.bind] at hagain ⊢
        rw [hagain]
        rfl

theorem validateGraph_isOk_iff (body : Json) :
    (validateGraph (.ok body)).isOk = true ↔ Admitted body :=
  checked_isOk_iff body _ _ _ _

theorem validateDocument_isOk_iff (body : Json) :
    (Mcp.validateDocument (.parse body)).isOk = true ↔ Admitted body :=
  checked_isOk_iff body _ _ _ _

theorem validateGraphImpl_isOk_iff (body : Json) :
    (Wire.validateGraphImpl (.ok body)).isOk = true ↔ GraphDocument.repeats body = false ∧
      ∃ d, GraphDocument.deserialize body.normalize = some d ∧ d.Sound := by
  rw [Wire.validateGraphImpl_isOk_iff, GraphDocument.rereads body]
  cases GraphDocument.repeats body <;> simp

omit [SerdeTexts] in
theorem admitted_iff {body : Json} {d : GraphDocument}
    (hread : GraphDocument.deserialize body.normalize = some d) :
    Admitted body ↔ d.nodes.length ≤ nodeLimit ∧ d.Sound := by
  rw [Admitted, hread]
  simp only [Option.some.injEq, exists_eq_left']

omit [RustStd] [SerdeTexts] in
theorem read_of_deserialize {body : Json} {d : GraphDocument}
    (h : GraphDocument.deserialize body = some d) : GraphDocument.repeats body = false ∧
      GraphDocument.deserialize body.normalize = some d := by
  rw [GraphDocument.rereads body] at h
  cases hrepeats : GraphDocument.repeats body with
  | true =>
    rw [hrepeats] at h
    cases h
  | false =>
    rw [hrepeats] at h
    exact ⟨rfl, h⟩

omit [SerdeTexts] in
theorem refusesGraph_of_admitted {host : EngineHandle.Host} {body : Json} {d : GraphDocument}
    {e : EngineError} (hread : GraphDocument.deserialize body.normalize = some d)
    (hadmitted : Admitted body) (he : EngineHandle.assemble host d = .error e) :
    refusesGraph e = false := by
  obtain ⟨hsize, hsound⟩ := (admitted_iff hread).mp hadmitted
  obtain ⟨n, -, -, rfl⟩ := EngineHandle.assemble_error hsound hsize he
  rfl

/-- The verdicts on a document agree exactly when, in case its value is a sound graph, it is within
the node limit if and only if no struct of the text repeats a name. -/
theorem verdictsAgree_iff (host : EngineHandle.Host) (body : Json) : VerdictsAgree host body ↔
    ∀ d, GraphDocument.deserialize body.normalize = some d → d.Sound →
      (GraphDocument.repeats body = false ↔ d.nodes.length ≤ nodeLimit) := by
  have hwire := validateGraphImpl_isOk_iff body
  have hroute := validateGraph_isOk_iff body
  have htool := validateDocument_isOk_iff body
  constructor
  · intro h d hread hsound
    have hsame : (GraphDocument.repeats body = false ∧
        ∃ d, GraphDocument.deserialize body.normalize = some d ∧ d.Sound) ↔ Admitted body := by
      rw [← hwire, ← hroute, h.route]
    rw [admitted_iff hread] at hsame
    constructor
    · exact fun hrepeats => (hsame.mp ⟨hrepeats, d, hread, hsound⟩).1
    · exact fun hsize => (hsame.mpr ⟨hsize, hsound⟩).1
  · intro h
    have hsame : (Wire.validateGraphImpl (.ok body)).isOk = true ↔ Admitted body := by
      rw [hwire]
      constructor
      · rintro ⟨hrepeats, d, hread, hsound⟩
        exact ⟨d, hread, (h d hread hsound).mp hrepeats, hsound⟩
      · rintro ⟨d, hread, hsize, hsound⟩
        exact ⟨(h d hread hsound).mpr hsize, d, hread, hsound⟩
    have hassembles : ∀ d, GraphDocument.deserialize body.normalize = some d → d.Plain →
        (Admitted body ↔ (EngineHandle.assemble host d).isOk = true) := by
      intro d hread hplain
      rw [admitted_iff hread, EngineHandle.assemble_isOk_iff host hplain, and_comm]
    refine ⟨?_, ?_, fun d hread hplain => ?_, fun d hread hplain => ⟨?_, ?_⟩,
      fun hok d e hread he => ?_, fun hok d e hread he => ?_,
      fun hok d text request moment e hread hrequest hlimit hkey hguard he => ?_⟩
    · exact Bool.eq_iff_iff.mpr (hsame.trans hroute.symm)
    · exact Bool.eq_iff_iff.mpr (hsame.trans htool.symm)
    · exact Bool.eq_iff_iff.mpr (hsame.trans
        (hassembles d (read_of_deserialize hread).2 hplain))
    · exact Bool.eq_iff_iff.mpr (hroute.trans (hassembles d hread hplain))
    · exact Bool.eq_iff_iff.mpr (htool.trans (hassembles d hread hplain))
    · exact refusesGraph_of_admitted (read_of_deserialize hread).2 (hsame.mp hok) he
    · exact refusesGraph_of_admitted hread (hroute.mp hok) he
    · obtain ⟨hsize, hsound⟩ := (admitted_iff (read_of_deserialize hread).2).mp (hsame.mp hok)
      exact Wire.runGraphImpl_spares hread hsound hsize hrequest hlimit hkey hguard he

end Verdicts

section Samples

attribute [local instance] plainStd plainTexts

def nodeDocument (id kind : String) (dependsOn : List String) : Json :=
  .obj [("id", .str id), ("kind", .str kind), ("depends_on", .arr (dependsOn.map .str))]

/-- An entry, an output, and rules between them with two-letter names. -/
def wideDocument (rules : Nat) : Json :=
  .obj [("version", .num (.int 1)), ("nodes", .arr (nodeDocument "aa" "normalize" [] ::
    ((List.range rules).map fun i => nodeDocument (String.ofList [Char.ofNat (97 + (i + 1) / 16),
      Char.ofNat (97 + (i + 1) % 16)]) "rule" ["aa"]) ++ [nodeDocument "zz" "output" ["aa"]]))]

def plainHost : EngineHandle.Host where
  parallelism := 1
  parallelism_pos := Nat.one_pos
  semver := ""
  digest := fun _ => 0
  keyOf := fun _ _ => .ok 0
  serializedLen := fun _ => 0

/-- The wire boundary accepts one node too many; the route refuses it. -/
theorem verdicts_differ : ¬ VerdictsAgree plainHost (wideDocument 127) := by
  have hread : (GraphDocument.deserialize (wideDocument 127)).any (fun d =>
      isStar d.nodes && d.nodes.length == 129) = true := by
    decide +kernel
  obtain ⟨d, hd, hwide⟩ := (Option.any_eq_true _ _).mp hread
  rw [Bool.and_eq_true, beq_iff_eq] at hwide
  have hnormal := (read_of_deserialize hd).2
  intro h
  have hroute := h.route
  rw [(Wire.validateGraphImpl_isOk_iff _).mpr ⟨d, hd, sound_of_isStar hwide.1⟩] at hroute
  have hsize := ((admitted_iff hnormal).mp ((validateGraph_isOk_iff _).mp hroute.symm)).1
  rw [hwide.2] at hsize
  exact absurd hsize (by decide)

end Samples

end OpenCodifier.Http
