import OpenCodifier.Engine.Answered
import OpenCodifier.Engine.Sessions
import OpenCodifier.Engine.Wire
import OpenCodifier.Http.Routes
import OpenCodifier.Mcp.Validate
set_option autoImplicit false

namespace OpenCodifier

open Json

namespace Mcp

section Tools

variable [RustStd] [SerdeTexts]

def decode (document : Value) : Except Failure DecisionRequest :=
  (Native.format.decodeRequest document {}).mapError Failure.schema

def encode (response : DecisionResponse) : Except Failure Value :=
  (Native.format.encodeResponse response).mapError Failure.schema

/-- The tools that decide a document: the engine it leaves behind, and what is made of the
response. -/
def deciding (view : DecisionResponse → Except Failure Value) (engine : DecisionEngine)
    (item : Value × Moment) : DecisionEngine × Except Failure Value :=
  match decode item.1 with
  | .error failure => (engine, .error failure)
  | .ok request =>
    let decided := engine.decide request item.2
    (decided.1, decided.2.mapError Failure.engine >>= view)

/-- Native request document to native response document. -/
def decideDocument : DecisionEngine → Value × Moment → DecisionEngine × Except Failure Value :=
  deciding encode

def index (document : Value) (key : String) : Value := (document.get? key).getD .null

def indexAt (document : Value) (i : Nat) : Value := (document.items?.bind fun l => l[i]?).getD .null

def verdictDocument (response : DecisionResponse) : Except Failure Value := do
  let encoded ← encode response
  pure (.struct [("outcome", some (index encoded "outcome")),
    ("decisive", some (.bool response.outcome.isDecisive)),
    ("confidence", some (index encoded "confidence")),
    ("metrics", some (index encoded "metrics")),
    ("answers", some (index encoded "answers")), ("response", some encoded)])

/-- Native request document to the gate verdict and the response. -/
def verifyDocument : DecisionEngine → Value × Moment → DecisionEngine × Except Failure Value :=
  deciding verdictDocument

def resultOf : Except Failure Value → Value
  | .ok response => .struct [("ok", some (.bool true)), ("response", some response)]
  | .error failure => .struct [("ok", some (.bool false)),
      ("error", some (.struct [("code", some (.str failure.code)),
        ("message", some (.str failure.message))]))]

/-- A list of request documents to a verdict each, in order. -/
def batchDocument (engine : DecisionEngine) (requests : List Value) (moments : Nat → Moment) :
    DecisionEngine × Except Failure Value :=
  if EngineHandle.maxBatch < requests.length then
    (engine, .error ⟨"mcp.batch_too_large", "batch holds " ++ toString requests.length ++
      " requests; the limit is " ++ toString EngineHandle.maxBatch⟩)
  else
    let decided := Mealy.run decideDocument engine
      (requests.zipIdx.map fun item => (item.1, moments item.2))
    let accepted := decided.2.countP Except.isOk
    (decided.1, .ok (.struct [("results", some (.array (decided.2.map resultOf))),
      ("accepted", some (.nat accepted)), ("refused", some (.nat (decided.2.length - accepted)))]))

def gateRequest (question : String) (state : Option String) : Value :=
  .struct [("state", some (.struct [("text", some (.str (state.getD "")))])),
    ("questions", some (.array [.struct [("type", some (.str "boolean")),
      ("id", some (.str "gate")), ("text", some (.str question))]]))]

def asBoolOr (document : Value) (default : Bool) : Bool := (asBool document.1).getD default

def gateReply (response : Value) : Value :=
  let answer := indexAt (index response "answers") 0
  let value := asBoolOr (index answer "value") false
  let outcome := (asStr (index response "outcome").1).getD ""
  let decisive := outcome = "accept" || outcome = "verified"
  let confidence := (asFloat (index answer "confidence").1).getD 0
  .struct [("proceed", some (.bool (decisive && value))), ("confidence", some (.float confidence)),
    ("outcome", some (index response "outcome")), ("value", some (.bool value)),
    ("probability", some (index answer "probability"))]

/-- The compact gate: one Boolean question over a state. -/
def gateDocument (engine : DecisionEngine) (question : String) (state : Option String)
    (moment : Moment) : DecisionEngine × Except Failure Value :=
  let decided := decideDocument engine (gateRequest question state, moment)
  (decided.1, gateReply <$> decided.2)

end Tools

section Surfaces

variable [RustStd] [SerdeTexts]

def Failure.wire (failure : WireFailure) : Failure := ⟨failure.code, failure.display⟩

def Failure.http (failure : HttpError) : Failure := ⟨failure.code, failure.display⟩

def envelope : Except Failure Value → Value
  | .ok response => .struct [("response", some response)]
  | .error failure => .struct [("error", some (.struct [("code", some (.str failure.code)),
      ("message", some (.str failure.message))]))]

theorem decideNext_failure (engine : DecisionEngine) (document : Value) (moment : Moment) :
    decideDocument engine (document, moment) =
      ((Wire.decideNext engine document moment).1,
        (Wire.decideNext engine document moment).2.mapError Failure.wire) := by
  unfold decideDocument deciding decode Wire.decideNext Wire.decideValue
  cases Native.format.decodeRequest document {} with
  | error e => rfl
  | ok request =>
    dsimp only [Except.mapError, bind, Except.bind]
    cases (engine.decide request moment).2 with
    | error e => rfl
    | ok response => rfl

theorem decideDocument_failure (engine : DecisionEngine) (document : Value) (moment : Moment) :
    decideDocument engine (document, moment) =
      ((Http.decideDocument Native.format engine document moment).1,
        (Http.decideDocument Native.format engine document moment).2.mapError Failure.http) := by
  unfold decideDocument deciding decode Http.decideDocument
  cases Native.format.decodeRequest document {} with
  | error e => rfl
  | ok request =>
    dsimp only [Except.mapError, Http.encodeReply]
    cases (engine.decide request moment).2 with
    | error e => rfl
    | ok response => rfl

theorem wire_batchItem (engine : DecisionEngine) (item : Value × Moment) :
    Wire.batchItem engine item =
      ((decideDocument engine item).1, envelope (decideDocument engine item).2) := by
  rw [decideNext_failure, Wire.batchItem]
  cases (Wire.decideNext engine item.1 item.2).2 <;> rfl

theorem http_batchItem (engine : DecisionEngine) (item : Value × Moment) :
    Http.batchItem Native.format engine item.1 item.2 =
      ((decideDocument engine item).1, envelope (decideDocument engine item).2) := by
  rw [decideDocument_failure, Http.batchItem]
  cases (Http.decideDocument Native.format engine item.1 item.2).2 <;> rfl

theorem http_batchItems (engine : DecisionEngine) (items : List (Value × Moment)) :
    Http.batchItems Native.format engine items = Mealy.run Wire.batchItem engine items := by
  induction items generalizing engine with
  | nil => rfl
  | cons item items ih =>
    rw [Http.batchItems, Mealy.run, http_batchItem, wire_batchItem, ih]

/-- On every surface a batch is decided item by item, in order, on the one engine. -/
theorem wire_batch (engine : DecisionEngine) (items : List (Value × Moment)) :
    Mealy.run Wire.batchItem engine items =
      ((Mealy.run decideDocument engine items).1,
        (Mealy.run decideDocument engine items).2.map envelope) :=
  Mealy.run_map wire_batchItem engine items

/-- An array in the place of the envelope, with the requests in its one place. -/
def Positional (payload : Value) : Prop := ∃ items, payload.1 = .arr [.arr items]

omit [RustStd] [SerdeTexts] in
theorem items?_eq_map (items : List Json) (h : Canonical (.arr items)) :
    Value.items? ⟨.arr items, h⟩ = some (items.map .parse) := by
  have hitems := (canonicalItems_iff items).mp h
  simp only [Value.items?, Option.some.injEq]
  refine List.ext_getElem (by simp) fun i h₁ h₂ => Subtype.ext ?_
  rw [List.getElem_pmap, List.getElem_map]
  exact (normalize_of_canonical _ (hitems _ (List.getElem_mem _))).symm

omit [RustStd] [SerdeTexts] in
theorem asList_parse (items : List Json) :
    asList (fun j => some (Value.parse j)) (.arr items) = some (items.map .parse) :=
  List.mapM_pure

omit [RustStd] [SerdeTexts] in
theorem batchRequests_agree {payload : Value} (h : ¬ Positional payload) :
    Http.batchRequests payload = (Wire.batchRequests payload).toOption := by
  have hget := payload.val_get? "requests"
  obtain ⟨j, hj⟩ := payload
  cases j with
  | obj fields =>
    change _ = lookup fields "requests" at hget
    have hhttp : Http.batchRequests ⟨.obj fields, hj⟩ =
        (lookup fields "requests").bind (asList fun j => some (.parse j)) := rfl
    rw [hhttp, ← hget, Wire.batchRequests]
    cases Value.get? ⟨.obj fields, hj⟩ "requests" with
    | none => rfl
    | some requests =>
      obtain ⟨r, hr⟩ := requests
      dsimp only [Option.map_some, Option.bind_some]
      cases r with
      | arr items =>
        rw [asList_parse, items?_eq_map items hr]
        rfl
      | _ => rfl
  | arr items =>
    have hwire : (Wire.batchRequests ⟨.arr items, hj⟩).toOption = none := rfl
    rw [hwire]
    cases items with
    | nil => rfl
    | cons item rest =>
      cases rest with
      | cons _ _ => rfl
      | nil =>
        cases item with
        | arr inner => exact absurd ⟨inner, rfl⟩ h
        | _ => rfl
  | _ => rfl

omit [RustStd] [SerdeTexts] in
theorem batchRequests_positional {payload : Value} (h : Positional payload) :
    ∃ requests, Http.batchRequests payload = some requests ∧ Wire.batchRequests payload =
      .error (.schema (.invalidValue "requests" "missing field `requests`")) := by
  obtain ⟨j, hj⟩ := payload
  obtain ⟨items, rfl⟩ := h
  exact ⟨items.map .parse, asList_parse items, rfl⟩

omit [RustStd] [SerdeTexts] in
theorem batchRequests_refused {payload : Value} {failure : WireFailure}
    (h : Wire.batchRequests payload = .error failure) : failure.code = "schema.invalid_value" := by
  unfold Wire.batchRequests at h
  split at h
  · cases h
    rfl
  · split at h
    · cases h
    · cases h
      rfl

theorem http_batch {adapters : Http.Adapters} {engine : DecisionEngine} {body : Json}
    {moments : Nat → Moment} {requests : List Value}
    (h : Http.batchRequests (.parse body) = some requests) :
    Http.batch adapters engine none (.ok body) moments =
      ((Wire.decideRequests engine requests moments).1,
        (Wire.decideRequests engine requests moments).2.mapError HttpError.schema) := by
  have hrequests : (Http.parseJson (.ok body) >>= Http.admitBatch) =
      if Http.maxBatch < requests.length then
        .error (.schema (.limitExceeded "max_batch" requests.length Http.maxBatch))
      else .ok requests := by
    change Http.admitBatch (.parse body) = _
    rw [Http.admitBatch, h]
  unfold Http.batch Wire.decideRequests
  rw [hrequests]
  have hsame : EngineHandle.maxBatch = Http.maxBatch := rfl
  rw [hsame]
  by_cases hmax : Http.maxBatch < requests.length
  · simp only [if_pos hmax]
    rfl
  · simp only [if_neg hmax, ← http_batchItems]
    rfl

/-- The HTTP batch and the wire batch give every envelope the same results, or refuse it with the
same code, and leave the same engine behind, unless the envelope is written as an array. -/
theorem batch_agree_iff (adapters : Http.Adapters) (engine : DecisionEngine) (body : Json)
    (moments : Nat → Moment) :
    ((Http.batch adapters engine none (.ok body) moments).1 =
        (Wire.decideBatchImpl engine (.ok body) moments).1 ∧
      (Http.batch adapters engine none (.ok body) moments).2.mapError HttpError.code =
        (Wire.decideBatchImpl engine (.ok body) moments).2.mapError WireFailure.code) ↔
      ¬ Positional (.parse body) := by
  constructor
  · rintro ⟨-, hcode⟩ hpos
    obtain ⟨requests, hrequests, hwire⟩ := batchRequests_positional hpos
    rw [http_batch hrequests, Wire.decideBatchImpl, hwire, Wire.decideRequests] at hcode
    split at hcode
    · have hnames : "schema.limit_exceeded" = "schema.invalid_value" := Except.error.inj hcode
      exact absurd hnames (by decide)
    · cases hcode
  · intro hpos
    have hagree := batchRequests_agree hpos
    rw [Wire.decideBatchImpl]
    cases hwire : Wire.batchRequests (.parse body) with
    | ok requests =>
      rw [hwire] at hagree
      rw [http_batch hagree]
      refine ⟨rfl, ?_⟩
      change Except.mapError _ (Except.mapError _ _) = Except.mapError _ (Except.mapError _ _)
      cases (Wire.decideRequests engine requests moments).2 <;> rfl
    | error failure =>
      rw [hwire] at hagree
      have hrequests : (Http.parseJson (.ok body) >>= Http.admitBatch) =
          .error (.schema (.invalidValue "requests"
            (SerdeTexts.refusal "BatchBody" (Value.parse body).1))) := by
        change Http.admitBatch (.parse body) = _
        rw [Http.admitBatch, hagree]
        rfl
      unfold Http.batch
      rw [hrequests]
      exact ⟨rfl, congrArg Except.error (batchRequests_refused hwire).symm⟩

end Surfaces

section Independence

variable [RustStd] [SerdeTexts] {engine : DecisionEngine}

open DecisionEngine (Service Step Justified newWithRungs)

def requestsOf (documents : List Value) : List DecisionRequest :=
  documents.filterMap fun document => (decode document).toOption

/-- A document that is no request is refused as such; any other one gets what its request is
decided on its own, or what a request of the batch under the same key is. -/
def RepliedAlone (engine : DecisionEngine) (asked : List DecisionRequest) (document : Value)
    (reply : Except Failure Value) : Prop :=
  match decode document with
  | .error failure => reply = .error failure
  | .ok request => ∃ result, engine.Justified asked (request, result) ∧
      reply = (result.mapError Failure.engine >>= encode)

/-- Where a batch stands: the replies so far are those of calls of an interleaving. -/
structure Underway (engine : DecisionEngine)
    (past : List ((Value × Moment) × Except Failure Value)) (present : DecisionEngine) : Prop where
  reached : ∃ s : Service, Relation.ReflTransGen engine.Step engine.service s ∧
    present = { engine with cache := s.cache } ∧ s.asked ⊆ requestsOf (past.map fun e => e.1.1) ∧
    ∀ e ∈ past, ∀ request, decode e.1.1 = .ok request → ∃ result, (request, result) ∈ s.replies ∧
      e.2 = (result.mapError Failure.engine >>= encode)
  refused : ∀ e ∈ past, ∀ failure, decode e.1.1 = .error failure → e.2 = .error failure

omit [RustStd] [SerdeTexts] in
theorem forall_mem_snoc {α : Type} {P : α → Prop} {l : List α} {a : α} (hl : ∀ e ∈ l, P e)
    (ha : P a) : ∀ e ∈ l ++ [a], P e := by
  simpa [or_imp, forall_and] using ⟨hl, ha⟩

theorem Underway.turn {past : List ((Value × Moment) × Except Failure Value)}
    {present : DecisionEngine} (h : Underway engine past present) {item : Value × Moment}
    (hitem : item.2.Timed) :
    Underway engine (past ++ [(item, (decideDocument present item).2)])
      (decideDocument present item).1 := by
  obtain ⟨s, hruns, rfl, hasked, hreplied⟩ := h.reached
  have hrequests : requestsOf ((past ++ [(item, (decideDocument
      { engine with cache := s.cache } item).2)]).map fun e => e.1.1) =
      requestsOf (past.map fun e => e.1.1) ++ requestsOf [item.1] := by
    simp only [requestsOf, List.map_append, List.filterMap_append, List.map_cons, List.map_nil]
  cases hdecode : decode item.1 with
  | error failure =>
    have hturn : decideDocument { engine with cache := s.cache } item =
        ({ engine with cache := s.cache }, .error failure) := by
      rw [decideDocument, deciding, hdecode]
    rw [hturn] at hrequests ⊢
    refine ⟨⟨s, hruns, rfl, ?_, forall_mem_snoc hreplied fun request hr => ?_⟩,
      forall_mem_snoc h.refused fun failure' hf => ?_⟩
    · rw [hrequests]
      exact List.subset_append_of_subset_left _ hasked
    · rw [hdecode] at hr
      cases hr
    · rw [hdecode] at hf
      cases hf
      rfl
  | ok request =>
    let decided := { engine with cache := s.cache }.decide request item.2
    have hturn : decideDocument { engine with cache := s.cache } item =
        (decided.1, decided.2.mapError Failure.engine >>= encode) := by
      rw [decideDocument, deciding, hdecode]
    obtain ⟨⟨cache, hcache⟩, -⟩ :=
      DecisionEngine.decide_frame { engine with cache := s.cache } request item.2
    have hcache : decided.1 = { engine with cache } := hcache
    rw [hturn] at hrequests ⊢
    refine ⟨⟨_, hruns.trans (DecisionEngine.decide_steps engine s request hitem), ?_, ?_,
      forall_mem_snoc (fun e he r hr => ?_) fun r hr => ?_⟩,
      forall_mem_snoc h.refused fun failure hf => ?_⟩
    · change decided.1 = { engine with cache := decided.1.cache }
      rw [hcache]
    · rw [hrequests]
      have hitem : requestsOf [item.1] = [request] := by
        simp [requestsOf, hdecode, Except.toOption]
      rw [hitem]
      exact List.cons_subset.mpr ⟨by simp, List.subset_append_of_subset_left _ hasked⟩
    · obtain ⟨result, hresult, heq⟩ := hreplied e he r hr
      exact ⟨result, List.mem_cons_of_mem _ hresult, heq⟩
    · rw [hdecode] at hr
      cases hr
      exact ⟨decided.2, List.mem_cons_self, rfl⟩
    · rw [hdecode] at hf
      cases hf

theorem decided_alone {setup : EngineSetup} {config : EngineConfig} {classifier : Classifier}
    {verifier : Option Classifier} {fallbacks : List Rung}
    (hnew : newWithRungs setup config classifier verifier fallbacks = .ok engine)
    {items : List (Value × Moment)} (htimed : ∀ item ∈ items, item.2.Timed) :
    List.Forall₂ (fun item reply => RepliedAlone engine (requestsOf (items.map Prod.fst)) item.1 reply)
      items (Mealy.run decideDocument engine items).2 := by
  have hlength := @Mealy.run_length _ _ _ decideDocument engine items
  have hstart : Underway engine [] engine :=
    ⟨⟨engine.service, .refl, rfl, List.nil_subset _, by simp⟩, by simp⟩
  have hunder := @Mealy.run_history _ _ _ decideDocument (fun item => item.2.Timed)
    (Underway engine) (fun past s item hitem h => h.turn hitem) [] engine hstart items htimed
  rw [List.nil_append] at hunder
  obtain ⟨s, hruns, -, hasked, hreplied⟩ := hunder.reached
  have hfirsts : (items.zip (Mealy.run decideDocument engine items).2).map (fun e => e.1.1) =
      items.map Prod.fst := by
    have hpairs := List.map_fst_zip hlength.ge
    exact List.map_map.symm.trans (congrArg (List.map Prod.fst) hpairs)
  rw [hfirsts] at hasked
  have hjustified := (DecisionEngine.honest_of_runs hnew hruns).replied
  refine List.forall₂_iff_zip.mpr ⟨hlength.symm, fun {item reply} he => ?_⟩
  unfold RepliedAlone
  cases hdecode : decode item.1 with
  | error failure => exact hunder.refused _ he failure hdecode
  | ok request =>
    obtain ⟨result, hresult, hreply⟩ := hreplied _ he request hdecode
    exact ⟨result, (hjustified _ hresult).mono hasked, hreply⟩

/-- On every surface a batch replies to every document, in order, as to the document on its own,
and counts the replies: whatever is refused, interrupted or fails in a batch touches no other
document. -/
theorem batches_alone {setup : EngineSetup} {config : EngineConfig} {classifier : Classifier}
    {verifier : Option Classifier} {fallbacks : List Rung}
    (hnew : newWithRungs setup config classifier verifier fallbacks = .ok engine)
    {documents : List Value} {moments : Nat → Moment} (htimed : ∀ i, (moments i).Timed)
    (hmax : documents.length ≤ EngineHandle.maxBatch) :
    ∃ replies : List (Except Failure Value), List.Forall₂ (RepliedAlone engine (requestsOf documents))
        documents replies ∧
      (batchDocument engine documents moments).2 =
        .ok (.struct [("results", some (.array (replies.map resultOf))),
          ("accepted", some (.nat (replies.countP Except.isOk))),
          ("refused", some (.nat (replies.countP fun reply => !reply.isOk)))]) ∧
      (Wire.decideRequests engine documents moments).2 =
        .ok (.struct [("results", some (.array (replies.map envelope))),
          ("count", some (.nat documents.length))]) := by
  let items := documents.zipIdx.map fun item => (item.1, moments item.2)
  let replies := (Mealy.run decideDocument engine items).2
  have hfirsts : items.map Prod.fst = documents := by
    simp only [items, List.map_map]
    exact List.zipIdx_map_fst 0 documents
  have hlength : replies.length = documents.length := by
    rw [← hfirsts, List.length_map]
    exact Mealy.run_length engine items
  have hmoments : ∀ item ∈ items, item.2.Timed := by
    intro item hitem
    obtain ⟨e, -, rfl⟩ := List.mem_map.mp hitem
    exact htimed e.2
  have halone := decided_alone hnew hmoments
  rw [hfirsts] at halone
  refine ⟨replies, ?_, ?_, ?_⟩
  · have hdocuments := List.forall₂_map_left_iff.mpr halone
    rwa [hfirsts] at hdocuments
  · have hcount : replies.length - replies.countP Except.isOk =
        replies.countP fun reply => !reply.isOk := by
      have hsum := List.length_eq_countP_add_countP (l := replies) Except.isOk
      simp only [Bool.not_eq_true, Bool.decide_eq_false] at hsum
      omega
    rw [batchDocument, if_neg (by omega), ← hcount]
  · rw [Wire.decideRequests, if_neg (by omega), wire_batch, ← hlength]
    simp only [List.length_map]
    rfl

end Independence

section Gate

variable [RustStd] [SerdeTexts] {engine : DecisionEngine}

/-- What the gate tool is to say of a response that answers its question with the value, the
probability and the confidence given, or not at all. -/
def gateView (outcome : DecisionOutcome) : Option (Bool × ℚ × ℚ) → Value
  | none => .struct [("proceed", some (.bool false)), ("confidence", some (.float 0)),
      ("outcome", some outcome.serialize), ("value", some (.bool false)),
      ("probability", some .null)]
  | some (value, probability, confidence) =>
    .struct [("proceed", some (.bool (outcome.isDecisive && value))),
      ("confidence", some (.float confidence)), ("outcome", some outcome.serialize),
      ("value", some (.bool value)), ("probability", some (.float probability))]

omit [RustStd] [SerdeTexts] in
theorem index_struct {fields : List (String × Option Value)} (hn : (fields.map Prod.fst).Nodup)
    (key : String) : index (.struct fields) key =
      ((fields.find? fun f => f.1 = key).bind Prod.snd).getD .null := by
  rw [index, Value.get?_struct hn]

omit [RustStd] [SerdeTexts] in
theorem indexAt_array (items : List Value) (i : Nat) :
    indexAt (.array items) i = items[i]?.getD .null := by
  have hitems : (Value.array items).items? = some items := by
    refine congrArg some (List.ext_getElem (by simp) fun i h₁ h₂ => Subtype.ext ?_)
    rw [List.getElem_pmap]
    exact List.getElem_map _
  rw [indexAt, hitems]
  rfl

omit [RustStd] [SerdeTexts] in
theorem decisive_serialize (outcome : DecisionOutcome) :
    (decide ((asStr outcome.serialize.1).getD "" = "accept") ||
      decide ((asStr outcome.serialize.1).getD "" = "verified")) = outcome.isDecisive := by
  cases outcome <;> decide

omit [RustStd] [SerdeTexts] in
theorem index_outcome (response : DecisionResponse) :
    index response.serialize "outcome" = response.outcome.serialize :=
  index_struct (by simp [DecisionResponse.fields]) "outcome"

/-- The verdict of a response document, decisive by the gate's reading of the outcome. -/
def verdictOf (encoded : Value) : Value :=
  let outcome := (asStr (index encoded "outcome").1).getD ""
  .struct [("outcome", some (index encoded "outcome")),
    ("decisive", some (.bool (outcome = "accept" || outcome = "verified"))),
    ("confidence", some (index encoded "confidence")),
    ("metrics", some (index encoded "metrics")),
    ("answers", some (index encoded "answers")), ("response", some encoded)]

/-- To verify is to decide; the verdict says nothing that the response document does not. -/
theorem verifyDocument_decide (item : Value × Moment) :
    verifyDocument engine item =
      ((decideDocument engine item).1, (decideDocument engine item).2.map verdictOf) := by
  have hverdict (response : DecisionResponse) :
      verdictDocument response = .ok (verdictOf response.serialize) := by
    rw [verdictOf, index_outcome, decisive_serialize, ← index_outcome]
    rfl
  unfold verifyDocument decideDocument deciding
  cases decode item.1 with
  | error failure => rfl
  | ok request =>
    dsimp only
    cases (engine.decide request item.2).2 with
    | error e => rfl
    | ok response => exact congrArg (Prod.mk _) (hverdict response)

omit [RustStd] [SerdeTexts] in
theorem index_boolean (id : QuestionId) (value : Bool) (probability confidence : ℚ) :
    let answer := (DecisionAnswer.boolean id value probability confidence).serialize
    index answer "value" = .bool value ∧ index answer "probability" = .float probability ∧
      index answer "confidence" = .float confidence := by
  have hn : ((DecisionAnswer.boolean id value probability confidence).fields.map
      Prod.fst).Nodup := by
    simp [DecisionAnswer.fields]
  exact ⟨index_struct hn "value", index_struct hn "probability", index_struct hn "confidence"⟩

omit [RustStd] [SerdeTexts] in
/-- The gate tool reads the response document as the response it was written from. -/
theorem gateReply_serialize (response : DecisionResponse) :
    (response.answers = [] → gateReply response.serialize = gateView response.outcome none) ∧
      ∀ id value probability confidence,
        response.answers = [.boolean id value probability confidence] →
        gateReply response.serialize =
          gateView response.outcome (some (value, probability, confidence)) := by
  have hn : (response.fields.map Prod.fst).Nodup := by simp [DecisionResponse.fields]
  have houtcome := index_outcome response
  have hanswers : index response.serialize "answers" =
      .array (response.answers.map DecisionAnswer.serialize) := index_struct hn "answers"
  constructor
  · intro hnone
    have hfirst : indexAt (.array []) 0 = .null := indexAt_array [] 0
    have hnull (key : String) : index .null key = .null := rfl
    have hfalse : asBoolOr .null false = false := rfl
    rw [gateReply, hanswers, houtcome, hnone, List.map_nil, hfirst]
    simp only [hnull, hfalse, Bool.and_false]
    rfl
  · intro id value probability confidence hone
    obtain ⟨hvalue, hprobability, hconfidence⟩ := index_boolean id value probability confidence
    have hfirst (answer : Value) : indexAt (.array [answer]) 0 = answer :=
      indexAt_array [answer] 0
    rw [gateReply, hanswers, houtcome, hone, List.map_cons, List.map_nil, hfirst]
    simp only [hvalue, hprobability, hconfidence, asBoolOr, Value.asBool_bool,
      Value.asFloat_float, Option.getD_some, decisive_serialize, gateView]

omit [RustStd] [SerdeTexts] in
theorem gateQuestion_deserialize (question : String) :
    DecisionQuestion.deserialize (Value.struct [("type", some (.str "boolean")),
      ("id", some (.str "gate")), ("text", some (.str question))]).1 =
      (BooleanQuestion.new "gate" question).toOption.map .boolean := by
  rw [DecisionQuestion.deserialize, Value.untag_struct (by simp) rfl]
  simp [BooleanQuestion.deserialize, Fields.required]

theorem gateRequest_decode {question : String} {state : Option String}
    {request : DecisionRequest} (h : decode (gateRequest question state) = .ok request) :
    ∃ q, BooleanQuestion.new "gate" question = .ok q ∧ request.questions = [.boolean q] ∧
      request.state = ⟨state.getD "", .empty, []⟩ := by
  have hread := Result.mapError_ok.mp h
  obtain ⟨hread, -, -⟩ := Native.decodeRequest_ok_iff.mp hread
  have hstate : State.deserialize (Value.struct [("text", some (.str (state.getD "")))]).1 =
      some ⟨state.getD "", .empty, []⟩ := rfl
  have hquestions : asList DecisionQuestion.deserialize
      (Value.array [.struct [("type", some (.str "boolean")), ("id", some (.str "gate")),
        ("text", some (.str question))]]).1 =
      ((BooleanQuestion.new "gate" question).toOption.map fun q => [.boolean q]) := by
    simp only [Value.array, asList, List.map_cons, List.map_nil, List.mapM_cons, List.mapM_nil,
      gateQuestion_deserialize]
    cases BooleanQuestion.new "gate" question <;> rfl
  have hn : ([("state", some (Value.struct [("text", some (.str (state.getD "")))])),
      ("questions", some (Value.array [.struct [("type", some (.str "boolean")),
        ("id", some (.str "gate")), ("text", some (.str question))]]))].map Prod.fst).Nodup := by
    simp
  rw [gateRequest, DecisionRequest.deserialize, Value.struct_val, fields?_obj] at hread
  obtain ⟨fields, hfields, hread⟩ := Option.bind_eq_some_iff.mp hread
  cases hfields
  rw [Value.required_struct hn rfl, Value.required_struct hn rfl, hstate, hquestions] at hread
  obtain ⟨s, hs, hread⟩ := Option.bind_eq_some_iff.mp hread
  cases hs
  obtain ⟨questions, hq, hread⟩ := Option.bind_eq_some_iff.mp hread
  obtain ⟨policy, -, hread⟩ := Option.bind_eq_some_iff.mp hread
  obtain ⟨metadata, -, hread⟩ := Option.bind_eq_some_iff.mp hread
  obtain ⟨q, hnew, rfl⟩ := Option.map_eq_some_iff.mp hq
  obtain ⟨hs, hqs, -⟩ := DecisionRequest.new_ok (Result.toOption_eq_some.mp hread)
  exact ⟨q, Result.toOption_eq_some.mp hnew, hqs, hs⟩

omit [RustStd] [SerdeTexts] in
/-- A request with one Boolean question is answered by its one answer, or not at all. -/
theorem answers_of_boolean {request : DecisionRequest} {q : BooleanQuestion}
    {answers : List DecisionAnswer} (hq : request.questions = [.boolean q])
    (h : AnswersAsked request answers) :
    answers = [] ∨ ∃ value probability confidence,
      answers = [.boolean q.id value probability confidence] := by
  have hboolean : ∀ answer ∈ answers, ∃ value probability confidence,
      answer = .boolean q.id value probability confidence := by
    intro answer hm
    obtain ⟨asked, hasked, hanswers⟩ := h.asked answer hm
    rw [hq, List.mem_singleton] at hasked
    subst hasked
    cases answer with
    | boolean id value probability confidence =>
      cases hanswers
      exact ⟨value, probability, confidence, rfl⟩
    | choice _ _ _ _ => exact hanswers.elim
    | score _ _ _ _ _ => exact hanswers.elim
  cases answers with
  | nil => exact .inl rfl
  | cons first rest =>
    obtain ⟨value, probability, confidence, rfl⟩ := hboolean first List.mem_cons_self
    cases rest with
    | nil => exact .inr ⟨value, probability, confidence, rfl⟩
    | cons second rest =>
      obtain ⟨_, _, _, rfl⟩ := hboolean second (by simp)
      have hdistinct := h.distinct
      simp [DecisionAnswer.questionId] at hdistinct

/-- After any calls, the gate tool says of the decision of its one question what the decision is:
it proceeds when the decision is decisive and its one answer is yes, and it takes a decision
without an answer, which is never decisive, for no reading at all. -/
theorem gateDocument_view {setup : EngineSetup} {config : EngineConfig} {classifier : Classifier}
    {verifier : Option Classifier} {fallbacks : List Rung}
    (hnew : DecisionEngine.newWithRungs setup config classifier verifier fallbacks = .ok engine)
    {asked : Set DecisionRequest} (hkeys : engine.KeysIdentify asked)
    {calls : List (DecisionRequest × Moment)} (hcalls : ∀ call ∈ calls, call.1 ∈ asked)
    {question : String} {state : Option String} {moment : Moment}
    (hasked : ∀ request, decode (gateRequest question state) = .ok request → request ∈ asked)
    {value : Value}
    (h : (gateDocument (engine.serve calls) question state moment).2 = .ok value) :
    ∃ request q response, decode (gateRequest question state) = .ok request ∧
      request.questions = [.boolean q] ∧ q.text = question ∧ request.state.text = state.getD "" ∧
      ((engine.serve calls).decide request moment).2 = .ok response ∧
      (response.answers = [] ∧ response.outcome.isDecisive = false ∧
          value = gateView response.outcome none ∨
        ∃ answer probability confidence,
          response.answers = [.boolean q.id answer probability confidence] ∧
          value = gateView response.outcome (some (answer, probability, confidence))) := by
  rw [gateDocument, decideDocument, deciding] at h
  cases hdecode : decode (gateRequest question state) with
  | error failure =>
    rw [hdecode] at h
    cases h
  | ok request =>
    rw [hdecode] at h
    dsimp only at h
    cases hdecided : ((engine.serve calls).decide request moment).2 with
    | error e =>
      rw [hdecided] at h
      cases h
    | ok response =>
      rw [hdecided] at h
      have hvalue : gateReply response.serialize = value := Except.ok.inj h
      obtain ⟨q, hq, hquestions, hstate⟩ := gateRequest_decode hdecode
      have hfresh (key : CacheKey) : engine.cache.stored key = none :=
        DecisionCache.stored_new (DecisionEngine.newWithRungs_ok hnew).2.2.1 key
      have hserves := (DecisionEngine.serves_of_fresh (DecisionEngine.runsGive_asked engine) hkeys
        hfresh).serve DecisionEngine.canonically_asked hcalls
      have hanswers := hserves.answers DecisionEngine.canonically_asked (hasked request hdecode)
        hdecided
      obtain ⟨hnone, hone⟩ := gateReply_serialize response
      refine ⟨request, q, response, rfl, hquestions, (BooleanQuestion.new_ok_iff.mp hq).2,
        congrArg State.text hstate, hdecided, ?_⟩
      rcases answers_of_boolean hquestions hanswers with hempty | ⟨answer, p, c, hanswer⟩
      · have hundecided : response.outcome.isDecisive = false := by
          cases hd : response.outcome.isDecisive with
          | false => rfl
          | true => exact absurd hempty (response.decisive_answers hd)
        exact .inl ⟨hempty, hundecided, hvalue.symm.trans (hnone hempty)⟩
      · exact .inr ⟨answer, p, c, hanswer, hvalue.symm.trans (hone q.id answer p c hanswer)⟩

end Gate

section Sample

attribute [local instance] plainStd plainTexts

def promptly : Moment := ⟨0, 0, Executor.guardOf (.after 0 1) 0 (check false)⟩

/-- The gate tool asks an engine the question that the engine has just answered. -/
def gateAgain (engine : DecisionEngine) (asked : DecisionRequest) : Except Failure Value :=
  (gateDocument (engine.serve [(asked, promptly)]) "is it so" none promptly).2

def mixedBatch : List Value := [.null, gateRequest "is it so" none]

theorem batches_alone_mixed : ∃ (engine : DecisionEngine) (replies : List (Except Failure Value)),
    sessionEngine = .ok engine ∧
      List.Forall₂ (RepliedAlone engine (requestsOf mixedBatch)) mixedBatch replies ∧
      (batchDocument engine mixedBatch fun _ => promptly).2 =
        .ok (.struct [("results", some (.array (replies.map resultOf))),
          ("accepted", some (.nat (replies.countP Except.isOk))),
          ("refused", some (.nat (replies.countP fun reply => !reply.isOk)))]) ∧
      (Wire.decideRequests engine mixedBatch fun _ => promptly).2 =
        .ok (.struct [("results", some (.array (replies.map envelope))),
          ("count", some (.nat mixedBatch.length))]) := by
  obtain ⟨engine, hnew⟩ := Result.ok_of_isSome
    (by decide +kernel : sessionEngine.toOption.isSome = true)
  have hpromptly : promptly.Timed := ⟨.after 0 1, 0, check false, rfl⟩
  obtain ⟨replies, hreplies⟩ := batches_alone hnew (fun _ => hpromptly)
    (by decide : mixedBatch.length ≤ EngineHandle.maxBatch)
  exact ⟨engine, replies, hnew, hreplies⟩

/-- The second answer is the first one's, out of the cache. -/
theorem gateDocument_view_again : ∃ (engine : DecisionEngine) (value : Value)
    (request : DecisionRequest) (q : BooleanQuestion) (response : DecisionResponse),
    sessionEngine = .ok engine ∧ gateAgain engine request = .ok value ∧
      request.questions = [.boolean q] ∧ q.text = "is it so" ∧
      ((engine.serve [(request, promptly)]).decide request promptly).2 = .ok response ∧
      response.metrics.cacheHit = true ∧
      (response.answers = [] ∧ response.outcome.isDecisive = false ∧
          value = gateView response.outcome none ∨
        ∃ answer probability confidence,
          response.answers = [.boolean q.id answer probability confidence] ∧
          value = gateView response.outcome (some (answer, probability, confidence))) := by
  obtain ⟨engine, hnew⟩ := Result.ok_of_isSome
    (by decide +kernel : sessionEngine.toOption.isSome = true)
  obtain ⟨asked, hasked⟩ := Result.ok_of_isSome
    (by decide +kernel : (decode (gateRequest "is it so" none)).toOption.isSome = true)
  have hanswer : (sessionEngine.toOption.bind fun e =>
      (decode (gateRequest "is it so" none)).toOption.bind fun r =>
        (gateAgain e r).toOption).isSome = true := by decide +kernel
  have hcached : ((sessionEngine.toOption.bind fun e =>
      (decode (gateRequest "is it so" none)).toOption.bind fun r =>
        ((e.serve [(r, promptly)]).decide r promptly).2.toOption).map
          fun response => response.metrics.cacheHit) = some true := by decide +kernel
  rw [hnew, hasked] at hanswer hcached
  obtain ⟨value, hvalue⟩ := Result.ok_of_isSome hanswer
  have hkeys : engine.KeysIdentify {asked} := by
    rintro r rfl r' rfl key _ _
    rfl
  obtain ⟨request, q, response, hrequest, hquestions, htext, -, hdecided, hview⟩ :=
    gateDocument_view hnew hkeys (by simp)
      (fun request h => Except.ok.inj (h.symm.trans hasked)) hvalue
  cases Except.ok.inj (hasked.symm.trans hrequest)
  have hcached : response.metrics.cacheHit = true := by
    simpa [Except.toOption, hdecided] using hcached
  exact ⟨engine, value, asked, q, response, hnew, hvalue, hquestions, htext, hdecided, hcached,
    hview⟩

end Sample

end Mcp

end OpenCodifier
