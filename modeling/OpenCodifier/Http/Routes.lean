import OpenCodifier.Schema.Native
import OpenCodifier.Schema.Jev
import OpenCodifier.Engine.Serve
set_option autoImplicit false

namespace OpenCodifier

open Json

inductive HttpError where
  | schema (error : SchemaError)
  | engine (error : EngineError)
  | graph (error : EngineError)
  | feedbackDisabled
  deriving DecidableEq

namespace HttpError

def code : HttpError → String
  | schema error => error.code
  | engine error | graph error => error.code
  | feedbackDisabled => "http.feedback_disabled"

def display [RustStd] : HttpError → String
  | schema error => error.display
  | engine error | graph error => error.display
  | feedbackDisabled =>
    "no evidence sink configured: start `serve --evidence <PATH>` to enable /v1/feedback"

end HttpError

namespace Http

def formatHeader : String := "x-opencodifier-format"

def maxBatch : Nat := 16

/-- The bytes of a request, read as a document tree or refused with the parser's text. -/
abbrev Body := Except String Json

structure Adapters where
  openai : WireFormat
  anthropic : WireFormat

section Format

def visibleAscii (b : UInt8) : Bool := (32 ≤ b && b < 127) || b = 9

def isBlank (c : Char) : Bool := c = ' ' || c = '\t'

def trim (l : List Char) : List Char := (l.dropWhile isBlank).rdropWhile isBlank

def formatName (value : List UInt8) : Option String :=
  if value.all visibleAscii then
    some (String.ofList ((trim (value.map Char.ofUInt8)).map Char.toLower))
  else none

variable [RustStd] [SerdeTexts]

def selectedFormat (adapters : Adapters) (header : Option (List UInt8)) :
    Except HttpError WireFormat :=
  match header with
  | none => .ok Native.format
  | some value =>
    match formatName value with
    | none => .error (.schema (.invalidValue formatHeader "header value is not valid ASCII"))
    | some name =>
      if name = "native" then .ok Native.format
      else if name = "openai" then .ok adapters.openai
      else if name = "anthropic" then .ok adapters.anthropic
      else if name = "jev" then .ok Jev.format
      else .error (.schema (.invalidValue formatHeader ("`" ++ name
        ++ "` names no wire format; supported: native, openai, anthropic, jev")))

theorem selectedFormat_jev (adapters : Adapters) {value : List UInt8}
    (h : formatName value = some "jev") :
    selectedFormat adapters (some value) = .ok Jev.format := by
  simp [selectedFormat, h]

end Format

def parseJson (body : Body) : Except HttpError Value :=
  match body with
  | .ok document => .ok (.parse document)
  | .error reason => .error (.schema (.json reason))

/-- The requests of a batch: under their key, or in the first place of an array. -/
def batchRequests (payload : Value) : Option (List Value) := do
  let f ← payload.1.fields? 1
  f.required 0 "requests" (asList fun j => some (.parse j))

variable [RustStd]

def encodeReply (format : WireFormat) : EngineResult DecisionResponse → Except HttpError Value
  | .error e => .error (.engine e)
  | .ok response =>
    match format.encodeResponse response with
    | .ok value => .ok value
    | .error e => .error (.engine (.serialization e.display))

def decideDocument (format : WireFormat) (engine : DecisionEngine) (document : Value)
    (moment : Moment) : DecisionEngine × Except HttpError Value :=
  match format.decodeRequest document {} with
  | .error e => (engine, .error (.schema e))
  | .ok request =>
    let decided := engine.decide request moment
    (decided.1, encodeReply format decided.2)

def batchItem (format : WireFormat) (engine : DecisionEngine) (document : Value)
    (moment : Moment) : DecisionEngine × Value :=
  let decided := decideDocument format engine document moment
  (decided.1,
    match decided.2 with
    | .ok response => .struct [("response", some response)]
    | .error e => .struct [("error", some (.struct [("code", some (.str e.code)),
        ("message", some (.str e.display))]))])

def batchItems (format : WireFormat) (engine : DecisionEngine) :
    List (Value × Moment) → DecisionEngine × List Value
  | [] => (engine, [])
  | item :: items =>
    let decided := batchItem format engine item.1 item.2
    let rest := batchItems format decided.1 items
    (rest.1, decided.2 :: rest.2)

section Routes

variable [SerdeTexts]

def decide (adapters : Adapters) (engine : DecisionEngine) (header : Option (List UInt8))
    (body : Body) (moment : Moment) : DecisionEngine × Except HttpError Value :=
  match selectedFormat adapters header, parseJson body with
  | .error e, _ => (engine, .error e)
  | .ok _, .error e => (engine, .error e)
  | .ok format, .ok payload => decideDocument format engine payload moment

def admitBatch (payload : Value) : Except HttpError (List Value) :=
  match batchRequests payload with
  | none => .error (.schema (.invalidValue "requests" (SerdeTexts.refusal "BatchBody" payload.1)))
  | some requests =>
    if maxBatch < requests.length then
      .error (.schema (.limitExceeded "max_batch" requests.length maxBatch))
    else .ok requests

def batch (adapters : Adapters) (engine : DecisionEngine) (header : Option (List UInt8))
    (body : Body) (moments : Nat → Moment) : DecisionEngine × Except HttpError Value :=
  match selectedFormat adapters header, parseJson body >>= admitBatch with
  | .error e, _ => (engine, .error e)
  | .ok _, .error e => (engine, .error e)
  | .ok format, .ok requests =>
    let decided := batchItems format engine
      (requests.zipIdx.map fun item => (item.1, moments item.2))
    (decided.1, .ok (.struct [("results", some (.array decided.2)),
      ("count", some (.nat decided.2.length))]))

end Routes

section Steps

variable {format : WireFormat} {engine : DecisionEngine} {asked : Set DecisionRequest}
  {document : Value} {moment : Moment}

theorem decideDocument_ok {value : Value}
    (h : (decideDocument format engine document moment).2 = .ok value) :
    ∃ request response, format.decodeRequest document {} = .ok request ∧
      (engine.decide request moment).2 = .ok response ∧
      format.encodeResponse response = .ok value := by
  unfold decideDocument at h
  split at h
  · cases h
  · rename_i request hrequest
    dsimp only at h
    unfold encodeReply at h
    split at h
    · cases h
    · rename_i response hresponse
      split at h
      · rename_i value' hvalue
        cases h
        exact ⟨request, response, hrequest, hresponse, hvalue⟩
      · cases h

theorem decideDocument_serves (h : engine.ServesInOrder asked)
    (hasked : ∀ request, format.decodeRequest document {} = .ok request → request ∈ asked) :
    (decideDocument format engine document moment).1.ServesInOrder asked := by
  unfold decideDocument
  split
  · exact h
  · rename_i request hrequest
    exact h.decide (hasked request hrequest) moment

theorem batchItems_serves (h : engine.ServesInOrder asked) {items : List (Value × Moment)}
    (hasked : ∀ item ∈ items, ∀ request, format.decodeRequest item.1 {} = .ok request →
      request ∈ asked) : (batchItems format engine items).1.ServesInOrder asked := by
  induction items generalizing engine with
  | nil => exact h
  | cons item items ih =>
    exact ih (decideDocument_serves h (hasked item List.mem_cons_self))
      fun item' hitem' => hasked item' (List.mem_cons_of_mem _ hitem')

/-- Each result is that of its item on the engine the items before it leave behind. -/
theorem batchItems_getElem? (items : List (Value × Moment)) (i : Nat) :
    (batchItems format engine items).2[i]? = items[i]?.map fun item =>
      (batchItem format (batchItems format engine (items.take i)).1 item.1 item.2).2 := by
  induction items generalizing engine i with
  | nil => rfl
  | cons item items ih =>
    cases i with
    | zero => rfl
    | succ i =>
      rw [batchItems, List.getElem?_cons_succ, List.getElem?_cons_succ, ih, List.take_succ_cons]
      rfl

theorem batchItems_length (items : List (Value × Moment)) :
    (batchItems format engine items).2.length = items.length := by
  induction items generalizing engine with
  | nil => rfl
  | cons item items ih => rw [batchItems, List.length_cons, List.length_cons, ih]

theorem batchItem_response {value : Value}
    (h : (batchItem format engine document moment).2.1.descend ⟨"response", 0⟩ = some value.1) :
    (decideDocument format engine document moment).2 = .ok value := by
  unfold batchItem at h
  dsimp only at h
  cases hd : (decideDocument format engine document moment).2 with
  | error e =>
    rw [hd] at h
    cases h
  | ok response =>
    rw [hd] at h
    exact congrArg Except.ok (Subtype.ext (Option.some.inj h))

end Steps

omit [RustStd] in
theorem batchRequests_parse {body : Json} {requests : List Value}
    (h : batchRequests (Value.parse body) = some requests) :
    ∃ items, body.member ⟨"requests", 0⟩ = some (.arr items) ∧ requests = items.map .parse := by
  obtain ⟨f, hf, h⟩ := Option.bind_eq_some_iff.mp h
  obtain ⟨inner, hinner, h⟩ := Option.bind_eq_some_iff.mp h
  have hdescend : body.normalize.descend ⟨"requests", 0⟩ = some inner :=
    (slot_eq_descend hf ⟨"requests", 0⟩).symm.trans hinner
  obtain ⟨raw, hmember, hnormal⟩ := member_of_descend hdescend
  cases inner with
  | arr inner =>
    obtain ⟨items, rfl, rfl⟩ := normalize_eq_arr hnormal
    refine ⟨items, hmember, ?_⟩
    have hsome : (items.map normalize).mapM (fun j => some (Value.parse j)) =
        some ((items.map normalize).map Value.parse) := List.mapM_pure
    have h : (items.map normalize).mapM (fun j => some (Value.parse j)) = some requests := h
    rw [hsome, Option.some.injEq, List.map_map] at h
    rw [← h]
    refine List.map_congr_left fun item _ => Subtype.ext ?_
    exact normalize_of_canonical _ (canonical_normalize item)
  | _ => cases h

def batchCalls (items : List Json) (moments : Nat → Moment) : List (Value × Moment) :=
  items.zipIdx.map fun item => (.parse item.1, moments item.2)

/-- A batch is answered by the results of its items, in order. -/
theorem batch_ok [SerdeTexts] {adapters : Adapters} {format : WireFormat}
    {engine : DecisionEngine} {header : Option (List UInt8)} {body : Json}
    {moments : Nat → Moment} {value : Value}
    (hformat : selectedFormat adapters header = .ok format)
    (h : (batch adapters engine header (.ok body) moments).2 = .ok value) :
    ∃ items, body.member ⟨"requests", 0⟩ = some (.arr items) ∧ items.length ≤ maxBatch ∧
      value.1.descend ⟨"results", 0⟩ = some
        (Value.array (batchItems format engine (batchCalls items moments)).2).1 := by
  have hadmit : ∃ requests, admitBatch (.parse body) = .ok requests := by
    cases hadmit : admitBatch (.parse body) with
    | ok requests => exact ⟨requests, rfl⟩
    | error e =>
      have hparsed : (parseJson (.ok body) >>= admitBatch) = .error e := hadmit
      simp [batch, hformat, hparsed] at h
  obtain ⟨requests, hadmit⟩ := hadmit
  have hparsed : (parseJson (.ok body) >>= admitBatch) = .ok requests := hadmit
  simp only [batch, hformat, hparsed, Except.ok.injEq] at h
  unfold admitBatch at hadmit
  split at hadmit
  · cases hadmit
  · rename_i requests' hrequests
    split at hadmit
    · cases hadmit
    · rename_i hcount
      cases hadmit
      obtain ⟨items, hitems, rfl⟩ := batchRequests_parse hrequests
      refine ⟨items, hitems, ?_, ?_⟩
      · rw [List.length_map] at hcount
        omega
      · have hcalls : batchCalls items moments = (items.map Value.parse).zipIdx.map
            fun item => (item.1, moments item.2) := by
          rw [List.zipIdx_map, List.map_map]
          rfl
        rw [← h, ← hcalls, Value.struct_val, descend, Value.lookup_structFields _ (by simp)]
        simp

end Http

end OpenCodifier
