import OpenCodifier.Schema.Codec
import OpenCodifier.Schema.RequestSerde
import OpenCodifier.Schema.ResponseSerde
import OpenCodifier.Engine.Sample
set_option autoImplicit false

namespace OpenCodifier

open Json

section Ceilings

/-- What a request carries and what it declares, against the caller's ceilings. -/
structure Limits.Admits (limits : Limits) (r : DecisionRequest) : Prop where
  text : r.state.text.utf8ByteSize ≤ limits.maxInputBytes
  questions : r.questions.length ≤ limits.maxQuestions
  candidates : ∀ q ∈ r.questions, DecisionRequest.candidateCount q ≤ limits.maxCandidates
  maxInputBytes : r.metadata.limits.maxInputBytes ≤ limits.maxInputBytes
  maxQuestions : r.metadata.limits.maxQuestions ≤ limits.maxQuestions
  maxCandidates : r.metadata.limits.maxCandidates ≤ limits.maxCandidates
  maxGraphNodes : r.metadata.limits.maxGraphNodes ≤ limits.maxGraphNodes
  maxRetrievalResults : r.metadata.limits.maxRetrievalResults ≤ limits.maxRetrievalResults
  images : r.state.images.length ≤ limits.maxImages
  imageBytes : ∀ image ∈ r.state.images, image.data.length ≤ limits.maxImageBytes
  maxImages : r.metadata.limits.maxImages ≤ limits.maxImages
  maxImageBytes : r.metadata.limits.maxImageBytes ≤ limits.maxImageBytes
  maxExecutionTime : r.metadata.limits.maxExecutionTime ≤ limits.maxExecutionTime

def withinTime (actual max : Duration) : SchemaResult Unit :=
  if max < actual then
    .error (.limitExceeded "max_execution_time" (Duration.asSecs actual) (Duration.asSecs max))
  else .ok ()

def checkLimits (r : DecisionRequest) (limits : Limits) : SchemaResult Unit := do
  let payload := r.metadata.limits
  within "max_input_bytes" r.state.text.utf8ByteSize limits.maxInputBytes
  within "max_questions" r.questions.length limits.maxQuestions
  r.questions.forM fun q =>
    within "max_candidates" (DecisionRequest.candidateCount q) limits.maxCandidates
  within "max_input_bytes" payload.maxInputBytes limits.maxInputBytes
  within "max_questions" payload.maxQuestions limits.maxQuestions
  within "max_candidates" payload.maxCandidates limits.maxCandidates
  within "max_graph_nodes" payload.maxGraphNodes limits.maxGraphNodes
  within "max_retrieval_results" payload.maxRetrievalResults limits.maxRetrievalResults
  within "max_images" r.state.images.length limits.maxImages
  r.state.images.forM fun image =>
    within "max_image_bytes" image.data.length limits.maxImageBytes
  within "max_images" payload.maxImages limits.maxImages
  within "max_image_bytes" payload.maxImageBytes limits.maxImageBytes
  withinTime payload.maxExecutionTime limits.maxExecutionTime

theorem checkLimits_ok_iff (r : DecisionRequest) (limits : Limits) :
    checkLimits r limits = .ok () ↔ limits.Admits r := by
  have htime : withinTime r.metadata.limits.maxExecutionTime limits.maxExecutionTime = .ok () ↔
      r.metadata.limits.maxExecutionTime ≤ limits.maxExecutionTime := by
    simp [withinTime]
  simp only [checkLimits, Result.bind_unit_ok, Result.forM_ok_iff, within_ok_iff, htime]
  constructor
  · intro h
    obtain ⟨h1, h2, h3, h4, h5, h6, h7, h8, h9, h10, h11, h12, h13⟩ := h
    exact ⟨h1, h2, h3, h4, h5, h6, h7, h8, h9, h10, h11, h12, h13⟩
  · intro h
    obtain ⟨h1, h2, h3, h4, h5, h6, h7, h8, h9, h10, h11, h12, h13⟩ := h
    exact ⟨h1, h2, h3, h4, h5, h6, h7, h8, h9, h10, h11, h12, h13⟩

end Ceilings

/-- Keys that the encoding of the decoded value lacks are refused. -/
def rejectUnknownFields (payload canonical : Value) : SchemaResult Unit :=
  match unknownKey payload.1 canonical.1 with
  | some key => .error (.invalidValue key ("unknown field `" ++ key ++ "` in a native payload"))
  | none => .ok ()

theorem rejectUnknownFields_ok_iff (payload canonical : Value) :
    rejectUnknownFields payload canonical = .ok () ↔
      unknownKey payload.1 canonical.1 = none := by
  rw [rejectUnknownFields]
  cases unknownKey payload.1 canonical.1 <;> simp

namespace Native

variable [RustStd] [SerdeTexts]

def encodeRequest (r : DecisionRequest) : SchemaResult Value := .ok r.serialize

def decodeRequest (payload : Value) (limits : Limits) : SchemaResult DecisionRequest :=
  match DecisionRequest.deserialize payload.1 with
  | none => .error (.invalidValue "request" (SerdeTexts.refusal "DecisionRequest" payload.1))
  | some r => do
    rejectUnknownFields payload r.serialize
    checkLimits r limits
    ofCoreSchema (DecisionRequest.new r.state r.questions r.policy r.metadata)

def revalidateDistribution (a : DecisionAnswer) : SchemaResult Unit :=
  let revalidate (d : Distribution) : SchemaResult Unit :=
    match Distribution.new d.entries with
    | .ok _ => .ok ()
    | .error e => .error (.invalidValue "distribution" e.display)
  match a with
  | .choice _ _ d _ => revalidate d
  | .score _ _ _ d _ => revalidate d
  | .boolean .. => .ok ()

def encodeResponse (r : DecisionResponse) : SchemaResult Value := .ok r.serialize

/-- Neither the request nor the ceilings take part. -/
def decodeResponse (payload : Value) (_request : DecisionRequest) (_limits : Limits) :
    SchemaResult DecisionResponse :=
  match DecisionResponse.deserialize payload.1 with
  | none => .error (.invalidValue "response" (SerdeTexts.refusal "DecisionResponse" payload.1))
  | some r => do
    rejectUnknownFields payload r.serialize
    r.answers.forM revalidateDistribution
    let rebuilt ← ofCoreSchema
      (DecisionResponse.new r.answers r.outcome r.confidence r.trace r.metrics)
    match r.escalation with
    | some report => ofCoreSchema (rebuilt.withEscalation report)
    | none => .ok rebuilt

def format : WireFormat where
  name := "native"
  decodeRequest := decodeRequest
  encodeResponse := encodeResponse

omit [SerdeTexts] in
theorem revalidateDistribution_ok (a : DecisionAnswer) : revalidateDistribution a = .ok () := by
  cases a <;> simp [revalidateDistribution, Distribution.new_self]

section Accepted

variable {payload : Value} {limits : Limits}

/-- A request is accepted when it reads, has no key that its encoding lacks, and keeps the
ceilings. -/
theorem decodeRequest_ok_iff {r : DecisionRequest} :
    decodeRequest payload limits = .ok r ↔ DecisionRequest.deserialize payload.1 = some r ∧
      unknownKey payload.1 r.serialize.1 = none ∧ limits.Admits r := by
  cases hread : DecisionRequest.deserialize payload.1 with
  | none => simp [decodeRequest, hread]
  | some r0 =>
    have hnew := DecisionRequest.built_of_deserialize hread
    simp only [decodeRequest, hread, Result.bind_unit_ok, rejectUnknownFields_ok_iff,
      checkLimits_ok_iff, hnew, ofCoreSchema, Except.ok.injEq, Option.some.injEq]
    constructor
    · rintro ⟨hkey, hlimits, rfl⟩
      exact ⟨rfl, hkey, hlimits⟩
    · rintro ⟨rfl, hkey, hlimits⟩
      exact ⟨hkey, hlimits, rfl⟩

omit [SerdeTexts] in
theorem rebuild_ok {r : DecisionResponse} (hb : r.Built) :
    (do
      let rebuilt ← ofCoreSchema
        (DecisionResponse.new r.answers r.outcome r.confidence r.trace r.metrics)
      match r.escalation with
      | some report => ofCoreSchema (rebuilt.withEscalation report)
      | none => .ok rebuilt) = .ok r := by
  obtain ⟨rebuilt, hnew, hattach⟩ := Result.bind_ok.mp hb
  simp only [hnew, ofCoreSchema, bind, Except.bind]
  cases hreport : r.escalation with
  | none =>
    rw [hreport] at hattach
    exact congrArg ofCoreSchema hattach
  | some report =>
    rw [hreport] at hattach
    exact congrArg ofCoreSchema hattach

theorem decodeResponse_ok_iff {request : DecisionRequest} {r : DecisionResponse} :
    decodeResponse payload request limits = .ok r ↔
      DecisionResponse.deserialize payload.1 = some r ∧
        unknownKey payload.1 r.serialize.1 = none := by
  cases hread : DecisionResponse.deserialize payload.1 with
  | none => simp [decodeResponse, hread]
  | some r0 =>
    have hanswers : r0.answers.forM revalidateDistribution = .ok () :=
      (Result.forM_ok_iff _ _).mpr fun a _ => revalidateDistribution_ok a
    have hbuilt := rebuild_ok (DecisionResponse.built_of_deserialize hread)
    simp only [decodeResponse, hread, Result.bind_unit_ok, rejectUnknownFields_ok_iff, hanswers,
      true_and, Option.some.injEq]
    rw [hbuilt, Except.ok.injEq]
    constructor
    · rintro ⟨hkey, rfl⟩
      exact ⟨rfl, hkey⟩
    · rintro ⟨rfl, hkey⟩
      exact ⟨hkey, rfl⟩

end Accepted

theorem decodeRequest_encode {r : DecisionRequest} {limits : Limits} (hw : r.FitsWords)
    (hi : r.FitsWire) (hnew : DecisionRequest.new r.state r.questions r.policy r.metadata = .ok r)
    (hadmits : limits.Admits r) : decodeRequest r.serialize limits = .ok r :=
  decodeRequest_ok_iff.mpr ⟨DecisionRequest.deserialize_serialize hw hi hnew,
    unknownKey_self _ r.serialize.2, hadmits⟩

theorem decodeRequest_oversized {r : DecisionRequest} (hi : ¬ r.FitsWire) (limits : Limits) :
    ∃ reason, decodeRequest r.serialize limits = .error (.invalidValue "request" reason) := by
  rw [decodeRequest, DecisionRequest.deserialize_serialize_none hi]
  exact ⟨_, rfl⟩

theorem decodeResponse_encode {r : DecisionResponse} (hw : r.FitsWords) (hb : r.Built)
    (request : DecisionRequest) (limits : Limits) :
    decodeResponse r.serialize request limits = .ok r :=
  decodeResponse_ok_iff.mpr
    ⟨DecisionResponse.deserialize_serialize hw hb, unknownKey_self _ r.serialize.2⟩

/-- Decoding the encoding of a request gives the request back when its images stay under the wire
ceiling and refuses it otherwise; decoding the encoding of a response gives the response back. -/
theorem encode_roundTrip :
    (∀ (state : State) (questions : List DecisionQuestion) (policy : DecisionPolicy)
        (metadata : RequestMetadata) (limits : Limits) (r : DecisionRequest),
      DecisionRequest.new state questions policy metadata = .ok r → r.FitsWords →
      limits.Admits r →
        (r.FitsWire → (do
          let payload ← encodeRequest r
          decodeRequest payload limits) = .ok r) ∧
        (¬ r.FitsWire → ∃ reason, (do
          let payload ← encodeRequest r
          decodeRequest payload limits) = .error (.invalidValue "request" reason))) ∧
    ∀ (answers : List DecisionAnswer) (outcome : DecisionOutcome) (confidence : ConfidenceReport)
        (trace : DecisionTrace) (metrics : DecisionMetrics) (escalation : Option EscalationReport)
        (r : DecisionResponse),
      (do
        let response ← DecisionResponse.new answers outcome confidence trace metrics
        DecisionResponse.attach escalation response) = .ok r → r.FitsWords →
      ∀ (request : DecisionRequest) (limits : Limits),
        (do
          let payload ← encodeResponse r
          decodeResponse payload request limits) = .ok r := by
  constructor
  · intro state questions policy metadata limits r hnew hw hadmits
    exact ⟨fun hi => decodeRequest_encode hw hi (DecisionRequest.new_self hnew) hadmits,
      fun hi => decodeRequest_oversized hi limits⟩
  · intro answers outcome confidence trace metrics escalation r hnew hw request limits
    exact decodeResponse_encode hw (DecisionResponse.built_of_new hnew) request limits

end Native

section Samples

attribute [local instance] plainStd

/-- A deserializer that gives the same text for every refusal. -/
abbrev plainTexts : SerdeTexts where
  refusal _ _ := "refused"

attribute [local instance] plainTexts

open Sample

def blank (size : Nat) : ImageInput := ⟨.png, List.replicate size 0⟩

def wide (size : Nat) : Limits := { maxImageBytes := size }

def withBlank (size : Nat) : DecisionRequest :=
  ⟨⟨"ticket", OrdMap.empty, [blank size]⟩, [boolean "spam"], .defaults,
    { limits := wide size }, by simp⟩

theorem new_withBlank (size : Nat) :
    DecisionRequest.new (withBlank size).state (withBlank size).questions (withBlank size).policy
      (withBlank size).metadata = .ok (withBlank size) := by
  have hcount : DecisionRequest.candidateCount (boolean "spam") = 0 := rfl
  have hsize : "ticket".utf8ByteSize = 6 := rfl
  simp [DecisionRequest.new, withBlank, blank, wide, hcount, hsize]

theorem fitsWords_withBlank {size : Nat} (h : size < 2 ^ 64) : (withBlank size).FitsWords where
  state := by simp [State.FitsWords, withBlank, OrdMap.empty]
  limits := by
    constructor
    case maxImageBytes => exact h
    all_goals norm_num [withBlank, wide, Duration.FitsWords, Duration.perSecond]

theorem admits_withBlank (size : Nat) : (wide size).Admits (withBlank size) := by
  have hcount : DecisionRequest.candidateCount (boolean "spam") = 0 := rfl
  have hsize : "ticket".utf8ByteSize = 6 := rfl
  constructor <;> simp [withBlank, blank, wide, hcount, hsize]

theorem fitsWire_withBlank_iff (size : Nat) :
    (withBlank size).FitsWire ↔ 4 * ((size + 2) / 3) ≤ maxEncodedImageBytes := by
  simp [DecisionRequest.FitsWire, ImageInput.FitsWire, withBlank, blank]

/-- An image of some twelve million bytes is admitted, and what it is encoded to is refused. -/
theorem Native.encode_roundTrip_oversized :
    ∃ (r : DecisionRequest) (limits : Limits),
      DecisionRequest.new r.state r.questions r.policy r.metadata = .ok r ∧ r.FitsWords ∧
        limits.Admits r ∧
        (do
          let payload ← Native.encodeRequest r
          Native.decodeRequest payload limits) ≠ .ok r := by
  have hsize : ∃ size : Nat, size < 2 ^ 64 ∧ ¬ 4 * ((size + 2) / 3) ≤ maxEncodedImageBytes :=
    ⟨12600000, by norm_num, by norm_num [maxEncodedImageBytes]⟩
  obtain ⟨size, hword, hwire⟩ := hsize
  rw [← fitsWire_withBlank_iff] at hwire
  obtain ⟨reason, hrefused⟩ := Native.decodeRequest_oversized hwire (wide size)
  refine ⟨withBlank size, wide size, new_withBlank size, fitsWords_withBlank hword,
    admits_withBlank size, fun h => ?_⟩
  cases hrefused.symm.trans h

def handoff : EscalationReport where
  reason := .belowConfidence
  gate := ⟨.confidence, 3 / 5, 1 / 2⟩
  requestedAction := .askTheHostModel
  engine := ⟨"lexical", 7, 3, "0.6.1"⟩
  payload := {
    question := ⟨"boolean", "is it so"⟩
    stateSummary := ⟨6, 0, 0⟩
    candidatesRuledIn := []
    candidatesRuledOut := []
    partialAnswer := some ⟨.boolean true, 1 / 2⟩
    trace := []
    guidance := "decide from the state"
    truncated := true }

def newHandedOff : CoreResult DecisionResponse := do
  let response ← DecisionResponse.new [.boolean (boolean "spam").id true (1 / 2) (1 / 2)] .escalate
    ⟨1 / 2, 0, 1, 1 / 2, 0, some false⟩ ⟨1, []⟩ ⟨0, 0, false, false⟩
  DecisionResponse.attach (some handoff) response

theorem newHandedOff_ok : newHandedOff.toOption.isSome = true := by decide +kernel

def handedOff : DecisionResponse := newHandedOff.toOption.get newHandedOff_ok

theorem newHandedOff_eq : newHandedOff = .ok handedOff :=
  Result.toOption_eq_some.mp (Option.some_get newHandedOff_ok).symm

def gatedPolicy : DecisionPolicy :=
  { DecisionPolicy.defaults with
    risk := .high
    entropyCeiling := ((3 / 4 : ℚ) : WithTop ℚ)
    minMargin := 1 / 10
    oodCeiling := ((1 / 2 : ℚ) : WithTop ℚ)
    oodMode := .answerEntropy
    booleanThreshold := some (2 / 3)
    abstainCandidate := some ⟨"undecided", "the ticket does not say", by decide, by decide⟩
    maxLabelOverlap := some (1 / 2)
    escalateBelow := some (3 / 5)
    entropyCeiling_pos := by decide +kernel
    minMargin_range := by decide +kernel
    oodCeiling_range := by decide +kernel
    booleanThreshold_range := by decide +kernel
    maxLabelOverlap_range := by decide +kernel
    escalateBelow_range := by decide +kernel }

/-- A question of every kind, a fact of every kind, an image, every gate and all metadata. -/
def fullRequest : DecisionRequest where
  state := ⟨"ticket", (((((OrdMap.empty.insert "team" (.text "core")).insert "age"
    (.integer (-3))).insert "load" (.float (1 / 4))).insert "vip" (.boolean true)).insert "tags"
      (.list ["new", "billing"])), [blank 3]⟩
  questions := [choice "pick" ["a", "b"], boolean "spam", score "urgency" ["low", "high"]]
  policy := gatedPolicy
  metadata := { requestId := some "r-1", family := some (ident "triage") }
  questions_ne := by simp

theorem fitsWords_fullRequest : fullRequest.FitsWords where
  state := (by decide +kernel : ∀ e ∈ fullRequest.state.facts.entries, e.2.FitsWords)
  limits := by
    constructor
    all_goals norm_num [fullRequest, Duration.FitsWords, Duration.perSecond]

theorem Native.encode_roundTrip_full :
    (do
      let payload ← Native.encodeRequest fullRequest
      Native.decodeRequest payload {}) = .ok fullRequest ∧
    (∃ size reason, ¬ (withBlank size).FitsWire ∧ (do
      let payload ← Native.encodeRequest (withBlank size)
      Native.decodeRequest payload (wide size)) = .error (.invalidValue "request" reason)) ∧
    (do
      let payload ← Native.encodeResponse handedOff
      Native.decodeResponse payload fullRequest {}) = .ok handedOff := by
  have hnew : DecisionRequest.new fullRequest.state fullRequest.questions fullRequest.policy
      fullRequest.metadata = .ok fullRequest := by decide +kernel
  have hadmits : ({} : Limits).Admits fullRequest := by
    constructor <;> decide +kernel
  have hwire : fullRequest.FitsWire := by
    intro image himage
    rw [List.mem_singleton.mp himage]
    decide
  have hsize : ∃ size : Nat, size < 2 ^ 64 ∧ ¬ 4 * ((size + 2) / 3) ≤ maxEncodedImageBytes :=
    ⟨12600000, by norm_num, by norm_num [maxEncodedImageBytes]⟩
  obtain ⟨size, hword, hlarge⟩ := hsize
  rw [← fitsWire_withBlank_iff] at hlarge
  obtain ⟨reason, hrefused⟩ := (Native.encode_roundTrip.1 _ _ _ _ _ _ (new_withBlank size)
    (fitsWords_withBlank hword) (admits_withBlank size)).2 hlarge
  have hentries : handedOff.trace.entries = [] := by decide +kernel
  have hreport : handedOff.escalation = some handoff := by decide +kernel
  have hwords : handedOff.FitsWords := {
    trace := ⟨by decide +kernel, by simp [hentries]⟩
    metrics := ⟨by decide +kernel, by decide +kernel⟩
    escalation := by
      intro report h
      rw [hreport] at h
      cases h
      exact ⟨⟨by decide, by decide⟩, ⟨⟨by decide, by decide, by decide⟩, by simp [handoff]⟩⟩ }
  exact ⟨(Native.encode_roundTrip.1 _ _ _ _ _ _ hnew fitsWords_fullRequest hadmits).1 hwire,
    ⟨size, reason, hlarge, hrefused⟩,
    Native.encode_roundTrip.2 _ _ _ _ _ _ _ newHandedOff_eq hwords _ _⟩

end Samples

end OpenCodifier
