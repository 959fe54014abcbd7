import OpenCodifier.Schema.RequestOptionals
import OpenCodifier.Schema.ResponseOptionals
set_option autoImplicit false

namespace OpenCodifier

open Json

/-- An accepted payload with optional fields written out at their defaults is accepted, and read
as before, exactly when the encoder writes each of them, or they went into arrays. -/
theorem Native.decode_addAll_iff [RustStd] [SerdeTexts] :
    (∀ (payload payload' : Value) (limits : Limits) (r : DecisionRequest)
        (additions : List (RequestField × Value)),
      (∀ e ∈ additions, e.2 ∈ e.1.spec.defaults) →
      addAll RequestField.spec additions payload.1 = some payload'.1 →
      decodeRequest payload limits = .ok r →
        (decodeRequest payload' limits = .ok r ↔
          AllWritten RequestField.spec additions payload.1)) ∧
    ∀ (payload payload' : Value) (request : DecisionRequest) (limits : Limits)
        (r : DecisionResponse) (additions : List (ResponseField × Value)),
      (∀ e ∈ additions, e.2 ∈ e.1.spec.defaults) →
      addAll ResponseField.spec additions payload.1 = some payload'.1 →
      decodeResponse payload request limits = .ok r →
        (decodeResponse payload' request limits = .ok r ↔
          AllWritten ResponseField.spec additions payload.1) := by
  constructor
  · intro payload payload' limits r additions hd hadd hok
    obtain ⟨hread, hkey, hlimits⟩ := decodeRequest_ok_iff.mp hok
    obtain ⟨hread', hkey'⟩ := DecisionRequest.tolerates.addAll_law hd payload.2 hadd hread
    rw [decodeRequest_ok_iff, hread', hkey']
    simp [hkey, hlimits]
  · intro payload payload' request limits r additions hd hadd hok
    obtain ⟨hread, hkey⟩ := decodeResponse_ok_iff.mp hok
    obtain ⟨hread', hkey'⟩ := DecisionResponse.tolerates.addAll_law hd payload.2 hadd hread
    rw [decodeResponse_ok_iff, hread', hkey']
    simp [hkey]

section Samples

attribute [local instance] plainStd plainTexts

open Sample

/-- A request that gives nothing it need not give. -/
def terse : Value :=
  .struct [("state", some (.struct [("text", some (.str "ticket"))])),
    ("questions", some (.array [(boolean "spam").serialize]))]

theorem spam_ne : [boolean "spam"] ≠ [] := by decide

def terseRequest : DecisionRequest :=
  ⟨⟨"ticket", OrdMap.empty, []⟩, [boolean "spam"], .defaults, {}, spam_ne⟩

def withNoImages : Value :=
  .struct [("state", some (.struct [("images", some (.array [])), ("text", some (.str "ticket"))])),
    ("questions", some (.array [(boolean "spam").serialize]))]

theorem new_terseRequest : DecisionRequest.new terseRequest.state terseRequest.questions
    terseRequest.policy terseRequest.metadata = .ok terseRequest := by
  have hcount : DecisionRequest.candidateCount (boolean "spam") = 0 := rfl
  have hsize : "ticket".utf8ByteSize = 6 := rfl
  simp [DecisionRequest.new, terseRequest, hcount, hsize]

theorem admits_terseRequest : Limits.Admits {} terseRequest := by
  have hcount : DecisionRequest.candidateCount (boolean "spam") = 0 := rfl
  have hsize : "ticket".utf8ByteSize = 6 := rfl
  constructor <;> simp [terseRequest, hcount, hsize]

theorem deserialize_terse : DecisionRequest.deserialize terse.1 = some terseRequest := by
  have hstate : State.deserialize (.obj (Value.structFields [("text", some (.str "ticket"))])) =
      some terseRequest.state := rfl
  have hquestions := Value.asList_array (l := terseRequest.questions)
    fun q _ => DecisionQuestion.deserialize_serialize q
  have hquestions : asList DecisionQuestion.deserialize
      (Value.array [(boolean "spam").serialize]).1 = some terseRequest.questions := hquestions
  have hnew : DecisionRequest.new terseRequest.state terseRequest.questions .defaults {} =
      .ok terseRequest := new_terseRequest
  simp [terse, DecisionRequest.deserialize, Fields.required, Fields.defaulted, hstate, hquestions,
    hnew, Except.toOption]

theorem decodeRequest_terse : Native.decodeRequest terse {} = .ok terseRequest :=
  Native.decodeRequest_ok_iff.mpr ⟨deserialize_terse, by decide +kernel, admits_terseRequest⟩

theorem deserialize_withNoImages :
    DecisionRequest.deserialize withNoImages.1 = some terseRequest := by
  rw [← deserialize_terse]
  have hadd : addAt "images" (Value.array []).1 [RequestField.inState] terse.1 =
    some withNoImages.1 := rfl
  have hdefault : Value.array [] ∈ (RequestField.spec .images).defaults := by
    simp [RequestField.spec]
  exact DecisionRequest.tolerates.reads hdefault hadd

/-- An accepted request, and the same with the empty image list written out, which is taken for
an unknown field. -/
theorem Native.decode_addAll_images :
    Native.decodeRequest terse {} = .ok terseRequest ∧
      addAll RequestField.spec [(.images, .array [])] terse.1 = some withNoImages.1 ∧
      Native.decodeRequest withNoImages {} =
        .error (.invalidValue "images" "unknown field `images` in a native payload") := by
  refine ⟨decodeRequest_terse, rfl, ?_⟩
  have hkey : unknownKey withNoImages.1 terseRequest.serialize.1 = some "images" := by
    decide +kernel
  rw [Native.decodeRequest, deserialize_withNoImages]
  simp only [rejectUnknownFields, hkey]
  rfl

def newSettled : CoreResult DecisionResponse :=
  DecisionResponse.new [.boolean (boolean "spam").id true (1 / 2) (1 / 2)] .accept
    ⟨1 / 2, 0, 1, 1 / 2, 0, none⟩ ⟨1, []⟩ ⟨0, 0, false, false⟩

theorem newSettled_ok : newSettled.toOption.isSome = true := by decide +kernel

def settled : DecisionResponse := newSettled.toOption.get newSettled_ok

theorem newSettled_eq : newSettled = .ok settled :=
  Result.toOption_eq_some.mp (Option.some_get newSettled_ok).symm

theorem decodeResponse_settled :
    Native.decodeResponse settled.serialize terseRequest {} = .ok settled := by
  have hnone : settled.escalation = none := (DecisionResponse.new_ok newSettled_eq).2.2.2.2.2
  have hentries : settled.trace.entries = [] := by decide +kernel
  have hwords : settled.FitsWords := {
    trace := ⟨by decide +kernel, by simp [hentries]⟩
    metrics := ⟨by decide +kernel, by decide +kernel⟩
    escalation := by simp [hnone] }
  have hnew : (do
      let response ← newSettled
      DecisionResponse.attach none response) = .ok settled := by
    rw [newSettled_eq]
    rfl
  exact Native.decodeResponse_encode hwords (DecisionResponse.built_of_new hnew) _ _

/-- Facts and policy may be written out, an absent report may not. -/
theorem Native.decode_addAll_terse :
    (∃ payload : Value,
      addAll RequestField.spec
        [(.facts, .object .empty), (.policy, DecisionPolicy.defaults.serialize)] terse.1 =
          some payload.1 ∧
      Native.decodeRequest payload {} = .ok terseRequest) ∧
    ∃ payload : Value,
      addAll ResponseField.spec [(.escalation, .null)] settled.serialize.1 = some payload.1 ∧
      Native.decodeResponse payload terseRequest {} ≠ .ok settled := by
  constructor
  · obtain ⟨j, hadd⟩ := Option.isSome_iff_exists.mp (by decide +kernel :
      (addAll RequestField.spec
        [(.facts, .object .empty), (.policy, DecisionPolicy.defaults.serialize)]
        terse.1).isSome = true)
    refine ⟨⟨j, canonical_addAll terse.2 hadd⟩, hadd, ?_⟩
    refine (Native.decode_addAll_iff.1 terse _ {} _ _ ?_ hadd decodeRequest_terse).mpr ?_
    · simp [RequestField.spec]
    · simp [AllWritten, RequestField.spec]
  · obtain ⟨j, hadd⟩ := Option.isSome_iff_exists.mp (by decide +kernel :
      (addAll ResponseField.spec [(.escalation, .null)] settled.serialize.1).isSome = true)
    refine ⟨⟨j, canonical_addAll settled.serialize.2 hadd⟩, hadd, fun hok => ?_⟩
    have hwritten := (Native.decode_addAll_iff.2 settled.serialize _ terseRequest {} _ _
      (by simp [ResponseField.spec]) hadd decodeResponse_settled).mp hok
    simp [AllWritten, ResponseField.spec, Keyed] at hwritten

end Samples

end OpenCodifier
