import OpenCodifier.Schema.Codec
set_option autoImplicit false

namespace OpenCodifier

open Json

inductive DecidedValue where
  | candidate (id : CandidateId)
  | truth (value : Bool)
  | level (label : String)
  deriving DecidableEq

def DecisionAnswer.decided : DecisionAnswer → DecidedValue
  | .choice _ chosen _ _ => .candidate chosen
  | .boolean _ value _ _ => .truth value
  | .score _ _ level _ _ => .level level

namespace DecisionAnswer

theorem validate_of_unit {a : DecisionAnswer} (hc : 0 ≤ a.confidence ∧ a.confidence ≤ 1)
    (hp : ∀ id value p c, a = .boolean id value p c → 0 ≤ p ∧ p ≤ 1) : a.validate = .ok () := by
  have hc := (isUnitInterval_iff _).mpr hc
  cases a with
  | boolean id value p c =>
    have hp := (isUnitInterval_iff _).mpr (hp id value p c rfl)
    simp [validate, hc, hp]
  | _ => simp [validate, hc]

theorem boolean_unit {id : QuestionId} {value : Bool} {p c : ℚ}
    (h : (boolean id value p c).validate = .ok ()) : 0 ≤ p ∧ p ≤ 1 := by
  by_contra hp
  have hp : isUnitInterval p = false :=
    Bool.eq_false_iff.mpr fun hu => hp ((isUnitInterval_iff p).mp hu)
  by_cases hc : isUnitInterval c = true <;> simp [validate, confidence, hc, hp] at h

end DecisionAnswer

section Replies

def keyedFields (encode : DecisionAnswer → String × Value) (answers : List DecisionAnswer) :
    List (String × Json) :=
  (OrdMap.ofList (answers.map encode)).entries.map fun e => (e.1, e.2.1)

def answersOf (absent : String) (read : DecisionQuestion → Json → SchemaResult DecisionAnswer)
    (fields : List (String × Json)) (questions : List DecisionQuestion) :
    SchemaResult (List DecisionAnswer) :=
  questions.mapM fun q =>
    match lookup fields q.id.text with
    | some j => read q j
    | none => .error (.missingField q.id.text absent)

/-- Answers from a wire are never accepted outright. -/
def reportedAnswers (answers : List DecisionAnswer) (report : ConfidenceReport) :
    SchemaResult DecisionResponse :=
  ofCoreSchema (DecisionResponse.new answers .verify report { entries := [] } ⟨0, 0, false, false⟩)

/-- The decoded answers are to the questions in order, each alike one that was given. -/
def AnsweredAlike (Alike : DecisionQuestion → DecisionAnswer → DecisionAnswer → Prop)
    (questions : List DecisionQuestion) (given decoded : List DecisionAnswer) : Prop :=
  List.Forall₂ (fun q b => b.questionId = q.id ∧ ∃ a ∈ given, a.questionId = q.id ∧ Alike q a b)
    questions decoded

variable {encode : DecisionAnswer → String × Value} {given : List DecisionAnswer}

theorem lookup_keyedFields (hname : ∀ a, (encode a).1 = a.questionId.text)
    (hd : (given.map DecisionAnswer.questionId).Nodup) {a : DecisionAnswer} (ha : a ∈ given) :
    lookup (keyedFields encode given) a.questionId.text = some (encode a).2.1 := by
  have hkeys : ((given.map encode).map Prod.fst).Nodup := by
    have hids : (given.map encode).map Prod.fst =
        (given.map DecisionAnswer.questionId).map Ident.text := by
      simp [hname]
    rw [hids]
    exact hd.map Ident.text_injective
  have hget := OrdMap.get?_ofList_of_mem hkeys (List.mem_map_of_mem ha)
  rw [hname] at hget
  rw [keyedFields, Value.lookup_object, hget]
  rfl

theorem reportedAnswers_ok {answers : List DecisionAnswer} (report : ConfidenceReport)
    (hv : ∀ a ∈ answers, a.validate = .ok ()) :
    ∃ r, reportedAnswers answers report = .ok r ∧ r.answers = answers := by
  have hmap : ∃ us, answers.mapM DecisionAnswer.validate = .ok us := by
    obtain ⟨us, hus, -⟩ := Result.mapM_ok_exists (S := fun _ _ => True).mpr
      fun a ha => ⟨(), hv a ha, trivial⟩
    exact ⟨us, hus⟩
  obtain ⟨us, hus⟩ := hmap
  have hnew : ∃ r, DecisionResponse.new answers .verify report { entries := [] }
      ⟨0, 0, false, false⟩ = .ok r := by
    unfold DecisionResponse.new
    split
    · rename_i h
      exact absurd h.1 (by decide)
    · split
      · rename_i e h
        rw [hus] at h
        cases h
      · exact ⟨_, rfl⟩
  obtain ⟨r, hr⟩ := hnew
  exact ⟨r, by rw [reportedAnswers, hr]; rfl, (DecisionResponse.new_ok hr).1⟩

theorem reportedAnswers_answers {answers : List DecisionAnswer} {report : ConfidenceReport}
    {r : DecisionResponse} (h : reportedAnswers answers report = .ok r) : r.answers = answers :=
  (DecisionResponse.new_ok (ofCoreSchema_ok h)).1

variable {absent : String} {read : DecisionQuestion → Json → SchemaResult DecisionAnswer}
  {Alike : DecisionQuestion → DecisionAnswer → DecisionAnswer → Prop}
  {report : List DecisionAnswer → ConfidenceReport} {questions : List DecisionQuestion}

/-- Keyed answers are read back alike exactly when each is. -/
theorem readBack_iff (hname : ∀ a, (encode a).1 = a.questionId.text)
    (hd : (given.map DecisionAnswer.questionId).Nodup)
    (hall : ∀ q ∈ questions, ∃ a ∈ given, a.questionId = q.id)
    (hread : ∀ q j b, read q j = .ok b → b.questionId = q.id ∧ b.validate = .ok ()) :
    (∃ decoded, (do
        let answers ← answersOf absent read (keyedFields encode given) questions
        reportedAnswers answers (report answers)) = .ok decoded ∧
      AnsweredAlike Alike questions given decoded.answers) ↔
    ∀ q ∈ questions, ∀ a ∈ given, a.questionId = q.id →
      ∃ b, read q (encode a).2.1 = .ok b ∧ Alike q a b := by
  have hone : ∀ a ∈ given, ∀ a' ∈ given, a.questionId = a'.questionId → a = a' :=
    fun a ha a' ha' => List.inj_on_of_nodup_map hd ha ha'
  have hlookup : ∀ (q : DecisionQuestion) (a : DecisionAnswer), a ∈ given →
      a.questionId = q.id → lookup (keyedFields encode given) q.id.text = some (encode a).2.1 :=
    fun q a ha hq => hq ▸ lookup_keyedFields hname hd ha
  have hstep : (∃ answers, answersOf absent read (keyedFields encode given) questions =
      .ok answers ∧ AnsweredAlike Alike questions given answers) ↔
      ∀ q ∈ questions, ∀ a ∈ given, a.questionId = q.id →
        ∃ b, read q (encode a).2.1 = .ok b ∧ Alike q a b := by
    refine Result.mapM_ok_exists.trans (forall₂_congr fun q hq => ?_)
    constructor
    · rintro ⟨b, hb, -, a', ha', hq', halike⟩ a ha hqa
      rw [hone a ha a' ha' (hqa.trans hq'.symm)]
      rw [hlookup q a' ha' hq'] at hb
      exact ⟨b, hb, halike⟩
    · intro h
      obtain ⟨a, ha, hqa⟩ := hall q hq
      obtain ⟨b, hb, halike⟩ := h a ha hqa
      exact ⟨b, by rw [hlookup q a ha hqa]; exact hb, (hread q _ b hb).1, a, ha, hqa, halike⟩
  rw [← hstep]
  constructor
  · rintro ⟨decoded, hdecoded, halike⟩
    obtain ⟨answers, hanswers, hr⟩ := Result.bind_ok.mp hdecoded
    rw [reportedAnswers_answers hr] at halike
    exact ⟨answers, hanswers, halike⟩
  · rintro ⟨answers, hanswers, halike⟩
    have hvalid : ∀ b ∈ answers, b.validate = .ok () := by
      intro b hb
      obtain ⟨q, -, hq⟩ := Result.mem_of_mapM_ok hanswers hb
      split at hq
      · exact (hread q _ b hq).2
      · cases hq
    obtain ⟨r, hr, hsame⟩ := reportedAnswers_ok (report answers) hvalid
    exact ⟨r, Result.bind_ok.mpr ⟨answers, hanswers, hr⟩, hsame ▸ halike⟩

end Replies

section Values

variable [RustStd]

def unitInterval (field : String) (value : ℚ) : SchemaResult ℚ :=
  if isUnitInterval value then .ok value
  else .error (.invalidValue field (RustStd.display value ++ " is not in [0, 1]"))

theorem unitInterval_ok {field : String} {value p : ℚ} (h : unitInterval field value = .ok p) :
    p = value ∧ 0 ≤ p ∧ p ≤ 1 := by
  unfold unitInterval at h
  split at h
  · rename_i hu
    cases h
    exact ⟨rfl, (isUnitInterval_iff _).mp hu⟩
  · cases h

theorem unitInterval_of_mem (field : String) {value : ℚ} (h : 0 ≤ value ∧ value ≤ 1) :
    unitInterval field value = .ok value := by
  rw [unitInterval, if_pos ((isUnitInterval_iff _).mpr h)]

end Values

end OpenCodifier
