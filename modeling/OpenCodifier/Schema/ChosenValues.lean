import OpenCodifier.Schema.OpenAiResponse
set_option autoImplicit false

namespace OpenCodifier

open Json

theorem bind_asStr_eq_some {j : Option Json} {value : String} :
    j.bind asStr = some value ↔ j = some (.str value) := by
  cases j with
  | none => simp
  | some j => cases j <;> simp [asStr]

theorem asObject_ok_iff {field : String} {j : Json} {fields : List (String × Json)} :
    asObject field j = .ok fields ↔ j = .obj fields := by
  cases j <;> simp [asObject]

theorem requiredString_ok_iff {fields : List (String × Json)} {field value : String} :
    requiredString fields field = .ok value ↔ lookup fields field = some (.str value) := by
  unfold requiredString
  cases lookup fields field with
  | none => simp
  | some j => cases j <;> simp [asString]

theorem requiredObject_ok_iff {fields inner : List (String × Json)} {field : String} :
    requiredObject fields field = .ok inner ↔ lookup fields field = some (.obj inner) := by
  unfold requiredObject
  cases lookup fields field with
  | none => simp
  | some j => simp [asObject_ok_iff]

theorem lookup_keyedFields_iff {encode : DecisionAnswer → String × Value}
    {given : List DecisionAnswer} (hname : ∀ a, (encode a).1 = a.questionId.text)
    (hd : (given.map DecisionAnswer.questionId).Nodup) (key : String) (j : Json) :
    lookup (keyedFields encode given) key = some j ↔
      ∃ a ∈ given, a.questionId.text = key ∧ j = (encode a).2.1 := by
  constructor
  · intro h
    have hkeys : ((given.map encode).map Prod.fst).Nodup := by
      have hids : (given.map encode).map Prod.fst =
          (given.map DecisionAnswer.questionId).map Ident.text := by
        simp [hname]
      rw [hids]
      exact hd.map Ident.text_injective
    rw [keyedFields, Value.lookup_object, OrdMap.get?_ofList hkeys] at h
    obtain ⟨v, hv, rfl⟩ := Option.map_eq_some_iff.mp h
    obtain ⟨e, he, rfl⟩ := Option.map_eq_some_iff.mp hv
    obtain ⟨a, ha, rfl⟩ := List.mem_map.mp (List.mem_of_find?_eq_some he)
    have hkey : (encode a).1 = key := by simpa using List.find?_some he
    exact ⟨a, ha, (hname a).symm.trans hkey, rfl⟩
  · rintro ⟨a, ha, rfl, rfl⟩
    exact lookup_keyedFields hname hd ha

theorem lookup_keyedFields_eq_none {encode : DecisionAnswer → String × Value}
    {given : List DecisionAnswer} (hname : ∀ a, (encode a).1 = a.questionId.text)
    (hd : (given.map DecisionAnswer.questionId).Nodup) (key : String) :
    lookup (keyedFields encode given) key = none ↔ ∀ a ∈ given, a.questionId.text ≠ key := by
  rw [Option.eq_none_iff_forall_ne_some]
  constructor
  · intro h a ha hkey
    exact h _ ((lookup_keyedFields_iff hname hd key _).mpr ⟨a, ha, hkey, rfl⟩)
  · intro h j hj
    obtain ⟨a, ha, hkey, -⟩ := (lookup_keyedFields_iff hname hd key j).mp hj
    exact h a ha hkey

/-- The answer is one to the question: of its kind, with a candidate or a level it has. -/
def Fits : DecisionQuestion → DecisionAnswer → Prop
  | .choice q, .choice _ choice _ _ => choice ∈ q.candidates.map Candidate.id
  | .boolean _, .boolean _ _ _ _ => True
  | .score q, .score _ _ level _ _ => level ∈ q.levels.map ScoreLevel.label
  | _, _ => False

structure AnswersAll (request : DecisionRequest) (answers : List DecisionAnswer) : Prop where
  answered : ∀ q ∈ request.questions, ∃ a ∈ answers, a.questionId = q.id
  fits : ∀ q ∈ request.questions, ∀ a ∈ answers, a.questionId = q.id → Fits q a
  distinct : (answers.map DecisionAnswer.questionId).Nodup

/-- Decoding the payload gives every decided value of the response back. -/
def GivesBack (decode : Value → DecisionRequest → Limits → SchemaResult DecisionResponse)
    (payload : Value) (request : DecisionRequest) (response : DecisionResponse)
    (limits : Limits) : Prop :=
  ∃ decoded, decode payload request limits = .ok decoded ∧
    AnsweredAlike (fun _ a b => b.decided = a.decided) request.questions response.answers
      decoded.answers

namespace OpenAi

/-- The level of a score answer is the one at the index its expected value rounds to. -/
def LevelKept : DecisionQuestion → DecisionAnswer → Prop
  | .score q, .score _ expected level _ _ => 0 ≤ toI64 (round expected) ∧
      (q.levels[(toI64 (round expected)).toNat]?).map ScoreLevel.label = some level
  | _, _ => True

def LevelsKept (request : DecisionRequest) (answers : List DecisionAnswer) : Prop :=
  ∀ q ∈ request.questions, ∀ a ∈ answers, a.questionId = q.id → LevelKept q a

variable [RustStd]

theorem certainDistribution_ok (key : String) : ∃ d, certainDistribution key = .ok d :=
  Jev.certain_ok key key

theorem answerFor_ok {q : DecisionQuestion} {j : Json} {b : DecisionAnswer}
    (h : answerFor q j = .ok b) : b.questionId = q.id ∧ b.validate = .ok () := by
  cases q with
  | choice q =>
    obtain ⟨reported, -, h⟩ := Result.bind_ok.mp h
    split at h
    · cases h
    · obtain ⟨choice, -, h⟩ := Result.bind_ok.mp h
      obtain ⟨d, -, h⟩ := Result.bind_ok.mp h
      rw [Ident.new_text] at h
      cases h
      exact ⟨rfl, DecisionAnswer.validate_of_unit ⟨zero_le_one, le_rfl⟩ fun _ _ _ _ h => by cases h⟩
  | boolean q =>
    simp only [answerFor, booleanAnswer] at h
    split at h
    · cases h
    · obtain ⟨p, hp, h⟩ := Result.bind_ok.mp h
      rw [Ident.new_text] at h
      cases h
      obtain ⟨rfl, hunit⟩ := unitInterval_ok hp
      exact ⟨rfl, DecisionAnswer.validate_of_unit hunit fun _ _ _ _ h => by cases h; exact hunit⟩
  | score q =>
    simp only [answerFor, scoreAnswer] at h
    split at h
    · cases h
    · split at h
      · cases h
      · split at h
        · cases h
        · obtain ⟨d, -, h⟩ := Result.bind_ok.mp h
          rw [Ident.new_text] at h
          cases h
          exact ⟨rfl, DecisionAnswer.validate_of_unit ⟨zero_le_one, le_rfl⟩
            fun _ _ _ _ h => by cases h⟩

theorem choiceAnswer_str {q : ChoiceQuestion} {c : CandidateId}
    (h : c ∈ q.candidates.map Candidate.id) :
    ∃ b, choiceAnswer q (.str c.text) = .ok b ∧ b.decided = .candidate c := by
  obtain ⟨candidate, hm, rfl⟩ := List.mem_map.mp h
  cases hf : q.candidates.find? (fun c => c.id.text = candidate.id.text) with
  | none => exact absurd (decide_eq_true rfl) (List.find?_eq_none.mp hf candidate hm)
  | some found =>
    have hid : found.id = candidate.id := Ident.ext_text (by simpa using List.find?_some hf)
    obtain ⟨d, hd⟩ := certainDistribution_ok found.id.text
    refine ⟨.choice q.id found.id d 1, ?_, by rw [hid]; rfl⟩
    simp [choiceAnswer, asString, hf, hd, Ident.new_text, ofCoreSchema, bind, Except.bind, pure,
      Except.pure]

theorem booleanAnswer_bool (q : BooleanQuestion) (value : Bool) :
    ∃ b, booleanAnswer q (.bool value) = .ok b ∧ b.decided = .truth value := by
  refine ⟨.boolean q.id value 1 1, ?_, rfl⟩
  simp [booleanAnswer, asBool, unitInterval_of_mem q.id.text ⟨zero_le_one, le_rfl⟩,
    Ident.new_text, ofCoreSchema, bind, Except.bind, pure, Except.pure]

theorem scoreAnswer_int_iff (q : ScoreQuestion) {index : Int} {level : String}
    (hrange : -2 ^ 63 ≤ index ∧ index < 2 ^ 63) :
    (∃ b, scoreAnswer q (.num (.int index)) = .ok b ∧ b.decided = .level level) ↔
      0 ≤ index ∧ (q.levels[index.toNat]?).map ScoreLevel.label = some level := by
  have hread : asI64 (.num (.int index)) = some index := if_pos hrange
  simp only [scoreAnswer, hread]
  by_cases hneg : index < 0
  · simp [hneg]
  · rw [if_neg hneg]
    cases hlevel : q.levels[index.toNat]? with
    | none => simp
    | some found =>
      obtain ⟨d, hd⟩ := certainDistribution_ok found.label
      simp [hd, Ident.new_text, ofCoreSchema, bind, Except.bind, pure, Except.pure,
        DecisionAnswer.decided]
      omega

theorem answerFor_encodeAnswer_iff {q : DecisionQuestion} {a : DecisionAnswer} (h : Fits q a) :
    (∃ b, answerFor q (encodeAnswer a).2.1 = .ok b ∧ b.decided = a.decided) ↔ LevelKept q a := by
  cases q with
  | choice q =>
    cases a with
    | choice id choice d c => exact iff_of_true (choiceAnswer_str h) trivial
    | boolean id value p c => exact h.elim
    | score id expected level d c => exact h.elim
  | boolean q =>
    cases a with
    | choice id choice d c => exact h.elim
    | boolean id value p c => exact iff_of_true (booleanAnswer_bool q value) trivial
    | score id expected level d c => exact h.elim
  | score q =>
    cases a with
    | choice id choice d c => exact h.elim
    | boolean id value p c => exact h.elim
    | score id expected level d c => exact scoreAnswer_int_iff q (toI64_range (round expected))

/-- The object of chosen values gives them back exactly when the levels are kept. -/
theorem decodeValues_iff {request : DecisionRequest} {response : DecisionResponse}
    (h : AnswersAll request response.answers) (field : String) :
    (∃ decoded, decodeValues field (.obj (keyedFields encodeAnswer response.answers)) request =
        .ok decoded ∧ AnsweredAlike (fun _ a b => b.decided = a.decided) request.questions
          response.answers decoded.answers) ↔
      LevelsKept request response.answers := by
  refine (readBack_iff encodeAnswer_fst h.distinct h.answered fun q j b => answerFor_ok).trans ?_
  exact forall₂_congr fun q hq => forall₂_congr fun a ha => forall_congr' fun hid =>
    answerFor_encodeAnswer_iff (h.fits q hq a ha hid)

end OpenAi

end OpenCodifier
