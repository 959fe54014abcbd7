import OpenCodifier.Engine.Sample
import OpenCodifier.Schema.ChosenValues
set_option autoImplicit false

namespace OpenCodifier

open Json

namespace OpenAi

def BlockTexts (block : Json) (texts : List String) : Prop :=
  ∃ fields, block = .obj fields ∧
    ((lookup fields "type" ≠ some (.str "output_text") ∧ texts = []) ∨
      ∃ text, lookup fields "type" = some (.str "output_text") ∧
        lookup fields "text" = some (.str text) ∧ texts = [text])

def ItemTexts (item : Json) (texts : List String) : Prop :=
  ∃ fields, item = .obj fields ∧
    ((lookup fields "content" = none ∧ texts = []) ∨
      ∃ blocks found, lookup fields "content" = some (.arr blocks) ∧
        List.Forall₂ BlockTexts blocks found ∧ texts = found.flatten)

/-- A response envelope whose last output text is the given one. -/
def EnvelopeOf (payload : Json) (text : String) : Prop :=
  ∃ fields items found, payload = .obj fields ∧ lookup fields "output" = some (.arr items) ∧
    List.Forall₂ ItemTexts items found ∧ found.flatten.getLast? = some text

theorem blockText_ok_iff (text : Option String) (block : Json) (r : Option String) :
    blockText text block = .ok r ↔ ∃ texts, BlockTexts block texts ∧ r = texts.getLast?.or text := by
  unfold blockText
  constructor
  · intro h
    obtain ⟨fields, hfields, h⟩ := Result.bind_ok.mp h
    rw [asObject_ok_iff.mp hfields]
    split at h
    · rename_i htype
      obtain ⟨found, hfound, rfl⟩ := Result.map_ok.mp h
      exact ⟨[found], ⟨fields, rfl, Or.inr ⟨found, bind_asStr_eq_some.mp htype,
        requiredString_ok_iff.mp hfound, rfl⟩⟩, rfl⟩
    · rename_i htype
      cases h
      exact ⟨[], ⟨fields, rfl, Or.inl ⟨fun h => htype (bind_asStr_eq_some.mpr h), rfl⟩⟩, rfl⟩
  · rintro ⟨texts, ⟨fields, rfl, ⟨htype, rfl⟩ | ⟨found, htype, hfound, rfl⟩⟩, rfl⟩
    · refine Result.bind_ok.mpr ⟨fields, rfl, ?_⟩
      rw [if_neg fun h => htype (bind_asStr_eq_some.mp h)]
      rfl
    · refine Result.bind_ok.mpr ⟨fields, rfl, ?_⟩
      rw [if_pos (bind_asStr_eq_some.mpr htype), requiredString_ok_iff.mpr hfound]
      rfl

theorem itemText_ok_iff (text : Option String) (item : Json) (r : Option String) :
    itemText text item = .ok r ↔ ∃ texts, ItemTexts item texts ∧ r = texts.getLast?.or text := by
  unfold itemText
  constructor
  · intro h
    obtain ⟨fields, hfields, h⟩ := Result.bind_ok.mp h
    rw [asObject_ok_iff.mp hfields]
    split at h
    · rename_i hcontent
      cases h
      exact ⟨[], ⟨fields, rfl, Or.inl ⟨hcontent, rfl⟩⟩, rfl⟩
    · rename_i blocks hcontent
      obtain ⟨found, hfound, rfl⟩ := (Result.foldlM_last blockText_ok_iff blocks text r).mp h
      exact ⟨found.flatten, ⟨fields, rfl, Or.inr ⟨blocks, found, hcontent, hfound, rfl⟩⟩, rfl⟩
    · cases h
  · rintro ⟨texts, ⟨fields, rfl, ⟨hcontent, rfl⟩ | ⟨blocks, found, hcontent, hfound, rfl⟩⟩, rfl⟩
    · refine Result.bind_ok.mpr ⟨fields, rfl, ?_⟩
      simp only [hcontent]
      rfl
    · refine Result.bind_ok.mpr ⟨fields, rfl, ?_⟩
      simp only [hcontent]
      exact (Result.foldlM_last blockText_ok_iff blocks text _).mpr ⟨found, hfound, rfl⟩

variable [JsonText]

/-- The decoder unwraps exactly the envelopes whose text is a document. -/
theorem unwrapEnvelope_some_iff (payload value : Json) :
    unwrapEnvelope payload = .ok (some value) ↔
      ∃ text document, EnvelopeOf payload text ∧ JsonText.parse text = .ok document ∧
        value = document.normalize := by
  cases payload with
  | obj fields =>
    simp only [unwrapEnvelope]
    constructor
    · intro h
      split at h
      · cases h
      · rename_i items houtput
        obtain ⟨text, hfold, h⟩ := Result.bind_ok.mp h
        obtain ⟨found, hfound, rfl⟩ := (Result.foldlM_last itemText_ok_iff items none _).mp hfold
        rw [Option.or_none] at h
        split at h
        · cases h
        · rename_i text htext
          split at h
          · rename_i document hparse
            cases h
            exact ⟨text, document, ⟨fields, items, found, rfl, houtput, hfound, htext⟩, hparse, rfl⟩
          · cases h
      · cases h
    · rintro ⟨text, document, ⟨fields', items, found, hp, houtput, hfound, htext⟩, hparse, rfl⟩
      cases hp
      simp only [houtput]
      refine Result.bind_ok.mpr ⟨some text,
        (Result.foldlM_last itemText_ok_iff items none _).mpr ⟨found, hfound, ?_⟩, ?_⟩
      · rw [htext]
        rfl
      · simp only [hparse]
        rfl
  | _ =>
    simp only [unwrapEnvelope, Except.ok.injEq, reduceCtorEq, false_iff]
    rintro ⟨text, document, ⟨fields, items, found, hp, -⟩, -⟩
    cases hp

end OpenAi

namespace Anthropic

def EnvelopeOf (payload : Json) (input : List (String × Json)) : Prop :=
  ∃ fields, payload = .obj fields ∧
    ((lookup fields "type" = some (.str "tool_use") ∧ lookup fields "input" = some (.obj input)) ∨
      (lookup fields "type" ≠ some (.str "tool_use") ∧ ∃ before block after,
        lookup fields "content" = some (.arr (before ++ .obj block :: after)) ∧
        (∀ b ∈ before, ∃ other, b = .obj other ∧ lookup other "type" ≠ some (.str "tool_use")) ∧
        lookup block "type" = some (.str "tool_use") ∧ lookup block "input" = some (.obj input)))

theorem toolInput_some_iff (blocks : List Json) (value : Json) :
    toolInput blocks = .ok (some value) ↔ ∃ input before block after, value = .obj input ∧
      blocks = before ++ .obj block :: after ∧
      (∀ b ∈ before, ∃ other, b = .obj other ∧ lookup other "type" ≠ some (.str "tool_use")) ∧
      lookup block "type" = some (.str "tool_use") ∧ lookup block "input" = some (.obj input) := by
  induction blocks with
  | nil => simp [toolInput]
  | cons b blocks ih =>
    rw [toolInput, Result.bind_ok]
    constructor
    · rintro ⟨fields, hfields, h⟩
      rw [asObject_ok_iff.mp hfields]
      split at h
      · rename_i htype
        obtain ⟨input, hinput, h⟩ := Result.bind_ok.mp h
        cases h
        exact ⟨input, [], fields, blocks, rfl, rfl, by simp, bind_asStr_eq_some.mp htype,
          requiredObject_ok_iff.mp hinput⟩
      · rename_i htype
        obtain ⟨input, before, block, after, hvalue, rfl, hbefore, hrest⟩ := ih.mp h
        refine ⟨input, .obj fields :: before, block, after, hvalue, rfl, ?_, hrest⟩
        refine List.forall_mem_cons.mpr ⟨⟨fields, rfl, fun h => ?_⟩, hbefore⟩
        exact htype (bind_asStr_eq_some.mpr h)
    · rintro ⟨input, before, block, after, rfl, hblocks, hbefore, htype, hinput⟩
      cases before with
      | nil =>
        cases hblocks
        refine ⟨block, rfl, ?_⟩
        rw [if_pos (bind_asStr_eq_some.mpr htype), requiredObject_ok_iff.mpr hinput]
        rfl
      | cons b' before =>
        cases hblocks
        obtain ⟨⟨other, rfl, hother⟩, hothers⟩ := List.forall_mem_cons.mp hbefore
        refine ⟨other, rfl, ?_⟩
        rw [if_neg fun h => hother (bind_asStr_eq_some.mp h)]
        exact ih.mpr ⟨input, before, block, after, rfl, rfl, hothers, htype, hinput⟩

theorem unwrapToolUse_some_iff (payload value : Json) :
    unwrapToolUse payload = .ok (some value) ↔
      ∃ input, EnvelopeOf payload input ∧ value = .obj input := by
  cases payload with
  | obj fields =>
    simp only [unwrapToolUse]
    constructor
    · intro h
      split at h
      · rename_i htype
        obtain ⟨input, hinput, h⟩ := Result.bind_ok.mp h
        cases h
        exact ⟨input, ⟨fields, rfl, Or.inl ⟨bind_asStr_eq_some.mp htype,
          requiredObject_ok_iff.mp hinput⟩⟩, rfl⟩
      · rename_i htype
        split at h
        · cases h
        · rename_i blocks hcontent
          obtain ⟨input, before, block, after, hvalue, rfl, hrest⟩ :=
            (toolInput_some_iff blocks value).mp h
          exact ⟨input, ⟨fields, rfl, Or.inr ⟨fun h => htype (bind_asStr_eq_some.mpr h), before,
            block, after, hcontent, hrest⟩⟩, hvalue⟩
        · cases h
    · rintro ⟨input, ⟨fields', hp, ⟨htype, hinput⟩ | ⟨htype, before, block, after, hcontent,
        hrest⟩⟩, rfl⟩
      · cases hp
        rw [if_pos (bind_asStr_eq_some.mpr htype), requiredObject_ok_iff.mpr hinput]
        rfl
      · cases hp
        rw [if_neg fun h => htype (bind_asStr_eq_some.mp h)]
        simp only [hcontent]
        exact (toolInput_some_iff _ _).mpr ⟨input, before, block, after, rfl, rfl, hrest⟩
  | _ =>
    simp only [unwrapToolUse, Except.ok.injEq, reduceCtorEq, false_iff]
    rintro ⟨input, ⟨fields, hp, -⟩, -⟩
    cases hp

end Anthropic

section Bare

open OpenAi (encodeAnswer encodeAnswer_fst decodeValues_iff LevelsKept)

variable [RustStd] [JsonText] {request : DecisionRequest} {response : DecisionResponse}

omit [RustStd] [JsonText] in
theorem encodeAnswer_scalar (a : DecisionAnswer) :
    (∀ items, (encodeAnswer a).2.1 ≠ .arr items) ∧ ∀ fields, (encodeAnswer a).2.1 ≠ .obj fields := by
  cases a <;> constructor <;> intro _ h <;> cases h

def bareValue (response : DecisionResponse) : Value :=
  .object (OrdMap.ofList (response.answers.map encodeAnswer))

/-- The bare object is taken for an envelope, and refused, exactly when a question is called
`output`. -/
theorem openAi_bare_iff (h : AnswersAll request response.answers) (limits : Limits) :
    GivesBack OpenAi.decodeResponse (bareValue response) request response limits ↔
      LevelsKept request response.answers ∧
        ∀ a ∈ response.answers, a.questionId.text ≠ "output" := by
  rw [← decodeValues_iff h "output", ← lookup_keyedFields_eq_none encodeAnswer_fst h.distinct]
  have hdecode : OpenAi.decodeResponse (bareValue response) request limits = (do
      let unwrapped ← OpenAi.unwrapEnvelope (.obj (keyedFields encodeAnswer response.answers))
      OpenAi.decodeValues "output"
        (unwrapped.getD (.obj (keyedFields encodeAnswer response.answers))) request) := rfl
  cases houtput : lookup (keyedFields encodeAnswer response.answers) "output" with
  | none =>
    have hnone : OpenAi.unwrapEnvelope (.obj (keyedFields encodeAnswer response.answers)) =
        .ok none := by
      simp only [OpenAi.unwrapEnvelope, houtput]
    rw [GivesBack, hdecode, hnone]
    exact (and_iff_left rfl).symm
  | some j =>
    obtain ⟨a, ha, -, rfl⟩ :=
      (lookup_keyedFields_iff encodeAnswer_fst h.distinct "output" _).mp houtput
    have herror : ∃ e, OpenAi.unwrapEnvelope
        (.obj (keyedFields encodeAnswer response.answers)) = .error e := by
      simp only [OpenAi.unwrapEnvelope, houtput]
      split
      · cases ‹some _ = none›
      · rename_i items hitems
        exact absurd (Option.some.inj hitems) ((encodeAnswer_scalar a).1 items)
      · exact ⟨_, rfl⟩
    obtain ⟨e, herror⟩ := herror
    rw [GivesBack, hdecode, herror]
    simp [bind, Except.bind]

omit [JsonText] in
/-- The bare object is taken for an envelope, and refused, exactly when a question is called
`content` or one called `type` is answered by `tool_use`. -/
theorem anthropic_bare_iff (h : AnswersAll request response.answers) (limits : Limits) :
    GivesBack Anthropic.decodeResponse (bareValue response) request response limits ↔
      LevelsKept request response.answers ∧
        (∀ a ∈ response.answers, a.questionId.text ≠ "content") ∧
        ∀ a ∈ response.answers, a.questionId.text = "type" →
          (encodeAnswer a).2.1 ≠ .str "tool_use" := by
  have htype : (∀ a ∈ response.answers, a.questionId.text = "type" →
      (encodeAnswer a).2.1 ≠ .str "tool_use") ↔
      lookup (keyedFields encodeAnswer response.answers) "type" ≠ some (.str "tool_use") := by
    rw [ne_eq, lookup_keyedFields_iff encodeAnswer_fst h.distinct]
    simp only [not_exists, not_and, ne_eq, eq_comm]
  rw [htype, ← decodeValues_iff h "input", ← lookup_keyedFields_eq_none encodeAnswer_fst h.distinct]
  have hdecode : Anthropic.decodeResponse (bareValue response) request limits = (do
      let unwrapped ← Anthropic.unwrapToolUse (.obj (keyedFields encodeAnswer response.answers))
      OpenAi.decodeValues "input"
        (unwrapped.getD (.obj (keyedFields encodeAnswer response.answers))) request) := rfl
  by_cases htool : lookup (keyedFields encodeAnswer response.answers) "type" =
      some (.str "tool_use")
  · have herror : ∃ e, Anthropic.unwrapToolUse
        (.obj (keyedFields encodeAnswer response.answers)) = .error e := by
      simp only [Anthropic.unwrapToolUse]
      rw [if_pos (bind_asStr_eq_some.mpr htool)]
      cases hinput : requiredObject (keyedFields encodeAnswer response.answers) "input" with
      | error e => exact ⟨e, rfl⟩
      | ok fields =>
        obtain ⟨a, -, -, ha⟩ := (lookup_keyedFields_iff encodeAnswer_fst h.distinct "input" _).mp
          (requiredObject_ok_iff.mp hinput)
        exact absurd ha.symm ((encodeAnswer_scalar a).2 fields)
    obtain ⟨e, herror⟩ := herror
    rw [GivesBack, hdecode, herror]
    simp [bind, Except.bind, htool]
  · cases hcontent : lookup (keyedFields encodeAnswer response.answers) "content" with
    | none =>
      have hnone : Anthropic.unwrapToolUse (.obj (keyedFields encodeAnswer response.answers)) =
          .ok none := by
        simp only [Anthropic.unwrapToolUse]
        rw [if_neg fun h => htool (bind_asStr_eq_some.mp h)]
        simp only [hcontent]
      rw [GivesBack, hdecode, hnone]
      exact (and_iff_left ⟨rfl, htool⟩).symm
    | some j =>
      obtain ⟨a, ha, -, rfl⟩ :=
        (lookup_keyedFields_iff encodeAnswer_fst h.distinct "content" _).mp hcontent
      have herror : ∃ e, Anthropic.unwrapToolUse
          (.obj (keyedFields encodeAnswer response.answers)) = .error e := by
        simp only [Anthropic.unwrapToolUse]
        rw [if_neg fun h => htool (bind_asStr_eq_some.mp h)]
        simp only [hcontent]
        split
        · cases ‹some _ = none›
        · rename_i items hitems
          exact absurd (Option.some.inj hitems) ((encodeAnswer_scalar a).1 items)
        · exact ⟨_, rfl⟩
      obtain ⟨e, herror⟩ := herror
      rw [GivesBack, hdecode, herror]
      simp [bind, Except.bind]

end Bare

section Wrapped

open OpenAi (encodeAnswer encodeAnswer_fst decodeValues_iff LevelsKept)

variable [RustStd] [JsonText] {request : DecisionRequest} {response : DecisionResponse}

theorem openAi_envelope_iff (h : AnswersAll request response.answers) (limits : Limits)
    {payload : Value} {text : String} {document : Json}
    (henvelope : OpenAi.EnvelopeOf payload.1 text) (hparse : JsonText.parse text = .ok document)
    (hbare : document.normalize = (bareValue response).1) :
    GivesBack OpenAi.decodeResponse payload request response limits ↔
      LevelsKept request response.answers := by
  have hunwrap := (OpenAi.unwrapEnvelope_some_iff payload.1 document.normalize).mpr
    ⟨text, document, henvelope, hparse, rfl⟩
  have hdecode : OpenAi.decodeResponse payload request limits =
      OpenAi.decodeValues "output" document.normalize request := by
    rw [OpenAi.decodeResponse, hunwrap]
    rfl
  rw [GivesBack, hdecode, hbare]
  exact decodeValues_iff h "output"

omit [JsonText] in
theorem anthropic_envelope_iff (h : AnswersAll request response.answers) (limits : Limits)
    {payload : Value} {input : List (String × Json)}
    (henvelope : Anthropic.EnvelopeOf payload.1 input)
    (hbare : .obj input = (bareValue response).1) :
    GivesBack Anthropic.decodeResponse payload request response limits ↔
      LevelsKept request response.answers := by
  have hunwrap := (Anthropic.unwrapToolUse_some_iff payload.1 (.obj input)).mpr
    ⟨input, henvelope, rfl⟩
  have hdecode : Anthropic.decodeResponse payload request limits =
      OpenAi.decodeValues "input" (.obj input) request := by
    rw [Anthropic.decodeResponse, hunwrap]
    rfl
  rw [GivesBack, hdecode, hbare]
  exact decodeValues_iff h "input"

/-- Both codecs give the decided values of a response back exactly when its levels are kept and,
for the bare object, no question has an id that they look for to find an envelope. -/
theorem decodeResponse_chosenValues_iff (h : AnswersAll request response.answers)
    (limits : Limits) :
    OpenAi.encodeResponse response = .ok (bareValue response) ∧
    Anthropic.encodeResponse response = .ok (bareValue response) ∧
    (GivesBack OpenAi.decodeResponse (bareValue response) request response limits ↔
      LevelsKept request response.answers ∧
        ∀ a ∈ response.answers, a.questionId.text ≠ "output") ∧
    (GivesBack Anthropic.decodeResponse (bareValue response) request response limits ↔
      LevelsKept request response.answers ∧
        (∀ a ∈ response.answers, a.questionId.text ≠ "content") ∧
        ∀ a ∈ response.answers, a.questionId.text = "type" →
          (encodeAnswer a).2.1 ≠ .str "tool_use") ∧
    (∀ payload text document, OpenAi.EnvelopeOf payload.1 text →
      JsonText.parse text = .ok document → document.normalize = (bareValue response).1 →
      (GivesBack OpenAi.decodeResponse payload request response limits ↔
        LevelsKept request response.answers)) ∧
    ∀ payload input, Anthropic.EnvelopeOf payload.1 input → .obj input = (bareValue response).1 →
      (GivesBack Anthropic.decodeResponse payload request response limits ↔
        LevelsKept request response.answers) :=
  ⟨rfl, rfl, openAi_bare_iff h limits, anthropic_bare_iff h limits,
    fun _ _ _ henvelope hparse hbare => openAi_envelope_iff h limits henvelope hparse hbare,
    fun _ _ henvelope hbare => anthropic_envelope_iff h limits henvelope hbare⟩

end Wrapped

section Samples

attribute [local instance] plainStd

def ticketText : String := "\x7b\"team\":\"web\",\"urgent\":true,\"weight\":1\x7d"

abbrev knownText : JsonText where
  write _ := ""
  parse text := if text = ticketText then
      .ok (.obj [("team", .str "web"), ("urgent", .bool true), ("weight", .num (.int 1))])
    else .error "unknown"

attribute [local instance] knownText

def replyOf (answers : List DecisionAnswer)
    (h : ∀ a ∈ answers, a.validate = .ok () := by decide +kernel) : DecisionResponse where
  answers := answers
  outcome := .verify
  confidence := ⟨1, 1, 0, 1, 0, none⟩
  trace := { entries := [] }
  metrics := ⟨0, 0, false, false⟩
  escalation := none
  decisive_answers := fun h => by cases h
  answers_valid := h
  escalation_outcome := fun h => absurd rfl h

instance : (q : DecisionQuestion) → (a : DecisionAnswer) → Decidable (Fits q a)
  | .choice q, .choice _ choice _ _ =>
    inferInstanceAs (Decidable (choice ∈ q.candidates.map Candidate.id))
  | .boolean _, .boolean .. => instDecidableTrue
  | .score q, .score _ _ level _ _ =>
    inferInstanceAs (Decidable (level ∈ q.levels.map ScoreLevel.label))
  | .choice _, .boolean .. | .choice _, .score .. | .boolean _, .choice .. | .boolean _, .score ..
  | .score _, .choice .. | .score _, .boolean .. => instDecidableFalse

instance : (q : DecisionQuestion) → (a : DecisionAnswer) → Decidable (OpenAi.LevelKept q a)
  | .score q, .score _ expected level _ _ =>
    inferInstanceAs (Decidable (0 ≤ OpenAi.toI64 (OpenAi.round expected) ∧
      (q.levels[(OpenAi.toI64 (OpenAi.round expected)).toNat]?).map ScoreLevel.label = some level))
  | .choice _, _ | .boolean _, _ | .score _, .choice .. | .score _, .boolean .. => instDecidableTrue

def ticketRequest : DecisionRequest :=
  Sample.request [Sample.choice "team" ["web", "app"], Sample.boolean "urgent",
    Sample.score "weight" ["light", "heavy"]] .defaults

def ticketReply : DecisionResponse :=
  replyOf [.choice ⟨"team", by decide⟩ ⟨"web", by decide⟩
      (Sample.distribution [("web", 7 / 8), ("app", 1 / 8)]) (7 / 8),
    .boolean ⟨"urgent", by decide⟩ true 1 1,
    .score ⟨"weight", by decide⟩ 1 "heavy"
      (Sample.distribution [("light", 0), ("heavy", 1)]) 1]

/-- The answers to ordinary ids: bare, in a response envelope and in a message. -/
theorem decodeResponse_chosenValues_ticket :
    GivesBack OpenAi.decodeResponse (bareValue ticketReply) ticketRequest ticketReply {} ∧
    GivesBack OpenAi.decodeResponse
      (.struct [("output", some (.array [.struct [("content", some (.array
        [.struct [("type", some (.str "output_text")), ("text", some (.str ticketText))]]))]]))])
      ticketRequest ticketReply {} ∧
    GivesBack Anthropic.decodeResponse
      (.struct [("content", some (.array [.struct [("type", some (.str "tool_use")),
        ("input", some (.struct [("team", some (.str "web")), ("urgent", some (.bool true)),
          ("weight", some (.int 1))]))]]))])
      ticketRequest ticketReply {} := by
  have hkept : OpenAi.LevelsKept ticketRequest ticketReply.answers := by
    unfold OpenAi.LevelsKept
    decide +kernel
  have hanswers : AnswersAll ticketRequest ticketReply.answers :=
    ⟨by decide +kernel, by decide +kernel, by decide +kernel⟩
  have hbareValue : Json.obj [("team", .str "web"), ("urgent", .bool true),
      ("weight", .num (.int 1))] = (bareValue ticketReply).1 := by
    have hindex : OpenAi.toI64 (OpenAi.round 1) = 1 := by decide +kernel
    change _ = (Value.object (OrdMap.ofList [("team", .str "web"), ("urgent", .bool true),
      ("weight", .int (OpenAi.toI64 (OpenAi.round 1)))])).1
    rw [hindex]
    rfl
  obtain ⟨-, -, hbare, -, hopenAi, hanthropic⟩ := decodeResponse_chosenValues_iff hanswers {}
  refine ⟨hbare.mpr ⟨hkept, by decide +kernel⟩, (hopenAi _ ticketText _ ?_ rfl hbareValue).mpr hkept,
    (hanthropic _ _ ?_ hbareValue).mpr hkept⟩
  · exact ⟨_, _, [[ticketText]], rfl, rfl, .cons ⟨_, rfl, Or.inr ⟨_, [[ticketText]], rfl,
      .cons ⟨_, rfl, Or.inr ⟨_, rfl, rfl, rfl⟩⟩ .nil, rfl⟩⟩ .nil, rfl⟩
  · exact ⟨_, rfl, Or.inr ⟨fun htype => Option.some_ne_none _ htype.symm, [], _, [], rfl,
      by simp, rfl, rfl⟩⟩

theorem answersAll_single {q : DecisionQuestion} {a : DecisionAnswer} (hid : a.questionId = q.id)
    (hfits : Fits q a) : AnswersAll (Sample.request [q] .defaults (by simp)) [a] where
  answered := fun q' hq => ⟨a, List.mem_singleton_self a, by
    rw [List.mem_singleton.mp hq]
    exact hid⟩
  fits := fun q' hq a' ha _ => by
    rw [List.mem_singleton.mp hq, List.mem_singleton.mp ha]
    exact hfits
  distinct := by simp

abbrev answered (id : String) (h : validateId id = .ok () := by decide) : DecisionResponse :=
  replyOf [.boolean ⟨id, h⟩ true 1 1]
    (by simp [DecisionAnswer.validate, DecisionAnswer.confidence, isUnitInterval])

/-- A question called `output` or `content` is not given back from the bare object. -/
theorem decodeResponse_chosenValues_claimed :
    (AnswersAll (Sample.request [Sample.boolean "output"] .defaults) (answered "output").answers ∧
      ¬ GivesBack OpenAi.decodeResponse (bareValue (answered "output"))
        (Sample.request [Sample.boolean "output"] .defaults) (answered "output") {}) ∧
    AnswersAll (Sample.request [Sample.boolean "content"] .defaults) (answered "content").answers ∧
      ¬ GivesBack Anthropic.decodeResponse (bareValue (answered "content"))
        (Sample.request [Sample.boolean "content"] .defaults) (answered "content") {} := by
  have houtput : AnswersAll (Sample.request [Sample.boolean "output"] .defaults)
      (answered "output").answers := answersAll_single rfl trivial
  have hcontent : AnswersAll (Sample.request [Sample.boolean "content"] .defaults)
      (answered "content").answers := answersAll_single rfl trivial
  refine ⟨⟨houtput, fun h => ?_⟩, hcontent, fun h => ?_⟩
  · exact ((openAi_bare_iff houtput {}).mp h).2 _ (List.mem_singleton_self _) rfl
  · exact ((anthropic_bare_iff hcontent {}).mp h).2.1 _ (List.mem_singleton_self _) rfl

end Samples

end OpenCodifier
