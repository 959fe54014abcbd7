import OpenCodifier.Engine.Sample
import OpenCodifier.Model.KaiPrompt
set_option autoImplicit false

namespace OpenCodifier

open Kai
open Anchors (ends)

namespace KaiQuestion

section Checks

variable [RustStd] [NumberTexts] [DebugTexts]
variable {id : String} {state instructions : KaiPayload} {kind : KaiKind}
  {options : List KaiOption} {q : KaiQuestion}

omit [DebugTexts] in
theorem renderNonempty_text {slot text : String} :
    renderNonempty id slot (.text text) = .ok () ↔ Condition.blank text = false := by
  rw [renderNonempty, KaiPayload.render]
  change (if Condition.blank text then _ else _) = _ ↔ _
  cases Condition.blank text <;> simp [violation]

theorem new_ok_iff : new id state instructions kind options = .ok q ↔
    (renderNonempty id "state" state = .ok () ∧
      renderNonempty id "instructions" instructions = .ok () ∧
      ((optionLimits kind).1 ≤ options.length ∧ options.length ≤ (optionLimits kind).2) ∧
      (∀ entry ∈ options.zipIdx, checkKey id entry = .ok ()) ∧
      checkNoul id kind options = .ok ()) ∧ q = ⟨id, state, instructions, kind, options⟩ := by
  rw [new, Result.bind_unit_ok, Result.bind_unit_ok]
  dsimp only
  split
  · rename_i houtside
    constructor
    · rintro ⟨-, -, h⟩
      cases h
    · rintro ⟨⟨-, -, hinside, -⟩, -⟩
      omega
  · rename_i hinside
    rw [Result.bind_unit_ok, Result.bind_unit_ok, Result.forM_ok_iff, Except.ok.injEq, not_or] at *
    constructor
    · rintro ⟨hstate, hinstructions, hkeys, hnoul, rfl⟩
      exact ⟨⟨hstate, hinstructions, by omega, hkeys, hnoul⟩, rfl⟩
    · rintro ⟨⟨hstate, hinstructions, -, hkeys, hnoul⟩, rfl⟩
      exact ⟨hstate, hinstructions, hkeys, hnoul, rfl⟩

theorem checked_of_new (h : new id state instructions kind options = .ok q) :
    new q.id q.state q.instructions q.kind q.options = .ok q ∧
      minCandidates ≤ q.options.length ∧ q.options.length ≤ maxCandidates := by
  obtain ⟨⟨-, -, hcount, -⟩, rfl⟩ := new_ok_iff.mp h
  refine ⟨h, ?_⟩
  cases kind <;> simp only [optionLimits, minCandidates, maxCandidates, maxScoreLevels] at hcount ⊢ <;>
    omega

/-- Letters are no white space, as the standard library has it. -/
def LettersVisible : Prop := ∀ c : Char, 'a' ≤ c → c ≤ 'z' → RustStd.isWhitespace c = false

theorem new_noul_iff (hletters : LettersVisible) {text question : String} :
    new id (.text text) (.text question) .noul (noul id (.text text) (.text question)).options =
        .ok (noul id (.text text) (.text question)) ↔
      Condition.blank text = false ∧ Condition.blank question = false := by
  have hfalse : Condition.blank "false" = false := by
    simp [Condition.blank, hletters 'f' (by decide) (by decide)]
  have htrue : Condition.blank "true" = false := by
    simp [Condition.blank, hletters 't' (by decide) (by decide)]
  have hno : checkKey id (⟨"false", some "No"⟩, 0) = .ok () := by simp [checkKey, hfalse]
  have hyes : checkKey id (⟨"true", some "Yes"⟩, 1) = .ok () := by simp [checkKey, htrue]
  rw [new_ok_iff, renderNonempty_text, renderNonempty_text]
  simp [noul, optionLimits, minCandidates, maxCandidates, checkNoul, hno, hyes]

/-- What the constructors let through: every kind has its number of options, and only the texts of
a boolean request go unchecked. -/
theorem fromDecision_spec (hletters : LettersVisible) {state : State} {question : DecisionQuestion}
    (h : fromDecision state question = .ok q) :
    (minCandidates ≤ q.options.length ∧ q.options.length ≤ maxCandidates) ∧
      (new q.id q.state q.instructions q.kind q.options = .ok q ↔
        ∀ boolean, question = .boolean boolean →
          Condition.blank state.text = false ∧ Condition.blank boolean.text = false) := by
  rw [fromDecision] at h
  split at h
  · cases h
  cases question with
  | choice choice =>
    obtain ⟨hnew, hcount⟩ := checked_of_new h
    exact ⟨hcount, iff_of_true hnew (by simp)⟩
  | score score =>
    obtain ⟨hnew, hcount⟩ := checked_of_new h
    exact ⟨hcount, iff_of_true hnew (by simp)⟩
  | boolean boolean =>
    cases h
    refine ⟨by simp [noul, minCandidates, maxCandidates], (new_noul_iff hletters).trans ?_⟩
    simp

end Checks

end KaiQuestion

section Encoding

variable [NumberTexts] {question : KaiQuestion} {tokenizer : KaiTokenizer} {maxInputTokens : Nat}
  {encoding : KaiEncoding}

theorem KaiQuestion.segments_ok (question : KaiQuestion) : ∃ segments,
    question.segments = .ok segments ∧ segments.options.length = question.options.length := by
  have hrender : ∀ payload : KaiPayload, ∃ text, payload.render = .ok text := by
    intro payload
    cases payload with
    | text content => exact ⟨content, rfl⟩
    | structured value => exact ⟨_, rfl⟩
  obtain ⟨state, hstate⟩ := hrender question.state
  obtain ⟨instructions, hinstructions⟩ := hrender question.instructions
  obtain ⟨options, hoptions, -⟩ := (Result.mapM_ok_exists (S := fun _ _ => True)
    (f := KaiQuestion.optionLine) (l := question.options)).mpr fun option _ => ⟨_, rfl, trivial⟩
  rw [KaiQuestion.segments, hstate, hinstructions, hoptions]
  exact ⟨_, rfl, Result.mapM_length hoptions⟩

structure KaiSegments.Tokenized (tokenizer : KaiTokenizer) (segments : KaiSegments)
    (lead : List Int) (parts : List (List Int)) (tail : List Int) : Prop where
  lead : tokenizer segments.prefixText = .ok lead ∧ lead ≠ []
  options : List.Forall₂ (fun option part => tokenizer option = .ok part ∧ part ≠ [])
    segments.options parts
  tail : tokenizer segments.suffixText = .ok tail ∧ tail ≠ []

namespace KaiEncoding

omit [NumberTexts] in
theorem appendOption_ok {id : String} {soFar out : List Int × List Nat} {entry : String × Nat} :
    appendOption id tokenizer soFar entry = .ok out ↔
      ∃ part, tokenizer entry.1 = .ok part ∧ part ≠ [] ∧
        out = (soFar.1 ++ part, soFar.2 ++ [(soFar.1 ++ part).length - 1]) := by
  rw [appendOption, Result.bind_ok]
  refine exists_congr fun part => and_congr_right fun _ => ?_
  by_cases hpart : part = []
  · simp [hpart]
  · simp [hpart, eq_comm]

omit [NumberTexts] in
theorem appendOptions_ok {id : String} {entries : List (String × Nat)}
    {soFar out : List Int × List Nat} :
    entries.foldlM (appendOption id tokenizer) soFar = .ok out ↔
      ∃ parts, List.Forall₂ (fun entry part => tokenizer entry.1 = .ok part ∧ part ≠ []) entries
        parts ∧ out = (soFar.1 ++ parts.flatten, soFar.2 ++ ends soFar.1.length parts) := by
  induction entries generalizing soFar with
  | nil => simp [ends, pure, Except.pure, eq_comm]
  | cons entry entries ih =>
    rw [List.foldlM_cons, Result.bind_ok]
    simp only [appendOption_ok, ih, List.forall₂_cons_left_iff]
    constructor
    · rintro ⟨_, ⟨part, hpart, hne, rfl⟩, parts, hparts, rfl⟩
      exact ⟨part :: parts, ⟨part, parts, ⟨hpart, hne⟩, hparts, rfl⟩, by simp [ends]⟩
    · rintro ⟨_, ⟨part, parts, ⟨hpart, hne⟩, hparts, rfl⟩, rfl⟩
      exact ⟨_, ⟨part, hpart, hne, rfl⟩, parts, hparts, by simp [ends]⟩

/-- The tokens of all segments, with the pointers at the last token of each option. -/
def layout (question : KaiQuestion) (lead : List Int) (parts : List (List Int)) (tail : List Int) :
    KaiEncoding where
  ids := lead ++ parts.flatten ++ tail
  optionPos := ends lead.length parts
  answerPos := (lead ++ parts.flatten ++ tail).length - 1
  keys := question.keys
  kind := question.kind

theorem encode_ok_iff : encode question tokenizer maxInputTokens = .ok encoding ↔
    ∃ segments lead parts tail, question.segments = .ok segments ∧
      segments.Tokenized tokenizer lead parts tail ∧
      (lead ++ parts.flatten ++ tail).length ≤ maxInputTokens ∧
      encoding = layout question lead parts tail ∧ encoding.validate = .ok () := by
  have hoptions : ∀ {segments : KaiSegments} {parts : List (List Int)},
      List.Forall₂ (fun entry part => tokenizer entry.1 = .ok part ∧ part ≠ [])
        segments.options.zipIdx parts ↔
      List.Forall₂ (fun option part => tokenizer option = .ok part ∧ part ≠ [])
        segments.options parts := by
    intro segments parts
    conv_rhs => rw [← List.zipIdx_map_fst 0 segments.options, List.forall₂_map_left_iff]
  constructor
  · intro h
    rw [encode, Result.bind_ok] at h
    obtain ⟨segments, hsegments, h⟩ := h
    obtain ⟨lead, hlead, h⟩ := Result.bind_ok.mp h
    split at h
    · cases h
    rename_i hleadNe
    obtain ⟨⟨ids, optionPos⟩, hfold, h⟩ := Result.bind_ok.mp h
    obtain ⟨parts, hparts, hout⟩ := appendOptions_ok.mp hfold
    cases hout
    obtain ⟨tail, htail, h⟩ := Result.bind_ok.mp h
    split at h
    · cases h
    rename_i htailNe
    dsimp only at h
    split at h
    · cases h
    rename_i hfits
    obtain ⟨hvalid, h⟩ := Result.bind_unit_ok.mp h
    cases h
    exact ⟨segments, lead, parts, tail, hsegments, ⟨⟨hlead, hleadNe⟩, hoptions.mp hparts,
      htail, htailNe⟩, Nat.not_lt.mp hfits, rfl, hvalid⟩
  · rintro ⟨segments, lead, parts, tail, hsegments, htokens, hfits, rfl, hvalid⟩
    have hfold : segments.options.zipIdx.foldlM (appendOption question.id tokenizer) (lead, []) =
        .ok (lead ++ parts.flatten, ends lead.length parts) :=
      appendOptions_ok.mpr ⟨parts, hoptions.mpr htokens.options, rfl⟩
    refine Result.bind_ok.mpr ⟨segments, hsegments, Result.bind_ok.mpr ⟨lead, htokens.lead.1, ?_⟩⟩
    rw [if_neg htokens.lead.2]
    refine Result.bind_ok.mpr ⟨_, hfold, Result.bind_ok.mpr ⟨tail, htokens.tail.1, ?_⟩⟩
    rw [if_neg htokens.tail.2]
    dsimp only
    rw [if_neg (Nat.not_lt.mpr hfits)]
    exact Result.bind_unit_ok.mpr ⟨hvalid, rfl⟩

omit [NumberTexts] in
theorem layout_pointers {lead tail : List Int} {parts : List (List Int)}
    (hparts : ∀ part ∈ parts, part ≠ []) (htail : tail ≠ []) :
    (layout question lead parts tail).optionPos.Pairwise (· < ·) ∧
      ∀ p ∈ (layout question lead parts tail).optionPos,
        p < (layout question lead parts tail).answerPos := by
  refine ⟨Anchors.ends_increasing _ hparts, fun p hp => ?_⟩
  have hbelow := Anchors.mem_ends _ hparts hp
  have hpos := List.length_pos_of_ne_nil htail
  simp only [layout, List.length_append]
  omega

omit [NumberTexts] in
theorem validate_layout {lead tail : List Int} {parts : List (List Int)}
    (hcount : parts.length = question.options.length)
    (hlimits : minCandidates ≤ question.options.length ∧ question.options.length ≤ maxCandidates)
    (hparts : ∀ part ∈ parts, part ≠ []) (htail : tail ≠ []) :
    (layout question lead parts tail).validate = .ok () := by
  obtain ⟨hincreasing, hbelow⟩ := @layout_pointers question lead tail parts hparts htail
  have hkeys : (layout question lead parts tail).keys.length = question.options.length := by
    simp [layout, KaiQuestion.keys]
  have hpointers : (layout question lead parts tail).optionPos.length =
      question.options.length := by
    rw [layout, Anchors.length_ends, hcount]
  have hdistinct : (layout question lead parts tail).optionPos.dedup =
      (layout question lead parts tail).optionPos :=
    List.dedup_eq_self.mpr (hincreasing.imp fun h => h.ne)
  have hwindows : ((Neighbours.windows (layout question lead parts tail).optionPos).all
      fun pair => pair.1 < pair.2) = true :=
    List.all_eq_true.mpr fun pair hpair =>
      decide_eq_true (Neighbours.all_windows hincreasing pair hpair)
  have hnone : (layout question lead parts tail).optionPos.find? (fun position =>
      (layout question lead parts tail).answerPos ≤ position) = none :=
    List.find?_eq_none.mpr fun p hp => by simpa using hbelow p hp
  unfold validate
  dsimp only
  rw [hkeys, hdistinct, hpointers, if_neg (not_not.mpr rfl), if_neg (by omega),
    if_neg (not_not.mpr rfl), hwindows, hnone]
  simp [layout]

/-- What an encoding reads: the tokens of all segments in order, the last token of each option, and
the last token of all. -/
structure Reads (encoding : KaiEncoding) (lead : List Int) (parts : List (List Int))
    (tail : List Int) : Prop where
  ids : encoding.ids = lead ++ parts.flatten ++ tail
  count : encoding.optionPos.length = parts.length
  pointer : ∀ i < parts.length,
    encoding.optionPos[i]? = some (lead.length + (parts.take (i + 1)).flatten.length - 1)
  increasing : encoding.optionPos.Pairwise (· < ·)
  below : ∀ p ∈ encoding.optionPos, p < encoding.answerPos
  answer : encoding.answerPos + 1 = encoding.ids.length

/-- A question with an allowed number of options is encoded exactly when every segment has a token
and all of them fit, and then the encoding reads them. -/
def Lawful (question : KaiQuestion) (tokenizer : KaiTokenizer) (maxInputTokens : Nat) : Prop :=
  ((∃ encoding, encode question tokenizer maxInputTokens = .ok encoding) ↔
    ∃ segments lead parts tail, question.segments = .ok segments ∧
      segments.Tokenized tokenizer lead parts tail ∧
      (lead ++ parts.flatten ++ tail).length ≤ maxInputTokens) ∧
  ∀ encoding, encode question tokenizer maxInputTokens = .ok encoding →
    ∃ segments lead parts tail, question.segments = .ok segments ∧
      segments.Tokenized tokenizer lead parts tail ∧ encoding.Reads lead parts tail

theorem encode_lawful (tokenizer : KaiTokenizer) (maxInputTokens : Nat)
    (hlimits : minCandidates ≤ question.options.length ∧ question.options.length ≤ maxCandidates) :
    Lawful question tokenizer maxInputTokens := by
  have hparts : ∀ {segments : KaiSegments} {lead tail : List Int} {parts : List (List Int)},
      segments.Tokenized tokenizer lead parts tail → ∀ part ∈ parts, part ≠ [] := by
    intro segments lead tail parts htokens part hpart
    obtain ⟨i, hi, rfl⟩ := List.mem_iff_getElem.mp hpart
    have hlt : i < segments.options.length := htokens.options.length_eq ▸ hi
    exact ((List.forall₂_iff_get.mp htokens.options).2 i hlt hi).2
  refine ⟨⟨?_, ?_⟩, ?_⟩
  · rintro ⟨encoding, hencode⟩
    obtain ⟨segments, lead, parts, tail, hsegments, htokens, hfits, -⟩ := encode_ok_iff.mp hencode
    exact ⟨segments, lead, parts, tail, hsegments, htokens, hfits⟩
  · rintro ⟨segments, lead, parts, tail, hsegments, htokens, hfits⟩
    obtain ⟨segments', hsegments', hlength⟩ := question.segments_ok
    have hsame : segments' = segments := Except.ok.inj (hsegments'.symm.trans hsegments)
    have hcount : parts.length = question.options.length := by
      rw [← htokens.options.length_eq, ← hlength, hsame]
    exact ⟨_, encode_ok_iff.mpr ⟨segments, lead, parts, tail, hsegments, htokens, hfits, rfl,
      validate_layout hcount hlimits (hparts htokens) htokens.tail.2⟩⟩
  · intro encoding hencode
    obtain ⟨segments, lead, parts, tail, hsegments, htokens, -, rfl, -⟩ := encode_ok_iff.mp hencode
    obtain ⟨hincreasing, hbelow⟩ :=
      @layout_pointers question lead tail parts (hparts htokens) htokens.tail.2
    refine ⟨segments, lead, parts, tail, hsegments, htokens, rfl, Anchors.length_ends _ _,
      fun i hi => Anchors.getElem?_ends _ hi, hincreasing, hbelow, ?_⟩
    have hpos := List.length_pos_of_ne_nil htokens.tail.2
    simp only [layout, List.length_append]
    omega

end KaiEncoding

end Encoding

section Law

variable [RustStd] [NumberTexts] [DebugTexts]

/-- Every question that is built from a request encodes as the contract says; and it passes the
checks of the constructor unless it is the question of a boolean request with a blank text, which is
built without them. -/
theorem fromDecision_lawful_iff (hletters : KaiQuestion.LettersVisible) {state : State}
    {question : DecisionQuestion} {q : KaiQuestion}
    (h : KaiQuestion.fromDecision state question = .ok q) (tokenizer : KaiTokenizer)
    (maxInputTokens : Nat) :
    (KaiQuestion.new q.id q.state q.instructions q.kind q.options = .ok q ∧
      KaiEncoding.Lawful q tokenizer maxInputTokens) ↔
    ∀ boolean, question = .boolean boolean →
      Condition.blank state.text = false ∧ Condition.blank boolean.text = false := by
  obtain ⟨hlimits, hchecked⟩ := KaiQuestion.fromDecision_spec hletters h
  rw [hchecked]
  exact and_iff_left (KaiEncoding.encode_lawful tokenizer maxInputTokens hlimits)

end Law

section Samples

abbrev plainNumbers : NumberTexts where
  text
    | .int value => toString value
    | .float value => toString value

abbrev quotedKeys : DebugTexts := ⟨fun text => "\"" ++ text ++ "\""⟩

attribute [local instance] plainStd plainNumbers quotedKeys

def openQuestion : BooleanQuestion := ⟨Sample.ident "open", "Is it open?", by decide⟩

def charTokens : KaiTokenizer := fun text => .ok (text.toList.map fun c => (c.toNat : Int))

def openKai (state : String) : KaiQuestion :=
  .noul "open" (.text state) (.text "Is it open?")

theorem plain_lettersVisible : KaiQuestion.LettersVisible := by
  intro c hlow _
  by_contra hblank
  rw [Bool.not_eq_false] at hblank
  have hspace : c.isWhitespace = true := hblank
  simp only [Char.isWhitespace, Bool.or_eq_true, decide_eq_true_eq] at hspace
  rcases hspace with ((rfl | rfl) | rfl) | rfl <;> exact absurd hlow (by decide)

/-- A boolean request about a short text. -/
theorem fromDecision_lawful_iff_open : KaiQuestion.LettersVisible ∧
    KaiQuestion.fromDecision (.fromText "The gate is up.") (.boolean openQuestion) =
      .ok (openKai "The gate is up.") ∧
    KaiEncoding.Lawful (openKai "The gate is up.") charTokens 8192 := by
  have hmaps : KaiQuestion.fromDecision (.fromText "The gate is up.") (.boolean openQuestion) =
      .ok (openKai "The gate is up.") := rfl
  refine ⟨plain_lettersVisible, hmaps, ?_⟩
  have hlaw := fromDecision_lawful_iff plain_lettersVisible hmaps charTokens 8192
  refine (hlaw.mpr fun boolean hboolean => ?_).2
  cases hboolean
  exact ⟨by decide, by decide⟩

/-- A boolean request about an empty text becomes a question that the constructor refuses. -/
theorem fromDecision_unchecked :
    KaiQuestion.fromDecision (.fromText "") (.boolean openQuestion) = .ok (openKai "") ∧
    KaiQuestion.new (openKai "").id (openKai "").state (openKai "").instructions (openKai "").kind
        (openKai "").options =
      .error (.contractViolation "`open`: state must be nonempty text or structured data") :=
  ⟨rfl, rfl⟩

end Samples

end OpenCodifier
