import OpenCodifier.Model.Julia
import OpenCodifier.Model.KaiLaw
set_option autoImplicit false

namespace OpenCodifier

open Julia
open Kai (violation)
open Anchors (starts)

namespace JuliaQuestion

section Checks

variable [RustStd] [DebugTexts]
variable {id state question : String} {kind : JuliaKind} {options : List JuliaOption}
  {q : JuliaQuestion}

theorem new_ok_iff : new id state question kind options = .ok q ↔
    (checkCount id kind options.length = .ok () ∧ checkText id question = .ok () ∧
      (∀ entry ∈ options.zipIdx, checkOption id entry = .ok ()) ∧
      checkNoul id kind options = .ok ()) ∧ q = ⟨id, state, question, kind, options⟩ := by
  rw [new, Result.bind_unit_ok, Result.bind_unit_ok, Result.bind_unit_ok, Result.bind_unit_ok,
    Result.forM_ok_iff, Except.ok.injEq, eq_comm (b := q)]
  simp only [and_assoc]

omit [RustStd] [DebugTexts] in
theorem checkCount_ok {count : Nat} :
    checkCount id kind count = .ok () ↔ minOptions ≤ count ∧ count ≤ maxOptions := by
  rw [checkCount]
  split
  · simp only [violation, reduceCtorEq, false_iff]
    omega
  · simp only [true_iff]
    omega

theorem count_of_new (h : new id state question kind options = .ok q) :
    minOptions ≤ q.options.length ∧ q.options.length ≤ maxOptions := by
  obtain ⟨⟨hcount, -⟩, rfl⟩ := new_ok_iff.mp h
  exact checkCount_ok.mp hcount

/-- Every question of a request has passed the constructor. -/
theorem new_of_fromDecision {state : State} {question : DecisionQuestion}
    (h : fromDecision state question = .ok q) :
    new q.id q.state q.question q.kind q.options = .ok q := by
  have hbuilt : ∀ {id state question kind options}, new id state question kind options = .ok q →
      new q.id q.state q.question q.kind q.options = .ok q := by
    intro id state question kind options hnew
    obtain ⟨-, rfl⟩ := new_ok_iff.mp hnew
    exact hnew
  unfold fromDecision at h
  split at h
  · cases h
  cases question with
  | choice choice => exact hbuilt h
  | boolean boolean => exact hbuilt h
  | score score => exact hbuilt h

end Checks

/-- The head and every option encode to at least one token. -/
structure Tokenized (tokenizer : JuliaTokenizer) (question : JuliaQuestion) (head : List Int)
    (texts : List (List Int)) : Prop where
  head : tokenizer question.headText = .ok head ∧ head ≠ []
  options : List.Forall₂
    (fun option text => tokenizer (optionSegment option) = .ok text ∧ text ≠ [])
    question.options texts

end JuliaQuestion

namespace JuliaEncoding

variable {question : JuliaQuestion} {tokenizer : JuliaTokenizer} {maxLength : Nat}
  {head : List Int} {texts : List (List Int)}

def segment (text : List Int) : List Int := maskId :: text.take optionTokenLimit

def optionTokens (texts : List (List Int)) : Nat := ((texts.map segment).map List.length).sum

def keptHead (head : List Int) (texts : List (List Int)) : List Int :=
  head.take (min head.length (max 8 (headLength - optionTokens texts)))

def front (head : List Int) (texts : List (List Int)) : List Int :=
  clsId :: (keptHead head texts ++ [sepId]) ++ (texts.map segment).flatten ++ [sepId]

def fixed (head : List Int) (texts : List (List Int)) : Nat :=
  1 + (keptHead head texts).length + 1 + optionTokens texts + 1 + 1

/-- The encoding of tokens, with the markers at the first token of each option. -/
def layout (question : JuliaQuestion) (head : List Int) (texts : List (List Int))
    (state : List Int) : JuliaEncoding where
  ids := front head texts ++ state ++ [sepId]
  markerPos := starts ((keptHead head texts).length + 2) (texts.map segment)
  keys := question.keys
  kind := question.kind

theorem segment_ne_nil {part : List Int} (h : part ∈ texts.map segment) : part ≠ [] := by
  obtain ⟨text, -, rfl⟩ := List.mem_map.mp h
  exact List.cons_ne_nil _ _

theorem length_front : (front head texts).length + 1 = fixed head texts := by
  simp only [front, fixed, optionTokens, List.length_append, List.length_cons, List.length_nil,
    List.length_flatten]
  omega

theorem encodeOption_ok {id : String} {entry : JuliaOption × Nat} {out : List Int} :
    encodeOption id tokenizer entry = .ok out ↔
      ∃ text, (tokenizer (JuliaQuestion.optionSegment entry.1) = .ok text ∧ text ≠ []) ∧
        segment text = out := by
  rw [encodeOption, Result.bind_ok]
  refine exists_congr fun text => ?_
  rw [and_assoc]
  refine and_congr_right fun _ => ?_
  by_cases htext : text = []
  · simp [htext]
  · simp [htext, segment]

theorem foldl_appendSegment (parts : List (List Int)) (soFar : List Int × List Nat) :
    parts.foldl appendSegment soFar =
      (soFar.1 ++ parts.flatten, soFar.2 ++ starts soFar.1.length parts) := by
  induction parts generalizing soFar with
  | nil => simp [starts]
  | cons part parts ih => simp [ih, appendSegment, starts]

theorem mapM_encodeOption {id : String} {options : List JuliaOption} {parts : List (List Int)} :
    options.zipIdx.mapM (encodeOption id tokenizer) = .ok parts ↔
      ∃ texts, List.Forall₂ (fun option text =>
        tokenizer (JuliaQuestion.optionSegment option) = .ok text ∧ text ≠ []) options texts ∧
        texts.map segment = parts := by
  rw [Result.mapM_ok]
  conv_rhs => rw [← List.zipIdx_map_fst 0 options]
  simp only [List.forall₂_map_left_iff, encodeOption_ok]
  generalize options.zipIdx = entries
  induction entries generalizing parts with
  | nil => simp [eq_comm]
  | cons entry entries ih =>
    simp only [List.forall₂_cons_left_iff, ih]
    constructor
    · rintro ⟨_, _, ⟨text, htext, rfl⟩, ⟨texts, htexts, rfl⟩, rfl⟩
      exact ⟨text :: texts, ⟨text, texts, htext, htexts, rfl⟩, rfl⟩
    · rintro ⟨_, ⟨text, texts, htext, htexts, rfl⟩, rfl⟩
      exact ⟨segment text, texts.map segment, ⟨text, htext, rfl⟩, ⟨texts, htexts, rfl⟩, rfl⟩

theorem encode_eq (h : question.Tokenized tokenizer head texts) :
    encode question tokenizer maxLength = (do
      let state ← stateTokens tokenizer question.state (maxLength - fixed head texts)
      let encoding := layout question head texts state
      if maxLength < encoding.ids.length then
        .error (.promptTooLong question.id encoding.ids.length maxLength)
      else do
        encoding.validate
        .ok encoding) := by
  have hoptions : question.options.zipIdx.mapM (encodeOption question.id tokenizer) =
      .ok (texts.map segment) := mapM_encodeOption.mpr ⟨texts, h.options, rfl⟩
  have hfold : (texts.map segment).foldl appendSegment (clsId :: (head.take (min head.length
      (max (headLength - ((texts.map segment).map List.length).sum) 8)) ++ [sepId]), []) =
      (clsId :: (keptHead head texts ++ [sepId]) ++ (texts.map segment).flatten,
        starts ((keptHead head texts).length + 2) (texts.map segment)) := by
    rw [max_comm, foldl_appendSegment, List.nil_append, List.length_cons, List.length_append]
    rfl
  rw [encode, h.head.1]
  change (if head = [] then _ else _) = _
  rw [if_neg h.head.2, hoptions]
  simp only [Bind.bind, Except.bind, hfold, ← length_front]
  rfl

section Layout

variable (question) (head) (texts) (state : List Int)

theorem length_markers : (layout question head texts state).markerPos.length = texts.length := by
  rw [layout, Anchors.length_starts, List.length_map]

theorem marker_at {i : Nat} (hi : i < texts.length) :
    (layout question head texts state).markerPos[i]? =
      some ((keptHead head texts).length + 2 + ((texts.take i).map segment).flatten.length) := by
  rw [layout, Anchors.getElem?_starts _ (by rwa [List.length_map]), ← List.map_take]

theorem marker_mask {p : Nat} (hp : p ∈ (layout question head texts state).markerPos) :
    (layout question head texts state).ids[p]? = some maskId := by
  obtain ⟨i, hi⟩ := List.mem_iff_getElem?.mp hp
  have hlt : i < texts.length := by
    obtain ⟨hlt, -⟩ := List.getElem?_eq_some_iff.mp hi
    rwa [length_markers] at hlt
  rw [marker_at question head texts state hlt, Option.some.injEq] at hi
  have hpart : (texts.map segment)[i]? = some (segment texts[i]) := by
    rw [List.getElem?_map, List.getElem?_eq_getElem hlt, Option.map_some]
  have hstart := @Anchors.getElem?_at_start _ _ (clsId :: (keptHead head texts ++ [sepId]))
    (sepId :: (state ++ [sepId])) i _ hpart (List.cons_ne_nil _ _)
  have hids : (layout question head texts state).ids = clsId :: (keptHead head texts ++ [sepId]) ++
      ((texts.map segment).flatten ++ (sepId :: (state ++ [sepId]))) := by
    simp [layout, front]
  have hlead : (clsId :: (keptHead head texts ++ [sepId])).length =
      (keptHead head texts).length + 2 := by simp
  rw [hids, ← hi, List.map_take, ← hlead, hstart]
  rfl

theorem markers_increasing :
    (layout question head texts state).markerPos.Pairwise (· < ·) :=
  Anchors.starts_increasing _ fun _ => segment_ne_nil

theorem validate_layout (hcount : texts.length = question.options.length) :
    (layout question head texts state).validate = .ok () := by
  have hkeys : (layout question head texts state).keys.length = texts.length := by
    rw [layout, JuliaQuestion.keys, List.length_map, hcount]
  have hwindows : ((Neighbours.windows (layout question head texts state).markerPos).all
      fun pair => pair.1 < pair.2) = true :=
    List.all_eq_true.mpr fun pair hpair => decide_eq_true
      (Neighbours.all_windows (markers_increasing question head texts state) pair hpair)
  have hinside : (layout question head texts state).markerPos.find? (fun position =>
      (layout question head texts state).ids.length ≤ position) = none := by
    refine List.find?_eq_none.mpr fun p hp => ?_
    obtain ⟨hlt, -⟩ := List.getElem?_eq_some_iff.mp (marker_mask question head texts state hp)
    simpa using hlt
  have hmask : (layout question head texts state).markerPos.find? (fun position =>
      (layout question head texts state).ids[position]? ≠ some maskId) = none :=
    List.find?_eq_none.mpr fun p hp => by simp [marker_mask question head texts state hp]
  unfold validate
  dsimp only
  rw [hkeys, length_markers, if_neg (not_not.mpr rfl), hwindows, hinside, hmask]
  rfl

theorem length_layout :
    (layout question head texts state).ids.length = fixed head texts + state.length := by
  simp only [layout, ← length_front, List.length_append, List.length_cons, List.length_nil]
  omega

end Layout

def StateTokenized (tokenizer : JuliaTokenizer) (question : JuliaQuestion) (room : Nat)
    (state : List Int) : Prop :=
  0 < room → tokenizer question.state = .ok state

theorem stateTokens_ok {n : Nat} {out : List Int} :
    stateTokens tokenizer question.state n = .ok out ↔
      ∃ state, StateTokenized tokenizer question n state ∧ out = state.take n := by
  rw [stateTokens]
  unfold StateTokenized
  by_cases hroom : 0 < n
  · rw [if_pos hroom, Result.bind_ok]
    simp only [Except.ok.injEq, eq_comm (a := out), hroom, forall_const]
  · obtain rfl : n = 0 := by omega
    simp [eq_comm]

theorem stateTokens_error {n : Nat} {e : ModelError}
    (h : stateTokens tokenizer question.state n = .error e) :
    tokenizer question.state = .error e := by
  rw [stateTokens] at h
  split at h
  · rcases Result.bind_error.mp h with htokens | ⟨tokens, -, h⟩
    · exact htokens
    · cases h
  · cases h

theorem encode_tooLong (h : question.Tokenized tokenizer head texts)
    (hlong : maxLength < fixed head texts) : encode question tokenizer maxLength =
      .error (.promptTooLong question.id (fixed head texts) maxLength) := by
  have hroom : maxLength - fixed head texts = 0 := by omega
  rw [encode_eq h, hroom]
  change (if maxLength < (layout question head texts []).ids.length then _ else _) = _
  rw [length_layout, List.length_nil, Nat.add_zero, if_pos hlong]

/-- With enough room for what is fixed only the tokenizer can fail. -/
theorem encode_fits (h : question.Tokenized tokenizer head texts)
    (hfits : fixed head texts ≤ maxLength) : encode question tokenizer maxLength =
      (stateTokens tokenizer question.state (maxLength - fixed head texts)).map
        (layout question head texts) := by
  rw [encode_eq h]
  cases hstate : stateTokens tokenizer question.state (maxLength - fixed head texts) with
  | error e => rfl
  | ok out =>
    obtain ⟨state, -, rfl⟩ := stateTokens_ok.mp hstate
    have hshort : ¬maxLength <
        (layout question head texts (state.take (maxLength - fixed head texts))).ids.length := by
      rw [length_layout, List.length_take]
      omega
    have hvalid := validate_layout question head texts (state.take (maxLength - fixed head texts))
      h.options.length_eq.symm
    change (if maxLength < (layout question head texts _).ids.length then _ else _) = _
    rw [if_neg hshort, hvalid]
    rfl

/-- A failure of the tokenizer, or of an encoding without tokens. -/
def TokenizerError (tokenizer : JuliaTokenizer) (e : ModelError) : Prop :=
  (∃ text, tokenizer text = .error e) ∨ ∃ reason, e = .tokenizer reason

theorem encodeOption_error {id : String} {entry : JuliaOption × Nat} {e : ModelError}
    (h : encodeOption id tokenizer entry = .error e) : TokenizerError tokenizer e := by
  rw [encodeOption] at h
  rcases Result.bind_error.mp h with htext | ⟨text, -, h⟩
  · exact .inl ⟨_, htext⟩
  split at h
  · cases h
    exact .inr ⟨_, rfl⟩
  · cases h

theorem tokenized_or_error (question : JuliaQuestion) (tokenizer : JuliaTokenizer)
    (maxLength : Nat) : (∃ head texts, question.Tokenized tokenizer head texts) ∨
      ∃ e, encode question tokenizer maxLength = .error e ∧ TokenizerError tokenizer e := by
  rw [encode]
  cases hhead : tokenizer question.headText with
  | error e => exact .inr ⟨e, rfl, .inl ⟨_, hhead⟩⟩
  | ok head =>
    change _ ∨ ∃ e, (if head = [] then _ else _) = _ ∧ _
    by_cases hnil : head = []
    · rw [if_pos hnil]
      exact .inr ⟨_, rfl, .inr ⟨_, rfl⟩⟩
    rw [if_neg hnil]
    cases hoptions : question.options.zipIdx.mapM (encodeOption question.id tokenizer) with
    | ok parts =>
      obtain ⟨texts, htexts, -⟩ := mapM_encodeOption.mp hoptions
      exact .inl ⟨head, texts, ⟨hhead, hnil⟩, htexts⟩
    | error e =>
      obtain ⟨entry, -, hentry⟩ := Result.mapM_error hoptions
      exact .inr ⟨e, rfl, encodeOption_error hentry⟩

/-- What an encoding reads: the kept head, the options behind their markers and what there is room
for of the state. -/
structure Reads (encoding : JuliaEncoding) (question : JuliaQuestion) (maxLength : Nat)
    (head : List Int) (texts : List (List Int)) (state : List Int) : Prop where
  ids : encoding.ids =
    front head texts ++ state.take (min state.length (maxLength - fixed head texts)) ++ [sepId]
  fits : encoding.ids.length ≤ maxLength
  count : encoding.markerPos.length = question.options.length
  marker : ∀ i < question.options.length, encoding.markerPos[i]? =
    some (1 + (keptHead head texts).length + 1 + ((texts.take i).map segment).flatten.length)
  mask : ∀ p ∈ encoding.markerPos, encoding.ids[p]? = some maskId
  keys : encoding.keys = question.keys
  kind : encoding.kind = question.kind

theorem layout_reads (state : List Int) (h : question.Tokenized tokenizer head texts)
    (hfits : fixed head texts ≤ maxLength) :
    (layout question head texts (state.take (maxLength - fixed head texts))).Reads question
      maxLength head texts state where
  ids := by
    have htake : state.take (min state.length (maxLength - fixed head texts)) =
        state.take (maxLength - fixed head texts) := by
      rw [← List.take_take, List.take_of_length_le (List.length_take_le' _ _)]
    rw [htake]
    rfl
  fits := by
    rw [length_layout, List.length_take]
    omega
  count := by rw [length_markers, h.options.length_eq]
  marker i hi := by
    rw [marker_at _ _ _ _ (h.options.length_eq ▸ hi), Nat.add_comm 1, Nat.add_assoc _ 1 1]
  mask _ hp := marker_mask _ _ _ _ hp
  keys := rfl
  kind := rfl

/-- Once the head and the options have tokens, the encoding is refused for length exactly when the
fixed part is too long, and otherwise it reads them. The last check never fails. -/
structure Lawful (question : JuliaQuestion) (tokenizer : JuliaTokenizer) (maxLength : Nat) :
    Prop where
  refused : ∀ head texts, question.Tokenized tokenizer head texts → maxLength < fixed head texts →
    encode question tokenizer maxLength =
      .error (.promptTooLong question.id (fixed head texts) maxLength)
  encoded : ∀ head texts state, question.Tokenized tokenizer head texts →
    fixed head texts ≤ maxLength →
    StateTokenized tokenizer question (maxLength - fixed head texts) state →
    ∃ encoding, encode question tokenizer maxLength = .ok encoding ∧
      encoding.Reads question maxLength head texts state
  reads : ∀ encoding, encode question tokenizer maxLength = .ok encoding →
    ∃ head texts state, question.Tokenized tokenizer head texts ∧ fixed head texts ≤ maxLength ∧
      StateTokenized tokenizer question (maxLength - fixed head texts) state ∧
      encoding.Reads question maxLength head texts state
  failed : ∀ e, encode question tokenizer maxLength = .error e → TokenizerError tokenizer e ∨
    ∃ head texts, question.Tokenized tokenizer head texts ∧ maxLength < fixed head texts ∧
      e = .promptTooLong question.id (fixed head texts) maxLength
  validated : ∀ head texts state, question.Tokenized tokenizer head texts →
    (layout question head texts state).validate = .ok ()

theorem lawful (question : JuliaQuestion) (tokenizer : JuliaTokenizer) (maxLength : Nat) :
    Lawful question tokenizer maxLength where
  refused _ _ h hlong := encode_tooLong h hlong
  encoded head texts state h hfits hstate := by
    refine ⟨_, ?_, layout_reads state h hfits⟩
    rw [encode_fits h hfits, stateTokens_ok.mpr ⟨state, hstate, rfl⟩]
    rfl
  reads encoding hencode := by
    rcases tokenized_or_error question tokenizer maxLength with ⟨head, texts, h⟩ | ⟨e, herror, -⟩
    · rcases Nat.lt_or_ge maxLength (fixed head texts) with hlong | hfits
      · rw [encode_tooLong h hlong] at hencode
        cases hencode
      rw [encode_fits h hfits] at hencode
      obtain ⟨out, hout, rfl⟩ := Result.map_ok.mp hencode
      obtain ⟨state, hstate, rfl⟩ := stateTokens_ok.mp hout
      exact ⟨head, texts, state, h, hfits, hstate, layout_reads state h hfits⟩
    · rw [herror] at hencode
      cases hencode
  failed e hencode := by
    rcases tokenized_or_error question tokenizer maxLength with ⟨head, texts, h⟩ | ⟨e', herror, he⟩
    · rcases Nat.lt_or_ge maxLength (fixed head texts) with hlong | hfits
      · rw [encode_tooLong h hlong, Except.error.injEq] at hencode
        exact .inr ⟨head, texts, h, hlong, hencode.symm⟩
      rw [encode_fits h hfits] at hencode
      cases hstate : stateTokens tokenizer question.state (maxLength - fixed head texts) with
      | ok state =>
        rw [hstate] at hencode
        cases hencode
      | error e' =>
        rw [hstate] at hencode
        cases hencode
        exact .inl (.inl ⟨_, stateTokens_error hstate⟩)
    · rw [herror, Except.error.injEq] at hencode
      exact .inl (hencode ▸ he)
  validated _ _ _ h := validate_layout _ _ _ _ h.options.length_eq.symm

/-- Whether the prompt is refused for its length, when the tokenizer reports only its own
failures. -/
theorem refused_iff (hown : ∀ text e, tokenizer text = .error e → ∃ reason, e = .tokenizer reason) :
    (∃ id tokens budget,
      encode question tokenizer maxLength = .error (.promptTooLong id tokens budget)) ↔
    ∃ head texts, question.Tokenized tokenizer head texts ∧ maxLength < fixed head texts := by
  constructor
  · rintro ⟨id, tokens, budget, herror⟩
    rcases (lawful question tokenizer maxLength).failed _ herror with
      (⟨text, htext⟩ | ⟨reason, hreason⟩) | ⟨head, texts, h, hlong, -⟩
    · obtain ⟨reason, hreason⟩ := hown text _ htext
      cases hreason
    · cases hreason
    · exact ⟨head, texts, h, hlong⟩
  · rintro ⟨head, texts, h, hlong⟩
    exact ⟨_, _, _, encode_tooLong h hlong⟩

end JuliaEncoding

section Law

variable [RustStd] [DebugTexts]

/-- A question of the constructor has an allowed number of options and encodes as the contract
says. -/
theorem encode_lawful_of_new {id state question : String} {kind : JuliaKind}
    {options : List JuliaOption} {q : JuliaQuestion}
    (h : JuliaQuestion.new id state question kind options = .ok q) (tokenizer : JuliaTokenizer)
    (maxLength : Nat) :
    (minOptions ≤ q.options.length ∧ q.options.length ≤ maxOptions) ∧
      JuliaEncoding.Lawful q tokenizer maxLength ∧
      ((∀ text e, tokenizer text = .error e → ∃ reason, e = .tokenizer reason) →
        ((∃ id tokens budget, JuliaEncoding.encode q tokenizer maxLength =
            .error (.promptTooLong id tokens budget)) ↔
          ∃ head texts, q.Tokenized tokenizer head texts ∧
            maxLength < JuliaEncoding.fixed head texts)) :=
  ⟨JuliaQuestion.count_of_new h, JuliaEncoding.lawful q tokenizer maxLength,
    JuliaEncoding.refused_iff⟩

end Law

section Samples

attribute [local instance] plainStd quotedKeys

def gateJulia : JuliaQuestion :=
  ⟨"gate", "Up.", "Is it open?", .noul, [⟨"false", "no"⟩, ⟨"true", "yes"⟩]⟩

/-- A question about a gate, with one token for each character. -/
theorem encode_lawful_of_new_gate :
    JuliaQuestion.new "gate" "Up." "Is it open?" .noul [⟨"false", "no"⟩, ⟨"true", "yes"⟩] =
      .ok gateJulia ∧
    (minOptions ≤ 2 ∧ 2 ≤ maxOptions) ∧ JuliaEncoding.Lawful gateJulia charTokens 1024 ∧
    ((∃ id tokens budget, JuliaEncoding.encode gateJulia charTokens 1024 =
        .error (.promptTooLong id tokens budget)) ↔
      ∃ head texts, gateJulia.Tokenized charTokens head texts ∧
        1024 < JuliaEncoding.fixed head texts) := by
  have hnew : JuliaQuestion.new "gate" "Up." "Is it open?" .noul
      [⟨"false", "no"⟩, ⟨"true", "yes"⟩] = .ok gateJulia := rfl
  obtain ⟨hcount, hlawful, hrefused⟩ := encode_lawful_of_new hnew charTokens 1024
  exact ⟨hnew, hcount, hlawful, hrefused fun text e h => by cases h⟩

example : JuliaEncoding.encode gateJulia charTokens 38 = .error (.promptTooLong "gate" 39 38) := rfl

example : (JuliaEncoding.encode gateJulia charTokens 40).map JuliaEncoding.markerPos =
    .ok [28, 32] := rfl

end Samples

end OpenCodifier
