import OpenCodifier.Engine.Classifier
import OpenCodifier.Model.OnnxRows
set_option autoImplicit false

namespace OpenCodifier

open Kai (violation)
open Batch (longest)

inductive Verbalizer where
  | bareDescription
  | theAnswerIs
  deriving DecidableEq

namespace Verbalizer

def hypothesis (description : String) : Verbalizer → String
  | bareDescription => description ++ "."
  | theAnswerIs => "The answer is " ++ description ++ "."

def tag : Verbalizer → String
  | bareDescription => "bare"
  | theAnswerIs => "answer-is"

def fromTag [DebugTexts] (tag : String) : ModelResult Verbalizer :=
  if tag = "bare" then .ok bareDescription
  else if tag = "answer-is" then .ok theAnswerIs
  else violation ("unknown verbalizer tag " ++ DebugTexts.str tag)

theorem fromTag_tag [DebugTexts] (template : Verbalizer) :
    fromTag template.tag = .ok template := by
  cases template <;> rfl

end Verbalizer

namespace Nli

def premise (state : State) (question : DecisionQuestion) : String :=
  state.text ++ "\nQuestion: " ++ question.text

/-- The answers and their hypotheses; a Boolean question is its own and only one. -/
def hypotheses (template : Verbalizer) : DecisionQuestion → List (String × String)
  | .choice question => question.candidates.map fun candidate =>
      (candidate.id.text, template.hypothesis candidate.description)
  | .boolean question => [("true", question.text)]
  | .score question => question.levels.map fun level =>
      (level.label, template.hypothesis level.label)

def entailmentDistribution [RustStd] (keys : List String) (masses : List ℚ) :
    ModelResult Distribution :=
  let total := masses.sum
  if keys.length ≠ masses.length then
    violation (toString keys.length ++ " answer keys but " ++ toString masses.length ++
      " entailment masses — the scorer and the question disagree")
  else if total ≤ 0 then
    violation ("entailment masses sum to " ++ RustStd.display total ++ ", not a normalizable total")
  else
    match Distribution.fromPairs ((keys.zip masses).map fun e => (e.1, e.2 / total)) with
    | .ok d => .ok d
    | .error error => violation error.display

end Nli

/-- A source of entailment masses: one for each hypothesis against the premise. -/
structure NliScorer where
  entailmentProbabilities : String → List String → ModelResult (List ℚ)

structure NliVerifier where
  scorer : NliScorer
  template : Verbalizer
  modelId : String

namespace NliVerifier

/-- The id names the model and the template. -/
def new (scorer : NliScorer) (modelPrefix : String) (template : Verbalizer) : NliVerifier :=
  ⟨scorer, template, modelPrefix ++ ":" ++ template.tag⟩

section Decide

variable [RustStd] (self : NliVerifier)

def failed {α : Type} : ModelResult α → EngineResult α
  | .ok a => .ok a
  | .error error => .error (.classifierFailed self.modelId error.display)

/-- The masses of the answers; that of a false one is what the true one leaves. -/
def answerMasses (state : State) (question : DecisionQuestion) : EngineResult (List ℚ) := do
  let keys := answerKeys question
  let pairs := Nli.hypotheses self.template question
  let masses ← self.failed (self.scorer.entailmentProbabilities (Nli.premise state question)
    (pairs.map Prod.snd))
  if pairs.length = keys.length then .ok masses
  else
    match masses.head?, keys with
    | some entailed, ["true", "false"] => .ok [entailed, 1 - entailed]
    | _, _ => .error (.classifierFailed self.modelId ("boolean verbalization produced " ++
        toString masses.length ++ " masses for the true/false pair"))

def decide (state : State) (question : DecisionQuestion) : EngineResult Distribution := do
  let masses ← self.answerMasses state question
  self.failed (Nli.entailmentDistribution (answerKeys question) masses)

def classifier : Classifier := .ofDecide self.modelId self.decide

end Decide

end NliVerifier

section Loading

/-- The input budget of a pair, in tokens. -/
def maxPairTokens : Nat := 512

/-- A loaded tokenizer: how it encodes a pair when it truncates to a length or not at all, and
which of these and what padding is set. -/
structure Tokenizer where
  encodings : Option Nat → String × String → Except String Encoding
  truncation : Option Nat
  padding : Option Nat

namespace Tokenizer

def encode (self : Tokenizer) (pair : String × String) : Except String Encoding :=
  self.encodings self.truncation pair

def withPadding (self : Tokenizer) (padding : Option Nat) : Tokenizer := { self with padding }

def complete (self : Tokenizer) (pair : String × String) : Except String Encoding :=
  self.encodings none pair

/-- A set truncation cuts what is longer to its length, and nothing else. -/
structure Cuts (tokenizer : Tokenizer) (maxLength : Nat) : Prop where
  fits : ∀ pair e, tokenizer.complete pair = .ok e → e.ids.length ≤ maxLength →
    tokenizer.encodings (some maxLength) pair = .ok e
  cuts : ∀ pair e, tokenizer.complete pair = .ok e → maxLength < e.ids.length →
    ∃ cut, tokenizer.encodings (some maxLength) pair = .ok cut ∧ cut.ids.length = maxLength
  fails : ∀ pair error, tokenizer.complete pair = .error error →
    ∃ error', tokenizer.encodings (some maxLength) pair = .error error'

end Tokenizer

/-- The tokenizer library: what it loads, and whether a tokenizer can truncate to a length. -/
structure Tokenizers where
  fromStr : String → Except String Tokenizer
  checkTruncation : Tokenizer → Nat → Except String Unit

def Tokenizers.withTruncation (self : Tokenizers) (tokenizer : Tokenizer) (maxLength : Nat) :
    Except String Tokenizer := do
  self.checkTruncation tokenizer maxLength
  pure { tokenizer with truncation := some maxLength }

namespace OnnxNliScorer

def orTokenizer {α : Type} (what : String) : Except String α → ModelResult α
  | .ok a => .ok a
  | .error error => .error (.tokenizer (what ++ " failed: " ++ error))

/-- The scorer over a graph and a tokenizer file: truncation is set, padding is not. -/
def fromParts (library : Tokenizers) (backend : InferenceBackend) (json : String) :
    ModelResult OnnxNliScorer := do
  let tokenizer ← orTokenizer "load" (library.fromStr json)
  let tokenizer ← orTokenizer "truncation setup"
    (library.withTruncation tokenizer maxPairTokens)
  let tokenizer := tokenizer.withPadding none
  pure ⟨backend, tokenizer.encode, tokenizer.padding.getD 0⟩

theorem orTokenizer_ok {α : Type} {what : String} {result : Except String α} {a : α} :
    orTokenizer what result = .ok a ↔ result = .ok a := by
  cases result <;> simp [orTokenizer]

theorem fromParts_ok {library : Tokenizers} {backend : InferenceBackend} {json : String}
    {scorer : OnnxNliScorer} (h : fromParts library backend json = .ok scorer) :
    ∃ tokenizer, library.fromStr json = .ok tokenizer ∧
      scorer = ⟨backend, tokenizer.encodings (some maxPairTokens), 0⟩ := by
  obtain ⟨tokenizer, hload, h⟩ := Result.bind_ok.mp h
  obtain ⟨truncating, htruncating, h⟩ := Result.bind_ok.mp h
  obtain ⟨_, -, hset⟩ := Result.bind_ok.mp (orTokenizer_ok.mp htruncating)
  cases hset
  cases h
  exact ⟨tokenizer, orTokenizer_ok.mp hload, rfl⟩

end OnnxNliScorer

end Loading

section Budget

namespace OnnxNliScorer

variable (self : OnnxNliScorer)

def inputs (premise : String) (hypotheses : List String) :
    ModelResult (OrdMap String DenseTensor) := do
  let encodings ← hypotheses.mapM (self.encode premise)
  self.tensors encodings

def HoldsRows (inputs : OrdMap String DenseTensor) (encodings : List Encoding) (padId : Nat) :
    Prop :=
  ∃ ids mask width, inputs.get? inputIdsName = some ids ∧
    inputs.get? attentionMaskName = some mask ∧ ∀ r e, encodings[r]? = some e →
      ids.row r = some (Batch.padded width (Encoding.castId padId) (e.ids.map Encoding.castId)) ∧
      mask.row r = some (Batch.padded width 0 (e.attentionMask.map Encoding.castId))

/-- The call fails, or the graph is fed the complete encoding of every pair. -/
def FailsOrFeeds [RustStd] (complete : String × String → Except String Encoding)
    (premise : String) (hypotheses : List String) : Prop :=
  (∃ error, self.entailmentProbabilities premise hypotheses = .error error) ∨
    ∃ inputs encodings, self.inputs premise hypotheses = .ok inputs ∧
      (hypotheses.mapM fun hypothesis => complete (premise, hypothesis)) = .ok encodings ∧
      HoldsRows inputs encodings self.padId

variable {self}

theorem tensors_rows {es : List Encoding} (hne : es ≠ [])
    (hwidth : DenseTensor.Holds es.length (longest Encoding.ids es)) :
    ∃ inputs ids, self.tensors es = .ok inputs ∧ HoldsRows inputs es self.padId ∧
      inputs.get? inputIdsName = some ids ∧ ids.shape = [es.length, longest Encoding.ids es] := by
  obtain ⟨t, ht, hshape, hrow⟩ :=
    Encoding.built (Encoding.castId self.padId) Encoding.length_ids_le hwidth
  obtain ⟨m, hm, -, hmrow⟩ := Encoding.built 0 Encoding.length_mask_le hwidth
  have hids : ((OrdMap.empty.insert inputIdsName t).insert attentionMaskName m).get?
      inputIdsName = some t := by
    rw [OrdMap.get?_insert_of_ne _ _ (by decide), OrdMap.get?_insert_self]
  refine ⟨_, t, ?_, ⟨t, m, longest Encoding.ids es, hids, OrdMap.get?_insert_self _ _ _, ?_⟩, hids,
    hshape⟩
  · rw [tensors, Encoding.width_eq hne, Encoding.inputIds, Encoding.attentionMasks, ht, hm]
    rfl
  · intro r e he
    rw [hrow, hmrow, he]
    exact ⟨rfl, rfl⟩

theorem tensors_refused {es : List Encoding} (hne : es ≠ [])
    (hwidth : ¬ DenseTensor.Holds es.length (longest Encoding.ids es)) :
    ∃ error, self.tensors es = .error error := by
  obtain ⟨error, herror⟩ :=
    DenseTensor.new_refused hwidth (Encoding.inputIds self.padId (longest Encoding.ids es) es)
  rw [tensors, Encoding.width_eq hne, herror]
  exact ⟨_, rfl⟩

theorem HoldsRows.length_le {inputs : OrdMap String DenseTensor} {es : List Encoding} {padId : Nat}
    (h : HoldsRows inputs es padId) {ids : DenseTensor} (hids : inputs.get? inputIdsName = some ids)
    {rows width : Nat} (hshape : ids.shape = [rows, width]) :
    ∀ e ∈ es, e.ids.length ≤ width := by
  intro e he
  obtain ⟨t, m, w, ht, -, hrows⟩ := h
  rw [hids] at ht
  cases ht
  obtain ⟨r, hr⟩ := List.mem_iff_getElem?.mp he
  have hlen := ids.length_rows hshape (hrows r e hr).1
  rw [Batch.padded, List.length_append, List.length_map] at hlen
  omega

/-- An encoding that is complete within the length, and cut to it beyond. -/
def CutTo (maxLength : Nat) (whole cut : Encoding) : Prop :=
  (whole.ids.length ≤ maxLength ∧ cut = whole) ∨
    (maxLength < whole.ids.length ∧ cut.ids.length = maxLength)

theorem eq_of_cutTo {n : Nat} {es cs : List Encoding} (h : List.Forall₂ (CutTo n) es cs)
    (hfit : ∀ e ∈ es, e.ids.length ≤ n) : cs = es := by
  induction h with
  | nil => rfl
  | cons hcut _ ih =>
    rw [List.forall_mem_cons] at hfit
    rw [ih hfit.2]
    rcases hcut with ⟨-, rfl⟩ | ⟨hlong, -⟩
    · rfl
    · omega

theorem cutTo_le {n : Nat} {es cs : List Encoding} (h : List.Forall₂ (CutTo n) es cs) :
    ∀ c ∈ cs, c.ids.length ≤ n := by
  induction h with
  | nil => simp
  | cons hcut _ ih =>
    refine List.forall_mem_cons.mpr ⟨?_, ih⟩
    rcases hcut with ⟨hfit, rfl⟩ | ⟨-, hcut⟩
    · exact hfit
    · exact hcut.le

theorem exists_cut {n : Nat} {es cs : List Encoding} (h : List.Forall₂ (CutTo n) es cs)
    (hlong : ∃ e ∈ es, n < e.ids.length) : ∃ c ∈ cs, c.ids.length = n := by
  induction h with
  | nil => simp at hlong
  | cons hcut _ ih =>
    rw [List.exists_mem_cons_iff] at hlong ⊢
    rcases hlong with hlong | hlong
    · rcases hcut with ⟨hfit, -⟩ | ⟨-, hcut⟩
      · omega
      · exact Or.inl hcut
    · exact Or.inr (ih hlong)

theorem longest_of_cutTo {n : Nat} {es cs : List Encoding} (h : List.Forall₂ (CutTo n) es cs)
    (hlong : ∃ e ∈ es, n < e.ids.length) : longest Encoding.ids cs = n := by
  obtain ⟨c, hc, hexact⟩ := exists_cut h hlong
  obtain ⟨d, hd, hlongest⟩ := Batch.longest_mem Encoding.ids (List.ne_nil_of_mem hc)
  have hle := cutTo_le h d hd
  have hge := Batch.le_longest Encoding.ids hc
  omega

theorem encodes {tokenizer : Tokenizer} {n : Nat} (hcuts : tokenizer.Cuts n)
    (hself : self.tokenizer = tokenizer.encodings (some n)) (premise : String)
    {hypotheses : List String}
    (hall : ∀ hypothesis ∈ hypotheses, ∃ e, tokenizer.complete (premise, hypothesis) = .ok e) :
    ∃ es cs, (hypotheses.mapM fun hypothesis => tokenizer.complete (premise, hypothesis)) = .ok es ∧
      hypotheses.mapM (self.encode premise) = .ok cs ∧ List.Forall₂ (CutTo n) es cs := by
  induction hypotheses with
  | nil => exact ⟨[], [], rfl, rfl, .nil⟩
  | cons hypothesis hypotheses ih =>
    rw [List.forall_mem_cons] at hall
    obtain ⟨⟨e, he⟩, hrest⟩ := hall
    obtain ⟨es, cs, hes, hcs, hcut⟩ := ih hrest
    have hone : ∃ c, self.encode premise hypothesis = .ok c ∧ CutTo n e c := by
      rw [encode, hself]
      rcases Nat.lt_or_ge n e.ids.length with hlong | hfit
      · obtain ⟨c, hc, hlen⟩ := hcuts.cuts _ e he hlong
        exact ⟨c, by rw [hc], Or.inr ⟨hlong, hlen⟩⟩
      · exact ⟨e, by rw [hcuts.fits _ e he hfit], Or.inl ⟨hfit, rfl⟩⟩
    obtain ⟨c, hc, hcutTo⟩ := hone
    refine ⟨e :: es, c :: cs, ?_, ?_, .cons hcutTo hcut⟩
    · rw [List.mapM_cons, he, hes]
      rfl
    · rw [List.mapM_cons, hc, hcs]
      rfl

theorem encoded_ne_nil {ε : Type} {encode : String → Except ε Encoding} {hypotheses : List String}
    {es : List Encoding} (h : hypotheses.mapM encode = .ok es) (hne : hypotheses ≠ []) :
    es ≠ [] := by
  rw [← List.length_pos_iff, Result.mapM_length h]
  exact List.length_pos_iff.mpr hne

section Calls

variable [RustStd] {premise : String} {hypotheses : List String}

theorem fails_of_inputs {error : ModelError}
    (h : self.inputs premise hypotheses = .error error) (hne : hypotheses ≠ []) :
    ∃ error, self.entailmentProbabilities premise hypotheses = .error error := by
  rw [entailmentProbabilities, if_neg hne]
  rw [inputs] at h
  rcases Result.bind_error.mp h with hencode | ⟨encodings, hencodings, htensors⟩
  · exact ⟨error, Result.bind_error.mpr (Or.inl hencode)⟩
  · refine ⟨error, Result.bind_error.mpr (Or.inr ⟨encodings, hencodings, ?_⟩)⟩
    exact Result.bind_error.mpr (Or.inl htensors)

theorem probabilities_eq {cs : List Encoding} (hne : hypotheses ≠ [])
    (hcs : hypotheses.mapM (self.encode premise) = .ok cs) :
    self.entailmentProbabilities premise hypotheses = self.scoreEncodings cs := by
  rw [entailmentProbabilities, if_neg hne, hcs]
  rfl

theorem scores_of_holds {cs : List Encoding} (hne : hypotheses ≠ [])
    (hcs : hypotheses.mapM (self.encode premise) = .ok cs)
    (hwidth : DenseTensor.Holds cs.length (longest Encoding.ids cs)) :
    ∃ masses, { self with backend := countBackend logitsOutput 1 }.entailmentProbabilities premise
      hypotheses = .ok masses := by
  have hcsne : cs ≠ [] := List.ne_nil_of_length_pos hwidth.1
  have hone : DenseTensor.Holds cs.length 1 := by
    obtain ⟨hrows, hpos, hle⟩ := hwidth
    exact ⟨hrows, one_pos, (Nat.mul_le_mul_left _ hpos).trans hle⟩
  have hscore := @scoreEncodings_eq _ { self with backend := countBackend logitsOutput 1 } 1 _
    (countBackend_local logitsOutput 1) cs hcsne
  rw [if_pos ⟨hwidth, hone⟩] at hscore
  obtain ⟨masses, hmasses⟩ : ∃ masses,
      { self with backend := countBackend logitsOutput 1 }.scoreEncodings cs = .ok masses := by
    refine Result.ok_of_isSome ?_
    rw [hscore, Option.isSome_iff_ne_none]
    intro hnone
    obtain ⟨e, -, he⟩ := Batch.mapM_eq_none.mp hnone
    cases he
  refine ⟨masses, Eq.trans ?_ hmasses⟩
  exact @probabilities_eq { self with backend := countBackend logitsOutput 1 } _ _ _ _ hne hcs

/-- Every pair that can be encoded is within the budget. -/
def WithinBudget (complete : String × String → Except String Encoding) (premise : String)
    (hypotheses : List String) : Prop :=
  ∀ hypothesis ∈ hypotheses, ∀ e, complete (premise, hypothesis) = .ok e →
    e.ids.length ≤ maxPairTokens

variable {tokenizer : Tokenizer}

theorem fails_unencodable (hcuts : tokenizer.Cuts maxPairTokens)
    (hself : self.tokenizer = tokenizer.encodings (some maxPairTokens)) {hypothesis : String}
    (hmem : hypothesis ∈ hypotheses) {error : String}
    (h : tokenizer.complete (premise, hypothesis) = .error error) :
    ∃ error, self.entailmentProbabilities premise hypotheses = .error error := by
  obtain ⟨cutError, hcut⟩ := hcuts.fails _ error h
  cases hinputs : self.inputs premise hypotheses with
  | error e => exact fails_of_inputs hinputs (List.ne_nil_of_mem hmem)
  | ok inputs =>
    obtain ⟨cs, hcs, -⟩ := Result.bind_ok.mp hinputs
    obtain ⟨c, -, hone⟩ := Result.mapM_ok_mem hcs hmem
    rw [encode, hself, hcut] at hone
    cases hone

/-- Pairs within the budget are fed as they are, or not at all. -/
theorem feeds_within (hcuts : tokenizer.Cuts maxPairTokens)
    (hself : self.tokenizer = tokenizer.encodings (some maxPairTokens)) (hne : hypotheses ≠ [])
    (hall : ∀ hypothesis ∈ hypotheses, ∃ e, tokenizer.complete (premise, hypothesis) = .ok e)
    (hfit : WithinBudget tokenizer.complete premise hypotheses) :
    self.FailsOrFeeds tokenizer.complete premise hypotheses := by
  obtain ⟨es, cs, hes, hcs, hcut⟩ := encodes hcuts hself premise hall
  have hsame : cs = es := by
    refine eq_of_cutTo hcut fun e he => ?_
    obtain ⟨hypothesis, hmem, hone⟩ := Result.mem_of_mapM_ok hes he
    exact hfit hypothesis hmem e hone
  subst hsame
  have hcsne := encoded_ne_nil hes hne
  by_cases hwidth : DenseTensor.Holds cs.length (longest Encoding.ids cs)
  · obtain ⟨inputs, -, htensors, hrows, -⟩ := @tensors_rows self cs hcsne hwidth
    exact Or.inr ⟨inputs, cs, Result.bind_ok.mpr ⟨cs, hcs, htensors⟩, hes, hrows⟩
  · obtain ⟨error, herror⟩ := @tensors_refused self cs hcsne hwidth
    exact Or.inl (fails_of_inputs (Result.bind_error.mpr (Or.inr ⟨cs, hcs, herror⟩)) hne)

/-- A graph that answers every row is fed, and scores, what is shorter than an encoding. -/
theorem not_feeds_cut {complete : String × String → Except String Encoding}
    {es cs : List Encoding} (hne : hypotheses ≠ [])
    (hes : (hypotheses.mapM fun hypothesis => complete (premise, hypothesis)) = .ok es)
    (hcs : hypotheses.mapM (self.encode premise) = .ok cs)
    (hbeyond : ∃ e ∈ es, longest Encoding.ids cs < e.ids.length)
    (hwidth : DenseTensor.Holds cs.length (longest Encoding.ids cs)) :
    ¬ { self with backend := countBackend logitsOutput 1 }.FailsOrFeeds complete premise
      hypotheses := by
  obtain ⟨masses, hmasses⟩ := scores_of_holds hne hcs hwidth
  have hcsne : cs ≠ [] := List.ne_nil_of_length_pos hwidth.1
  rintro (⟨error, herror⟩ | ⟨inputs, es', hinputs, hes', hrows⟩)
  · rw [hmasses] at herror
    cases herror
  · obtain ⟨fed, ids, htensors, -, hids, hshape⟩ := @tensors_rows self cs hcsne hwidth
    have hfed : { self with backend := countBackend logitsOutput 1 }.inputs premise hypotheses =
        .ok fed := Result.bind_ok.mpr ⟨cs, hcs, htensors⟩
    rw [hfed] at hinputs
    cases hinputs
    rw [hes] at hes'
    cases hes'
    obtain ⟨e, he, hlen⟩ := hbeyond
    have hroom := hrows.length_le hids hshape e he
    omega

/-- A longer pair is cut: the call fails when its batch is too large, and otherwise there is a
graph that is fed the cut encoding and scores it. -/
theorem feeds_beyond (hcuts : tokenizer.Cuts maxPairTokens)
    (hself : self.tokenizer = tokenizer.encodings (some maxPairTokens)) (hne : hypotheses ≠ [])
    (hall : ∀ hypothesis ∈ hypotheses, ∃ e, tokenizer.complete (premise, hypothesis) = .ok e)
    (hlong : ¬ WithinBudget tokenizer.complete premise hypotheses) :
    (∀ backend, { self with backend }.FailsOrFeeds tokenizer.complete premise hypotheses) ↔
      maxTensorElements < hypotheses.length * maxPairTokens := by
  obtain ⟨es, cs, hes, hcs, hcut⟩ := encodes hcuts hself premise hall
  have hbeyond : ∃ e ∈ es, maxPairTokens < e.ids.length := by
    simp only [WithinBudget, not_forall, not_le] at hlong
    obtain ⟨hypothesis, hmem, e, he, hlen⟩ := hlong
    obtain ⟨e', he', hone⟩ := Result.mapM_ok_mem hes hmem
    rw [he] at hone
    cases hone
    exact ⟨e, he', hlen⟩
  have hlongest := longest_of_cutTo hcut hbeyond
  have hcount : cs.length = hypotheses.length := Result.mapM_length hcs
  have hcsne := encoded_ne_nil hcs hne
  have hholds : DenseTensor.Holds cs.length (longest Encoding.ids cs) ↔
      hypotheses.length * maxPairTokens ≤ maxTensorElements := by
    have hpos : 0 < maxPairTokens := by decide
    have hrows := List.length_pos_iff.mpr hcsne
    rw [DenseTensor.Holds, hlongest, hcount]
    rw [hcount] at hrows
    exact ⟨fun h => h.2.2, fun h => ⟨hrows, hpos, h⟩⟩
  rw [← not_le, ← hholds]
  constructor
  · intro hfeeds hwidth
    exact not_feeds_cut hne hes hcs (by rwa [hlongest]) hwidth (hfeeds _)
  · intro hwidth backend
    obtain ⟨error, herror⟩ := @tensors_refused self cs hcsne hwidth
    exact Or.inl (fails_of_inputs (Result.bind_error.mpr (Or.inr ⟨cs, hcs, herror⟩)) hne)

/-- On every graph, a scorer that was built fails or feeds the graph each pair completely, exactly
when it has no pair beyond the budget, or does not come to run the graph. -/
theorem failsOrFeeds_iff {library : Tokenizers} {backend : InferenceBackend} {json : String}
    {scorer : OnnxNliScorer} (hscorer : fromParts library backend json = .ok scorer)
    (hload : library.fromStr json = .ok tokenizer) (hcuts : tokenizer.Cuts maxPairTokens)
    (premise : String) (hypotheses : List String) :
    (∀ backend, { scorer with backend }.FailsOrFeeds tokenizer.complete premise hypotheses) ↔
      hypotheses = [] ∨
      (∃ hypothesis ∈ hypotheses, ∃ error,
        tokenizer.complete (premise, hypothesis) = .error error) ∨
      maxTensorElements < hypotheses.length * maxPairTokens ∨
      WithinBudget tokenizer.complete premise hypotheses := by
  obtain ⟨loaded, hloaded, rfl⟩ := fromParts_ok hscorer
  rw [hload] at hloaded
  cases hloaded
  by_cases hne : hypotheses = []
  · refine iff_of_true (fun backend => Or.inl ?_) (Or.inl hne)
    rw [entailmentProbabilities, if_pos hne]
    exact ⟨_, rfl⟩
  by_cases hall : ∀ hypothesis ∈ hypotheses, ∃ e, tokenizer.complete (premise, hypothesis) = .ok e
  · have hnone : ¬ ∃ hypothesis ∈ hypotheses, ∃ error,
        tokenizer.complete (premise, hypothesis) = .error error := by
      rintro ⟨hypothesis, hmem, error, herror⟩
      obtain ⟨e, he⟩ := hall hypothesis hmem
      rw [herror] at he
      cases he
    simp only [hne, hnone, false_or]
    by_cases hfit : WithinBudget tokenizer.complete premise hypotheses
    · exact iff_of_true (fun backend => feeds_within hcuts rfl hne hall hfit) (Or.inr hfit)
    · rw [or_iff_left hfit]
      exact @feeds_beyond ⟨backend, tokenizer.encodings (some maxPairTokens), 0⟩ _ _ _ _ hcuts rfl
        hne hall hfit
  · simp only [not_forall] at hall
    obtain ⟨hypothesis, hmem, hno⟩ := hall
    cases hcomplete : tokenizer.complete (premise, hypothesis) with
    | ok e => exact absurd ⟨e, hcomplete⟩ hno
    | error error =>
      refine iff_of_true (fun backend => ?_) (Or.inr (Or.inl ⟨hypothesis, hmem, error, hcomplete⟩))
      exact Or.inl (fails_unencodable hcuts rfl hmem hcomplete)

end Calls

end OnnxNliScorer

end Budget

section Samples

attribute [local instance] plainStd

/-- The lengths that are kept of two parts: the shorter part gives way only when both are long. -/
def keptLengths (maxLength first second : Nat) : Nat × Nat :=
  if first + second ≤ maxLength then (first, second)
  else
    let shorter := min first second
    let longer := if maxLength < shorter then shorter else max shorter (maxLength - shorter)
    let kept := if maxLength < shorter + longer then (maxLength / 2, maxLength / 2 + maxLength % 2)
      else (shorter, longer)
    if second < first then (kept.2, kept.1) else kept

theorem keptLengths_sum {maxLength first second : Nat} (h : maxLength < first + second) :
    (keptLengths maxLength first second).1 ≤ first ∧
      (keptLengths maxLength first second).2 ≤ second ∧
      (keptLengths maxLength first second).1 + (keptLengths maxLength first second).2 =
        maxLength := by
  rw [keptLengths, if_neg (by omega)]
  simp only []
  split_ifs <;> simp only [] <;> omega

def charEncoding (chars : List Char) : Encoding :=
  ⟨chars.map Char.toNat, List.replicate (chars.map Char.toNat).length 1, List.length_replicate⟩

def charPairs : Tokenizer where
  encodings := fun truncation pair =>
    match truncation with
    | none => .ok (charEncoding (pair.1.toList ++ pair.2.toList))
    | some maxLength =>
      let lengths := keptLengths maxLength pair.1.toList.length pair.2.toList.length
      .ok (charEncoding (pair.1.toList.take lengths.1 ++ pair.2.toList.take lengths.2))
  truncation := none
  padding := none

theorem length_charEncoding (chars : List Char) : (charEncoding chars).ids.length = chars.length :=
  List.length_map _

theorem charPairs_cuts (maxLength : Nat) : charPairs.Cuts maxLength where
  fits := by
    rintro ⟨first, second⟩ e he hfit
    cases he
    rw [length_charEncoding, List.length_append] at hfit
    simp [charPairs, keptLengths, hfit]
  cuts := by
    rintro ⟨first, second⟩ e he hlong
    cases he
    rw [length_charEncoding, List.length_append] at hlong
    obtain ⟨hfirst, hsecond, hsum⟩ := keptLengths_sum hlong
    refine ⟨_, rfl, ?_⟩
    rw [length_charEncoding, List.length_append, List.length_take, List.length_take]
    omega
  fails := by
    intro pair error h
    cases h

def charLibrary : Tokenizers := ⟨fun _ => .ok charPairs, fun _ _ => .ok ()⟩

def charScorer : OnnxNliScorer :=
  ⟨countBackend logitsOutput 1, charPairs.encodings (some maxPairTokens), 0⟩

namespace OnnxNliScorer

theorem failsOrFeeds_iff_short :
    fromParts charLibrary (countBackend logitsOutput 1) "" = .ok charScorer ∧
      charLibrary.fromStr "" = .ok charPairs ∧ charPairs.Cuts maxPairTokens ∧
      ∀ backend, { charScorer with backend }.FailsOrFeeds charPairs.complete "It builds."
        ["It works."] := by
  refine ⟨rfl, rfl, charPairs_cuts maxPairTokens, ?_⟩
  refine (@failsOrFeeds_iff _ _ charLibrary (countBackend logitsOutput 1) "" charScorer rfl rfl
    (charPairs_cuts maxPairTokens) _ _).mpr (Or.inr (Or.inr (Or.inr ?_)))
  intro hypothesis hmem e he
  cases List.mem_singleton.mp hmem
  cases he
  rw [length_charEncoding]
  decide

/-- A premise with its only difference at the end. -/
def longPremise (before : Nat) (last : Char) : String :=
  String.ofList (List.replicate before 'a' ++ [last])

/-- What is left of a long premise, and the hypothesis. -/
def cutPair : Encoding := charEncoding (List.replicate 511 'a' ++ "x".toList)

theorem length_longPremise (before : Nat) (last : Char) :
    (longPremise before last).toList.length = before + 1 := by
  rw [longPremise, String.toList_ofList, List.length_append, List.length_replicate]
  rfl

theorem take_longPremise {n before : Nat} (h : n ≤ before) (last : Char) :
    (longPremise before last).toList.take n = List.replicate n 'a' := by
  rw [longPremise, String.toList_ofList,
    List.take_append_of_le_length (by rwa [List.length_replicate]), List.take_replicate,
    Nat.min_eq_left h]

theorem longPremise_ne {before : Nat} {one other : Char} (h : one ≠ other) :
    longPremise before one ≠ longPremise before other := by
  intro hsame
  have hlists := String.ofList_injective hsame
  rw [List.append_cancel_left_eq] at hlists
  exact h (List.singleton_inj.mp hlists)

theorem keptLengths_one {n first : Nat} (h : n ≤ first) (hn : 1 < n) :
    keptLengths n first 1 = (n - 1, 1) := by
  have hshorter : min first 1 = 1 := by omega
  have hlonger : max 1 (n - 1) = n - 1 := by omega
  rw [keptLengths, if_neg (by omega)]
  simp only [hshorter, hlonger, if_neg (show ¬ n < 1 by omega),
    if_neg (show ¬ n < 1 + (n - 1) by omega), if_pos (show 1 < first by omega)]

theorem length_cutPair : cutPair.ids.length = 512 := by
  rw [cutPair, length_charEncoding, List.length_append, List.length_replicate]
  decide

section Long

variable {before : Nat}

theorem encode_longPremise (h : 511 ≤ before) (last : Char) :
    charScorer.encode (longPremise before last) "x" = .ok cutPair := by
  have hkept := @keptLengths_one maxPairTokens (before + 1) (Nat.succ_le_succ h) (by decide)
  have hone : "x".toList.length = 1 := by decide
  simp only [encode, charScorer, charPairs, length_longPremise, hone, hkept]
  rw [show maxPairTokens - 1 = 511 from rfl, take_longPremise h]
  rfl

theorem complete_longPremise (before : Nat) (last : Char) : ∃ e,
    charPairs.complete (longPremise before last, "x") = .ok e ∧ e.ids.length = before + 2 := by
  refine ⟨_, rfl, ?_⟩
  rw [length_charEncoding, List.length_append, length_longPremise]
  have hone : "x".toList.length = 1 := by decide
  rw [hone]

theorem encodes_longPremise (h : 511 ≤ before) (last : Char) :
    ["x"].mapM (charScorer.encode (longPremise before last)) = .ok [cutPair] :=
  Result.mapM_ok.mpr (.cons (encode_longPremise h last) .nil)

theorem longest_cutPair : longest Encoding.ids [cutPair] = 512 := by
  rw [longest, List.map_singleton, length_cutPair]
  rfl

theorem holds_cutPair : DenseTensor.Holds [cutPair].length (longest Encoding.ids [cutPair]) := by
  rw [longest_cutPair]
  decide

theorem scored_longPremise (h : 511 ≤ before) : ∃ masses, ∀ last,
    charScorer.entailmentProbabilities (longPremise before last) ["x"] = .ok masses := by
  have hne : ["x"] ≠ ([] : List String) := List.cons_ne_nil "x" []
  have hscored : ∀ last, charScorer.entailmentProbabilities (longPremise before last) ["x"] =
      charScorer.scoreEncodings [cutPair] :=
    fun last => probabilities_eq hne (encodes_longPremise h last)
  obtain ⟨masses, hmasses⟩ :=
    @scores_of_holds charScorer _ _ _ _ hne (encodes_longPremise h 'a') holds_cutPair
  refine ⟨masses, fun last => ?_⟩
  rw [hscored, ← hscored 'a']
  exact hmasses

theorem not_feeds_longPremise (h : 511 ≤ before) (last : Char) :
    ¬ charScorer.FailsOrFeeds charPairs.complete (longPremise before last) ["x"] := by
  obtain ⟨e, he, hlong⟩ := complete_longPremise before last
  have hes : (["x"].mapM fun hypothesis =>
      charPairs.complete (longPremise before last, hypothesis)) = .ok [e] :=
    Result.mapM_ok.mpr (.cons he .nil)
  refine @not_feeds_cut charScorer _ _ _ _ _ _ (List.cons_ne_nil "x" []) hes
    (encodes_longPremise h last) ⟨e, List.mem_singleton_self e, ?_⟩ holds_cutPair
  rw [longest_cutPair, hlong]
  omega

end Long

/-- Two premises that differ in what is cut off get the same masses, and no error. -/
theorem silently_cut :
    fromParts charLibrary (countBackend logitsOutput 1) "" = .ok charScorer ∧
      charPairs.Cuts maxPairTokens ∧ longPremise 600 'b' ≠ longPremise 600 'c' ∧
      (∃ masses, charScorer.entailmentProbabilities (longPremise 600 'b') ["x"] = .ok masses ∧
        charScorer.entailmentProbabilities (longPremise 600 'c') ["x"] = .ok masses) ∧
      ¬ charScorer.FailsOrFeeds charPairs.complete (longPremise 600 'b') ["x"] := by
  have hlong : 511 ≤ 600 := by decide
  obtain ⟨masses, hmasses⟩ := scored_longPremise hlong
  refine ⟨rfl, charPairs_cuts maxPairTokens, longPremise_ne (by decide), ⟨masses, ?_, ?_⟩, ?_⟩
  · exact hmasses 'b'
  · exact hmasses 'c'
  · exact not_feeds_longPremise hlong 'b'

end OnnxNliScorer

end Samples

end OpenCodifier
