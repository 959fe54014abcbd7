import OpenCodifier.Lib.Prorata
import OpenCodifier.Engine.Levels
import OpenCodifier.Model.Embedding
import OpenCodifier.Model.LlamaCpp
import OpenCodifier.Model.Nli
set_option autoImplicit false

namespace OpenCodifier

open Result (Ends)

/-- One entry for every answer of the question, in declared order, and a total mass of one within
the tolerance of a distribution. -/
def Whole (question : DecisionQuestion) (d : Distribution) : Prop :=
  d.entries.map DistributionEntry.key = answerKeys question ∧
    |(d.entries.map DistributionEntry.probability).sum - 1| ≤ sumTolerance

def Failed (modelId : String) (error : EngineError) : Prop :=
  ∃ reason, error = .classifierFailed modelId reason

section Distributions

variable {keys : List String} {masses : List ℚ}

theorem fromPairs_whole {question : DecisionQuestion} {d : Distribution}
    (h : Distribution.fromPairs ((answerKeys question).zip masses) = .ok d)
    (hlen : (answerKeys question).length ≤ masses.length) : Whole question d := by
  refine ⟨?_, d.normalized⟩
  rw [Distribution.fromPairs_keys h, List.map_fst_zip hlen]

theorem fromPairs_ok {pairs : List (String × ℚ)} (hkeys : (pairs.map Prod.fst).Nodup)
    (hpos : ∀ p ∈ pairs.map Prod.snd, 0 ≤ p) (hsum : (pairs.map Prod.snd).sum = 1) :
    ∃ d, Distribution.fromPairs pairs = .ok d := by
  have hprobabilities : (pairs.map fun e => (⟨e.1, e.2⟩ : DistributionEntry)).map
      DistributionEntry.probability = pairs.map Prod.snd := by
    rw [List.map_map]
    rfl
  let d : Distribution :=
    { entries := pairs.map fun e => ⟨e.1, e.2⟩
      entries_ne := by
        intro hnil
        rw [List.map_eq_nil_iff.mp hnil] at hsum
        simp at hsum
      unique := by simpa [Function.comp_def] using hkeys
      unit := by
        intro entry hentry
        obtain ⟨e, he, rfl⟩ := List.mem_map.mp hentry
        have hmem := List.mem_map_of_mem (f := Prod.snd) he
        exact ⟨hpos e.2 hmem, hsum ▸ List.single_le_sum hpos e.2 hmem⟩
      normalized := by
        rw [hprobabilities, hsum]
        simp [sumTolerance] }
  exact ⟨d, Distribution.new_self d⟩

theorem softmax_shares [RustStd] (hexp : ∀ x, 0 ≤ RustStd.exp x) {scores : List ℚ}
    (hne : scores ≠ []) :
    (∀ p ∈ Lexical.softmax scores, 0 ≤ p) ∧ (Lexical.softmax scores).sum = 1 := by
  obtain ⟨first, rest, rfl⟩ := List.exists_cons_of_ne_nil hne
  unfold Lexical.softmax
  dsimp only
  split
  · have hlen : ((first :: rest).length : ℚ) ≠ 0 :=
      Nat.cast_ne_zero.mpr (Nat.succ_ne_zero rest.length)
    rw [List.map_const', List.sum_replicate, nsmul_eq_mul, mul_one_div_cancel hlen]
    refine ⟨fun p hp => ?_, rfl⟩
    rw [List.eq_of_mem_replicate hp]
    positivity
  · rename_i hsum
    constructor
    · intro p hp
      obtain ⟨e, he, rfl⟩ := List.mem_map.mp hp
      obtain ⟨score, -, rfl⟩ := List.mem_map.mp he
      exact div_nonneg (hexp _) (lt_of_not_ge hsum).le
    · rw [List.map_map]
      exact Prorata.sum_div (lt_of_not_ge hsum).ne'

end Distributions

section Embeddings

variable [RustStd]

namespace EmbeddingClassifier

variable (self : EmbeddingClassifier) (state : State)

def asked : DecisionQuestion → List String
  | .choice question =>
    (state.text ++ " \n " ++ question.text) :: question.candidates.map candidateText
  | .boolean question => [state.text, question.text]
  | .score question => state.text :: question.levels.map ScoreLevel.label

/-- The reply has vectors for some of the answers, but not for all. -/
def ShortReply (question : DecisionQuestion) : Prop :=
  ∃ vectors, self.backend.embed (asked state question) = .ok vectors ∧ 2 ≤ vectors.length ∧
    vectors.length < (asked state question).length

theorem ends_distributionOver (question : DecisionQuestion) {scores : List ℚ}
    (h : (answerKeys question).length ≤ scores.length) :
    Ends (Failed self.backend.modelId) (Whole question)
      (self.distributionOver (answerKeys question) scores) := by
  rw [distributionOver]
  split
  · rename_i d hd
    exact fromPairs_whole hd (by rwa [Lexical.softmax_length])
  · exact ⟨_, rfl⟩

theorem ends_noScores {question : DecisionQuestion} : Ends (Failed self.backend.modelId)
    (Whole question) (self.distributionOver (answerKeys question) []) := by
  rw [distributionOver, Lexical.softmax, List.zip_nil_right]
  exact ⟨_, rfl⟩

theorem distributionOver_short (hexp : ∀ x, 0 ≤ RustStd.exp x) {keys : List String}
    (hkeys : keys.Nodup) {scores : List ℚ} (hne : scores ≠ []) (h : scores.length < keys.length) :
    ∃ d, self.distributionOver keys scores = .ok d ∧
      d.entries.map DistributionEntry.key ≠ keys := by
  have hlen : (Lexical.softmax scores).length < keys.length := by rwa [Lexical.softmax_length]
  have hsnd : (keys.zip (Lexical.softmax scores)).map Prod.snd = Lexical.softmax scores :=
    List.map_snd_zip hlen.le
  have hfst : (keys.zip (Lexical.softmax scores)).map Prod.fst =
      keys.take (min keys.length (Lexical.softmax scores).length) := by
    rw [List.zip_eq_zip_take_min]
    exact List.map_fst_zip (by rw [List.length_take, List.length_take]; omega)
  obtain ⟨hpos, hsum⟩ := softmax_shares hexp hne
  obtain ⟨d, hd⟩ := fromPairs_ok (by rw [hfst]; exact (List.take_sublist _ _).nodup hkeys)
    (by rwa [hsnd]) (by rwa [hsnd])
  refine ⟨d, by rw [distributionOver, hd], fun he => ?_⟩
  have hcount := congrArg List.length (Distribution.fromPairs_keys hd)
  rw [he, List.length_map, List.length_zip] at hcount
  omega

/-- What is decided against a query is whole, unless the reply is short. -/
theorem decideAgainst_ends_iff (hexp : ∀ x, 0 ≤ RustStd.exp x) (question : DecisionQuestion)
    (hkeys : (answerKeys question).Nodup) (query : String) {texts : List String}
    (hlen : texts.length = (answerKeys question).length) :
    Ends (Failed self.backend.modelId) (Whole question)
        (self.decideAgainst query texts (answerKeys question)) ↔
      ¬ ∃ vectors, self.backend.embed (query :: texts) = .ok vectors ∧ 2 ≤ vectors.length ∧
        vectors.length < (query :: texts).length := by
  rw [decideAgainst, embedAll]
  cases self.backend.embed (query :: texts) with
  | error e => exact iff_of_true ⟨_, rfl⟩ (by rintro ⟨_, ⟨⟩, _⟩)
  | ok vectors =>
    simp only [Except.ok.injEq, exists_eq_left', List.length_cons, hlen]
    cases vectors with
    | nil => exact iff_of_true ⟨_, rfl⟩ (by simp)
    | cons first rest =>
      simp only [bind, Except.bind, List.length_cons]
      by_cases hshort : 2 ≤ rest.length + 1 ∧ rest.length + 1 < (answerKeys question).length + 1
      · refine iff_of_false ?_ (not_not.mpr hshort)
        have hne : rest ≠ [] := by
          rintro rfl
          simp at hshort
        have hscores : ∀ f : List ℚ → ℚ, ¬ Ends (Failed self.backend.modelId) (Whole question)
            (self.distributionOver (answerKeys question) (rest.map f)) := by
          intro f hends
          obtain ⟨d, hd, hnot⟩ := self.distributionOver_short hexp hkeys
            (mt List.map_eq_nil_iff.mp hne) (by rw [@List.length_map _ _ rest f]; omega)
          rw [hd] at hends
          exact hnot hends.1
        exact hscores _
      · refine iff_of_true ?_ hshort
        cases rest with
        | nil => exact self.ends_noScores
        | cons second rest =>
          refine self.ends_distributionOver question ?_
          simp only [List.length_cons, List.length_map] at hshort ⊢
          omega

theorem ends_decide_iff (hexp : ∀ x, 0 ≤ RustStd.exp x) (question : DecisionQuestion) :
    Ends (Failed self.backend.modelId) (Whole question) (self.decide state question) ↔
      ¬ self.ShortReply state question := by
  cases question with
  | choice question =>
    exact self.decideAgainst_ends_iff hexp (.choice question) question.unique_texts _
      (by simp [answerKeys])
  | score question =>
    exact self.decideAgainst_ends_iff hexp (.score question) question.unique _
      (by simp [answerKeys])
  | boolean question =>
    have hnever : ¬ self.ShortReply state (.boolean question) := by
      rintro ⟨vectors, -, htwo, hless⟩
      simp only [asked, List.length_cons, List.length_nil] at hless
      omega
    refine iff_of_true ?_ hnever
    rw [decide, decideBoolean, embedAll]
    cases self.backend.embed [state.text, question.text] with
    | error e => exact ⟨_, rfl⟩
    | ok vectors =>
      simp only [bind, Except.bind]
      split
      · exact self.ends_distributionOver (.boolean question) le_rfl
      · exact ⟨_, rfl⟩

end EmbeddingClassifier

end Embeddings

section Images

variable [RustStd]

namespace VisionClassifier

variable (self : VisionClassifier) (state : State)

omit [RustStd] in
theorem ends_embedded (vectors : Except String (List (List ℚ))) :
    Ends (Failed self.modelId) (fun _ => True) (self.embedded vectors) := by
  cases vectors with
  | error e => exact ⟨_, rfl⟩
  | ok vectors => exact trivial

theorem ends_imageEmbedding :
    Ends (Failed self.modelId) (fun _ => True) (self.imageEmbedding state) := by
  rw [imageEmbedding]
  split
  · exact ⟨_, rfl⟩
  · refine (self.ends_embedded _).bind fun vectors _ => ?_
    split
    · exact ⟨_, rfl⟩
    · split
      · exact trivial
      · exact ⟨_, rfl⟩

theorem ends_scorePrompts (image : List ℚ) (prompts : List String) :
    Ends (Failed self.modelId) (fun scores => prompts.length ≤ scores.length)
      (self.scorePrompts image prompts) := by
  refine (self.ends_embedded _).bind fun vectors _ => ?_
  split
  · exact ⟨_, rfl⟩
  · rename_i h
    rw [Ends, zeroShotScores, List.length_map]
    omega

theorem ends_distributionOver (question : DecisionQuestion) {scores : List ℚ}
    (h : (answerKeys question).length ≤ scores.length) :
    Ends (Failed self.modelId) (Whole question)
      (self.distributionOver (answerKeys question) scores) := by
  rw [distributionOver]
  split
  · rename_i d hd
    exact fromPairs_whole hd (by rwa [Lexical.softmax_length])
  · exact ⟨_, rfl⟩

theorem ends_decideAmong (question : DecisionQuestion) (text : String) {subjects : List String}
    (h : subjects.length = (answerKeys question).length) :
    Ends (Failed self.modelId) (Whole question)
      (self.decideAmong state text subjects (answerKeys question)) := by
  refine (self.ends_imageEmbedding state).bind fun image _ => ?_
  refine (self.ends_scorePrompts image _).bind fun scores hscores => ?_
  rw [List.length_map, h] at hscores
  exact self.ends_distributionOver question hscores

theorem ends_decide (question : DecisionQuestion) :
    Ends (Failed self.modelId) (Whole question) (self.decide state question) := by
  cases question with
  | choice question =>
    exact self.ends_decideAmong state (.choice question) question.text (by simp [answerKeys])
  | score question =>
    exact self.ends_decideAmong state (.score question) question.text (by simp [answerKeys])
  | boolean question =>
    refine (self.ends_imageEmbedding state).bind fun image _ => ?_
    refine (self.ends_embedded _).bind fun vectors _ => ?_
    cases vectors with
    | nil => exact ⟨_, rfl⟩
    | cons text rest => exact self.ends_distributionOver (.boolean question) le_rfl

end VisionClassifier

end Images

section Documents

variable [RustStd] [DebugTexts]

namespace LlamaDecisionClassifier

variable (self : LlamaDecisionClassifier) (state : State) (question : DecisionQuestion)

omit [RustStd] [DebugTexts] in
theorem ends_orFailure {α : Type} (reason : String) (x : Option α) :
    Ends (Failed self.config.modelId) (fun a => x = some a) (self.orFailure reason x) := by
  cases x with
  | none => exact ⟨_, rfl⟩
  | some a => exact rfl

omit [RustStd] [DebugTexts] in
theorem ends_exchange :
    Ends (Failed self.config.modelId) (fun _ => True) (self.exchange state question) := by
  rw [exchange]
  split
  · exact trivial
  · exact ⟨_, rfl⟩

theorem ends_answerMass (map : List (String × Json)) (answer : String) :
    Ends (Failed self.config.modelId) (fun e => e.1 = answer) (self.answerMass map answer) := by
  refine (self.ends_orFailure _ _).bind fun value _ => ?_
  refine (self.ends_orFailure _ _).bind fun probability _ => ?_
  split
  · exact ⟨_, rfl⟩
  · exact rfl

theorem ends_readMasses (response : Json.Value) : Ends (Failed self.config.modelId)
    (fun pairs => pairs.map Prod.fst = answerKeys question)
    (self.readMasses question response) := by
  refine (self.ends_orFailure _ _).bind fun choice _ => ?_
  refine (self.ends_orFailure _ _).bind fun raw _ => ?_
  refine (self.ends_orFailure _ _).bind fun map _ => ?_
  refine (Ends.mapM fun answer _ => self.ends_answerMass map answer).bind fun pairs hpairs => ?_
  split
  · exact ⟨_, rfl⟩
  · have hkeys : List.Forall₂ Eq (pairs.map Prod.fst) (answerKeys question) :=
      List.forall₂_map_left_iff.mpr hpairs.flip
    rwa [List.forall₂_eq_eq_eq] at hkeys

omit [DebugTexts] in
theorem ends_normalized {pairs : List (String × ℚ)}
    (h : pairs.map Prod.fst = answerKeys question) :
    Ends (Failed self.config.modelId) (Whole question) (self.normalized pairs) := by
  rw [normalized]
  split
  · exact ⟨_, rfl⟩
  · split
    · rename_i d hd
      refine ⟨?_, d.normalized⟩
      rw [Distribution.fromPairs_keys hd, List.map_map]
      exact h
    · exact ⟨_, rfl⟩

theorem ends_decide :
    Ends (Failed self.config.modelId) (Whole question) (self.decide state question) := by
  have hmasses : Ends (Failed self.config.modelId)
      (fun pairs => pairs.map Prod.fst = answerKeys question)
      (self.decideDistribution state question) :=
    (self.ends_exchange state question).bind fun response _ =>
      self.ends_readMasses question response
  exact hmasses.bind fun pairs hpairs => self.ends_normalized question hpairs

end LlamaDecisionClassifier

end Documents

section Entailment

variable [RustStd]

namespace NliVerifier

variable (self : NliVerifier) (state : State) (question : DecisionQuestion)

omit [RustStd] in
theorem ends_failed {α : Type} {P : α → Prop} {result : ModelResult α}
    (h : ∀ a, result = .ok a → P a) : Ends (Failed self.modelId) P (self.failed result) := by
  cases result with
  | error e => exact ⟨_, rfl⟩
  | ok a => exact h a rfl

theorem entailmentDistribution_whole {masses : List ℚ} {d : Distribution}
    (h : Nli.entailmentDistribution (answerKeys question) masses = .ok d) : Whole question d := by
  unfold Nli.entailmentDistribution at h
  dsimp only at h
  split at h
  · cases h
  rename_i hlen
  split at h
  · cases h
  split at h
  · rename_i d' hd
    cases h
    refine ⟨?_, d.normalized⟩
    rw [Distribution.fromPairs_keys hd, List.map_map]
    exact List.map_fst_zip (not_not.mp hlen).le
  · cases h

theorem ends_decide : Ends (Failed self.modelId) (Whole question) (self.decide state question) := by
  have hmasses : Ends (Failed self.modelId) (fun _ => True) (self.answerMasses state question) := by
    refine (self.ends_failed fun _ _ => trivial).bind fun masses _ => ?_
    split
    · exact trivial
    · split
      · exact trivial
      · exact ⟨_, rfl⟩
  exact hmasses.bind fun masses _ =>
    self.ends_failed fun d hd => entailmentDistribution_whole question hd

end NliVerifier

end Entailment

/-- Each adapter fails with a reason or answers with one entry for every declared answer, whatever
its backend replies, unless an embedding backend gives vectors for some of the answers only. -/
theorem replies_whole_iff [RustStd] [DebugTexts] (hexp : ∀ x, 0 ≤ RustStd.exp x)
    (embedding : EmbeddingClassifier) (vision : VisionClassifier)
    (llama : LlamaDecisionClassifier) (nli : NliVerifier) (state : State)
    (question : DecisionQuestion) :
    (Ends (Failed embedding.backend.modelId) (Whole question) (embedding.decide state question) ∧
      Ends (Failed vision.modelId) (Whole question) (vision.decide state question) ∧
      Ends (Failed llama.config.modelId) (Whole question) (llama.decide state question) ∧
      Ends (Failed nli.modelId) (Whole question) (nli.decide state question)) ↔
        ¬ embedding.ShortReply state question := by
  rw [embedding.ends_decide_iff state hexp question]
  exact and_iff_left ⟨vision.ends_decide state question, llama.ends_decide state question,
    nli.ends_decide state question⟩

section Samples

attribute [local instance] plainStd

abbrev plainDebugTexts : DebugTexts := ⟨fun text => "\"" ++ text ++ "\""⟩

attribute [local instance] plainDebugTexts

def eitherWay : DecisionQuestion := Sample.choice "pick" ["a", "b"]

def embeds (count : Nat) : EmbeddingClassifier :=
  .new ⟨"flat", fun texts => .ok ((texts.take count).map fun _ => [1])⟩

def seesAlike : VisionClassifier :=
  ⟨⟨"flat", fun images => .ok (images.map fun _ => [1]), fun texts => .ok (texts.map fun _ => [1])⟩,
    .new, .photoOf⟩

/-- A server whose answer names only one of the candidates. -/
def winnerOnly : LlamaDecisionClassifier where
  transport := ⟨fun _ _ => .ok (.struct [("results", some (.array [.struct [("fields",
    some (.struct [("choice", some (.struct [("distribution",
      some (.struct [("a", some (.float 1))]))]))]))]]))])⟩
  config := .new "winner"

def entailsAlike : NliVerifier :=
  .new ⟨fun _ hypotheses => .ok (hypotheses.map fun _ => 1 / 2)⟩ "nli" .bareDescription

/-- Three vectors for the query and both candidates. -/
theorem replies_whole_iff_flat :
    (∀ x, 0 ≤ RustStd.exp x) ∧
    Ends (Failed "flat") (Whole eitherWay)
      ((embeds 3).decide (State.fromText "ticket") eitherWay) ∧
    Ends (Failed "flat:siglip2-zero-shot:photo-of") (Whole eitherWay)
      (seesAlike.decide (State.fromText "ticket") eitherWay) ∧
    Ends (Failed "winner") (Whole eitherWay)
      (winnerOnly.decide (State.fromText "ticket") eitherWay) ∧
    Ends (Failed "nli:bare") (Whole eitherWay)
      (entailsAlike.decide (State.fromText "ticket") eitherWay) := by
  have hexp : ∀ x, 0 ≤ RustStd.exp x := fun _ => zero_le_one
  have hlong : ¬ (embeds 3).ShortReply (State.fromText "ticket") eitherWay := by
    rintro ⟨vectors, hvectors, -, hless⟩
    cases hvectors
    revert hless
    decide +kernel
  exact ⟨hexp, (replies_whole_iff hexp (embeds 3) seesAlike winnerOnly entailsAlike
    (State.fromText "ticket") eitherWay).mpr hlong⟩

/-- Two vectors for three texts: all mass goes to the first of two candidates. -/
theorem second_candidate_dropped :
    (embeds 2).decide (State.fromText "ticket") eitherWay =
      .ok (Sample.distribution [("a", 1)]) ∧
    answerKeys eitherWay = ["a", "b"] ∧
    ¬ Ends (Failed "flat") (Whole eitherWay)
      ((embeds 2).decide (State.fromText "ticket") eitherWay) := by
  have hdecide : (embeds 2).decide (State.fromText "ticket") eitherWay =
      .ok (Sample.distribution [("a", 1)]) := by decide +kernel
  have hkeys : answerKeys eitherWay = ["a", "b"] := by decide +kernel
  refine ⟨hdecide, hkeys, fun hends => ?_⟩
  rw [hdecide] at hends
  have hwhole := hends.1
  rw [hkeys] at hwhole
  revert hwhole
  decide +kernel

end Samples

end OpenCodifier
