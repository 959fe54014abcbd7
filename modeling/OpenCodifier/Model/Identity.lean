import OpenCodifier.Model.Nesting
set_option autoImplicit false

namespace OpenCodifier

section Probes

variable [RustStd]

/-- Backends of vectors with one slot: a text after the first one has the value of its backend, an
image has the value one, a prompt has the value of its embedder and its text. -/
def probe (texts : String → ℚ) (prompts : String → String → ℚ) : Backends where
  embed := fun id batch => .ok ([1] :: batch.tail.map fun _ => [texts id])
  embedImages := fun _ images => .ok (images.map fun _ => [1])
  embedTexts := fun id batch => .ok (batch.map fun text => [prompts id text])

def probeState : State := (State.fromText "a room").withImage ⟨.png, []⟩

def probeBoolean : BooleanQuestion := ⟨Sample.ident "open", "Is the door open?", by decide⟩

def probeScore : ScoreQuestion :=
  ⟨⟨"light", by decide⟩, "How bright is it?", [⟨"low", by decide⟩, ⟨"high", by decide⟩], by decide,
    by decide, by decide⟩

def firstMass (result : EngineResult Distribution) : Option ℚ :=
  result.toOption.bind fun d => d.entries.head?.map DistributionEntry.probability

theorem negationPolarity_ne_zero (text : String) : Lexical.negationPolarity text ≠ 0 := by
  unfold Lexical.negationPolarity
  split <;> norm_num

section Laws

variable (laws : ArithmeticLaws)
include laws

theorem norm_one : EmbeddingClassifier.norm [1] = 1 := by
  simp [EmbeddingClassifier.norm, laws.sqrt_one]

theorem cosine_one {value : ℚ} (h : value = 0 ∨ value = 1) :
    EmbeddingClassifier.cosine [1] [value] = value := by
  rcases h with rfl | rfl
  · simp [EmbeddingClassifier.cosine, EmbeddingClassifier.cosineWithNorm]
  · simp [EmbeddingClassifier.cosine, EmbeddingClassifier.cosineWithNorm, norm_one laws]

theorem normalized_slot {value : ℚ} (h : value = 0 ∨ value = 1) :
    normalized [value] = [value] := by
  rcases h with rfl | rfl
  · simp [normalized]
  · simp [normalized, laws.sqrt_one]

theorem firstMass_embedding {texts : String → ℚ} (prompts : String → String → ℚ)
    {backend : String} (h : texts backend = 0 ∨ texts backend = 1) {temperature : ℚ}
    (pos : 0 < temperature) :
    firstMass (((Leaf.embedding backend temperature pos).classifier (probe texts prompts)).decide
        probeState (.boolean probeBoolean)) =
      some (Lexical.logistic
        (texts backend * Lexical.negationPolarity probeBoolean.text / temperature)) := by
  obtain ⟨d, hd, hentries⟩ := Lexical.fromPairs_pair laws
    (show "true" ≠ "false" by decide) (texts backend * Lexical.negationPolarity probeBoolean.text / temperature)
  have hdecide : ((Leaf.embedding backend temperature pos).classifier (probe texts prompts)).decide
      probeState (.boolean probeBoolean) = .ok d := by
    simp only [Leaf.classifier, EmbeddingClassifier.classifier, Classifier.ofDecide,
      EmbeddingClassifier.decide, EmbeddingClassifier.decideBoolean, EmbeddingClassifier.embedAll,
      probe, List.tail_cons, List.map_cons, List.map_nil, bind, Except.bind, cosine_one laws h,
      EmbeddingClassifier.distributionOver, hd]
  rw [hdecide, firstMass]
  simp [Except.toOption, hentries]

theorem imageEmbedding_probe (texts : String → ℚ) (prompts : String → String → ℚ)
    (embedder : String) (config : Siglip2Config) (template : PromptTemplate) :
    (VisionClassifier.mk ⟨embedder, (probe texts prompts).embedImages embedder,
      (probe texts prompts).embedTexts embedder⟩ config template).imageEmbedding probeState =
      .ok [1] := by
  have hone := normalized_slot laws (Or.inr rfl : (1 : ℚ) = 0 ∨ (1 : ℚ) = 1)
  simp [VisionClassifier.imageEmbedding, VisionClassifier.embedded, probe, probeState,
    State.withImage, State.fromText, pooledImage, addSlots, bind, Except.bind, hone]

theorem firstMass_vision (texts : String → ℚ) {prompts : String → String → ℚ} {embedder : String}
    (h : prompts embedder probeBoolean.text = 0 ∨ prompts embedder probeBoolean.text = 1)
    (config : Siglip2Config) (template : PromptTemplate) :
    firstMass (((Leaf.vision embedder config template).classifier (probe texts prompts)).decide
        probeState (.boolean probeBoolean)) =
      some (Lexical.logistic (prompts embedder probeBoolean.text * config.logitScale *
        Lexical.negationPolarity probeBoolean.text)) := by
  obtain ⟨d, hd, hentries⟩ := Lexical.fromPairs_pair laws
    (show "true" ≠ "false" by decide) (prompts embedder probeBoolean.text * config.logitScale *
      Lexical.negationPolarity probeBoolean.text)
  have hdecide : ((Leaf.vision embedder config template).classifier (probe texts prompts)).decide
      probeState (.boolean probeBoolean) = .ok d := by
    simp only [Leaf.classifier, VisionClassifier.classifier, Classifier.ofDecide,
      VisionClassifier.decide, VisionClassifier.decideBoolean, imageEmbedding_probe laws]
    simp [bind, Except.bind, VisionClassifier.embedded, probe, normalized_slot laws h,
      VisionClassifier.distributionOver, hd]
  rw [hdecide, firstMass]
  simp [Except.toOption, hentries]

theorem firstMass_vision_score (texts : String → ℚ) (prompts : String → String → ℚ)
    (embedder : String) (config : Siglip2Config) (template : PromptTemplate)
    (hlow : prompts embedder (template.prompt probeScore.text "low") = 0 ∨
      prompts embedder (template.prompt probeScore.text "low") = 1)
    (hhigh : prompts embedder (template.prompt probeScore.text "high") = 0) :
    firstMass (((Leaf.vision embedder config template).classifier (probe texts prompts)).decide
        probeState (.score probeScore)) =
      some (Lexical.logistic (prompts embedder (template.prompt probeScore.text "low") *
        config.logitScale)) := by
  obtain ⟨d, hd, hentries⟩ := Lexical.fromPairs_pair laws
    (show "low" ≠ "high" by decide) (prompts embedder (template.prompt probeScore.text "low") * config.logitScale)
  have hone := normalized_slot laws (Or.inr rfl : (1 : ℚ) = 0 ∨ (1 : ℚ) = 1)
  have hzero := normalized_slot laws (Or.inl rfl : (0 : ℚ) = 0 ∨ (0 : ℚ) = 1)
  have hdecide : ((Leaf.vision embedder config template).classifier (probe texts prompts)).decide
      probeState (.score probeScore) = .ok d := by
    simp only [Leaf.classifier, VisionClassifier.classifier, Classifier.ofDecide,
      VisionClassifier.decide, VisionClassifier.decideScore, VisionClassifier.decideAmong,
      imageEmbedding_probe laws]
    simp [bind, Except.bind, VisionClassifier.scorePrompts, VisionClassifier.embedded, probe,
      probeScore, zeroShotScores, hone, VisionClassifier.distributionOver] at hd hlow hhigh ⊢
    simp [normalized_slot laws hlow, hhigh, hzero, hd]
  rw [hdecide, firstMass]
  simp [Except.toOption, hentries]

end Laws

end Probes

namespace Nesting

section Identity

variable [RustStd]

/-- The same distribution, or none, for every state and every such question, over any backends
whose ids determine what they answer. -/
def SameOn (p : DecisionQuestion → Prop) (a b : Nesting) : Prop :=
  ∀ backends state question, p question →
    ((a.classifier backends).decide state question).toOption =
      ((b.classifier backends).decide state question).toOption

def SameDistribution (a b : Nesting) : Prop := SameOn (fun _ => True) a b

/-- An id that two classifiers report is the id of one decision function. -/
def Identified (a b : Nesting) : Prop :=
  (∀ backends, (a.classifier backends).modelId = (b.classifier backends).modelId) →
    SameDistribution a b

def OffChoice (question : DecisionQuestion) : Prop := ∀ choice, question ≠ .choice choice

theorem SameDistribution.offChoice {a b : Nesting} (h : SameDistribution a b) :
    SameOn OffChoice a b := fun backends state question _ => h backends state question trivial

theorem sameOn_offChoice_iff {a b : Nesting} : SameOn OffChoice a b ↔
    SameOn OffChoice (.leaf a.innermost) (.leaf b.innermost) := by
  constructor
  · intro h backends state question hq
    have hsame := h backends state question hq
    rwa [decide_innermost backends a state hq, decide_innermost backends b state hq] at hsame
  · intro h backends state question hq
    rw [decide_innermost backends a state hq, decide_innermost backends b state hq]
    exact h backends state question hq

theorem SameOn.symm {p : DecisionQuestion → Prop} {a b : Nesting} (h : SameOn p a b) :
    SameOn p b a := fun backends state question hq => (h backends state question hq).symm

theorem SameOn.firstMass {p : DecisionQuestion → Prop} {a b : Nesting} (h : SameOn p a b)
    (backends : Backends) (state : State) {question : DecisionQuestion} (hq : p question) :
    firstMass ((a.classifier backends).decide state question) =
      firstMass ((b.classifier backends).decide state question) := by
  rw [OpenCodifier.firstMass, OpenCodifier.firstMass, h backends state question hq]

theorem leaf_masses {r r' : Leaf} (h : SameOn OffChoice (.leaf r) (.leaf r'))
    (backends : Backends) :
    OpenCodifier.firstMass ((r.classifier backends).decide probeState (.boolean probeBoolean)) =
      OpenCodifier.firstMass
        ((r'.classifier backends).decide probeState (.boolean probeBoolean)) :=
  h.firstMass backends probeState fun _ hchoice => by cases hchoice

theorem modelId_eq {a b : Nesting}
    (h : ∀ backends, (a.classifier backends).modelId = (b.classifier backends).modelId) :
    a.modelId = b.modelId := by
  have hid := h (probe (fun _ => 0) fun _ _ => 0)
  rwa [classifier_modelId, classifier_modelId] at hid

theorem modelId_eq_all {a b : Nesting} (h : a.modelId = b.modelId) (backends : Backends) :
    (a.classifier backends).modelId = (b.classifier backends).modelId := by
  rw [classifier_modelId, classifier_modelId, h]

section Laws

variable (laws : ArithmeticLaws)
include laws

theorem evidence_eq {x y : ℚ} {result : Option ℚ} (hx : result = some (Lexical.logistic x))
    (hy : result = some (Lexical.logistic y)) : x = y := by
  rw [hx] at hy
  exact (Lexical.logistic_strictMono laws).injective (Option.some.inj hy)

theorem lexical_ne_embedding {backend : String} {temperature : ℚ} {pos : 0 < temperature} :
    ¬ SameOn OffChoice (.leaf .lexical) (.leaf (.embedding backend temperature pos)) := by
  intro h
  have hone := (leaf_masses h (probe (fun _ => 1) fun _ _ => 0)).trans
    (firstMass_embedding laws _ (Or.inr rfl) pos)
  have hzero := (leaf_masses h (probe (fun _ => 0) fun _ _ => 0)).trans
    (firstMass_embedding laws _ (Or.inl rfl) pos)
  have heq := evidence_eq laws hone hzero
  rw [zero_mul, zero_div, one_mul] at heq
  exact div_ne_zero (negationPolarity_ne_zero _) pos.ne' heq

theorem lexical_ne_vision {embedder : String} {config : Siglip2Config}
    {template : PromptTemplate} :
    ¬ SameOn OffChoice (.leaf .lexical) (.leaf (.vision embedder config template)) := by
  intro h
  have hone := (leaf_masses h (probe (fun _ => 0) fun _ _ => 1)).trans
    (firstMass_vision laws _ (Or.inr rfl) config template)
  have hzero := (leaf_masses h (probe (fun _ => 0) fun _ _ => 0)).trans
    (firstMass_vision laws _ (Or.inl rfl) config template)
  have heq := evidence_eq laws hone hzero
  rw [zero_mul, zero_mul, one_mul] at heq
  exact mul_ne_zero config.logitScale_pos.ne' (negationPolarity_ne_zero _) heq

theorem embedding_ne_vision {backend embedder : String} {temperature : ℚ}
    {pos : 0 < temperature} {config : Siglip2Config} {template : PromptTemplate} :
    ¬ SameOn OffChoice (.leaf (.embedding backend temperature pos))
      (.leaf (.vision embedder config template)) := by
  intro h
  have hmasses := leaf_masses h (probe (fun _ => 1) fun _ _ => 0)
  have heq := evidence_eq laws (firstMass_embedding laws _ (Or.inr rfl) pos)
    (hmasses.trans (firstMass_vision laws _ (Or.inl rfl) config template))
  rw [zero_mul, zero_mul, one_mul] at heq
  exact div_ne_zero (negationPolarity_ne_zero _) pos.ne' heq

theorem embedding_inj {backend backend' : String} {temperature temperature' : ℚ}
    {pos : 0 < temperature} {pos' : 0 < temperature'}
    (h : SameOn OffChoice (.leaf (.embedding backend temperature pos))
      (.leaf (.embedding backend' temperature' pos'))) :
    backend = backend' ∧ temperature = temperature' := by
  have hpolarity := negationPolarity_ne_zero probeBoolean.text
  have hbackend : backend = backend' := by
    by_contra hne
    have hmasses := leaf_masses h (probe (fun id => if id = backend then 1 else 0) fun _ _ => 0)
    have heq := evidence_eq laws (firstMass_embedding laws _ (by simp) pos)
      (hmasses.trans (firstMass_embedding laws _ (by simp [Ne.symm hne]) pos'))
    rw [if_pos rfl, if_neg (Ne.symm hne), zero_mul, zero_div, one_mul] at heq
    exact div_ne_zero hpolarity pos.ne' heq
  have hmasses := leaf_masses h (probe (fun _ => 1) fun _ _ => 0)
  have heq := evidence_eq laws (firstMass_embedding laws _ (Or.inr rfl) pos)
    (hmasses.trans (firstMass_embedding laws _ (Or.inr rfl) pos'))
  rw [one_mul, div_eq_div_iff pos.ne' pos'.ne'] at heq
  exact ⟨hbackend, (mul_left_cancel₀ hpolarity heq).symm⟩

theorem vision_inj {embedder embedder' : String} {config config' : Siglip2Config}
    {template template' : PromptTemplate}
    (h : SameOn OffChoice (.leaf (.vision embedder config template))
      (.leaf (.vision embedder' config' template'))) :
    embedder = embedder' ∧ config = config' ∧ template = template' := by
  have hpolarity := negationPolarity_ne_zero probeBoolean.text
  have hembedder : embedder = embedder' := by
    by_contra hne
    have hmasses := leaf_masses h (probe (fun _ => 0) fun id _ => if id = embedder then 1 else 0)
    have heq := evidence_eq laws (firstMass_vision laws _ (by simp) config template)
      (hmasses.trans (firstMass_vision laws _ (by simp [Ne.symm hne]) config' template'))
    rw [if_pos rfl, if_neg (Ne.symm hne), zero_mul, zero_mul, one_mul] at heq
    exact mul_ne_zero config.logitScale_pos.ne' hpolarity heq
  have hconfig : config = config' := by
    have hmasses := leaf_masses h (probe (fun _ => 0) fun _ _ => 1)
    have heq := evidence_eq laws (firstMass_vision laws _ (Or.inr rfl) config template)
      (hmasses.trans (firstMass_vision laws _ (Or.inr rfl) config' template'))
    rw [one_mul, one_mul] at heq
    obtain ⟨scale, hscale⟩ := config
    obtain ⟨scale', hscale'⟩ := config'
    cases mul_right_cancel₀ hpolarity heq
    rfl
  refine ⟨hembedder, hconfig, ?_⟩
  by_contra hne
  -- the prompt of one template alone is evidence for the lower level
  let prompts := fun (_ : String) text =>
    if text = template.prompt probeScore.text "low" then (1 : ℚ) else 0
  have hhigh : template.prompt probeScore.text "high" ≠ template.prompt probeScore.text "low" := by
    cases template <;> decide
  have hlow' : template'.prompt probeScore.text "low" ≠ template.prompt probeScore.text "low" := by
    revert hne
    cases template <;> cases template' <;> decide
  have hhigh' : template'.prompt probeScore.text "high" ≠
      template.prompt probeScore.text "low" := by
    cases template <;> cases template' <;> decide
  have hscore : OffChoice (.score probeScore) := fun _ hchoice => by cases hchoice
  have hmasses := h.firstMass (probe (fun _ => 0) prompts) probeState hscore
  have hfirst := firstMass_vision_score laws (fun _ => 0) prompts embedder config template
    (by simp [prompts]) (by simp [prompts, hhigh])
  have hsecond := firstMass_vision_score laws (fun _ => 0) prompts embedder' config' template'
    (by simp [prompts, hlow'])
    (by simp [prompts, hhigh'])
  have heq := evidence_eq laws hfirst (hmasses.trans hsecond)
  simp only [prompts, if_true, hlow', if_false, zero_mul, one_mul] at heq
  exact config.logitScale_pos.ne' heq

/-- Leaves are told apart by questions without candidates. -/
theorem leaf_inj {r r' : Leaf} (h : SameOn OffChoice (.leaf r) (.leaf r')) : r = r' := by
  cases r with
  | lexical =>
    cases r' with
    | lexical => rfl
    | embedding => exact absurd h (lexical_ne_embedding laws)
    | vision => exact absurd h (lexical_ne_vision laws)
  | embedding backend temperature pos =>
    cases r' with
    | lexical => exact absurd h.symm (lexical_ne_embedding laws)
    | embedding backend' temperature' pos' =>
      obtain ⟨rfl, rfl⟩ := embedding_inj laws h
      rfl
    | vision => exact absurd h (embedding_ne_vision laws)
  | vision embedder config template =>
    cases r' with
    | lexical => exact absurd h.symm (lexical_ne_vision laws)
    | embedding => exact absurd h.symm (embedding_ne_vision laws)
    | vision embedder' config' template' =>
      obtain ⟨rfl, rfl, rfl⟩ := vision_inj laws h
      rfl

/-- The id and the settings that it leaves out decide together which classifier answers. Where
both have the same wrappers, or neither has a rotation, nothing less does; elsewhere the leaf
must be the same. The id alone is never enough. That nothing less does rests on an exponential
that is strictly increasing, which the source's is not where its results meet in one f64. -/
theorem identified_iff (a b : Nesting) :
    (a.modelId ≠ b.modelId ∨ a.Agrees b → Identified a b) ∧
    (a.SameWrappers b ∨ (a.Unrotated ∧ b.Unrotated) →
      (Identified a b ↔ a.modelId ≠ b.modelId ∨ a.Agrees b)) ∧
    (SameOn OffChoice a b ↔ a.innermost = b.innermost) ∧
    ∃ c : Nesting, c.modelId = a.modelId ∧ ¬ Identified a c := by
  have hoff : ∀ a b : Nesting, SameOn OffChoice a b ↔ a.innermost = b.innermost := by
    intro a b
    rw [sameOn_offChoice_iff]
    exact ⟨leaf_inj laws, fun h => h ▸ fun _ _ _ _ => rfl⟩
  have henough : a.modelId ≠ b.modelId ∨ a.Agrees b → Identified a b := by
    rintro (hne | hagrees) hid
    · exact absurd (modelId_eq hid) hne
    · rw [eq_of_agrees hagrees (modelId_eq hid)]
      exact fun _ _ _ _ => rfl
  refine ⟨henough, fun hshape => ⟨fun h => ?_, henough⟩, hoff a b, ?_⟩
  · by_cases hid : a.modelId = b.modelId
    · right
      have hleaf := (hoff a b).mp (h (modelId_eq_all hid)).offChoice
      have heq : a = b := by
        rcases hshape with hwrappers | ⟨ha, hb⟩
        · exact eq_of_sameWrappers hwrappers hleaf
        · exact eq_of_unrotated ha hb hid hleaf
      exact heq ▸ agrees_refl a
    · exact Or.inl hid
  · -- two readouts under this id over different leaves: one of them is not this classifier
    let under (leaf : Leaf) : Nesting := .rotation (.leaf leaf) a.modelId .logMean none
    have hsame : ∀ leaf, Identified a (under leaf) → a.innermost = leaf := fun leaf h =>
      (hoff a (under leaf)).mp (h (modelId_eq_all rfl)).offChoice
    by_cases hlexical : a.innermost = .lexical
    · refine ⟨under (.embedding "mock" 1 one_pos), rfl, fun h => ?_⟩
      have hleaf := hsame _ h
      rw [hlexical] at hleaf
      cases hleaf
    · exact ⟨under .lexical, rfl, fun h => hlexical (hsame _ h)⟩

end Laws

end Identity

section Samples

/-- The sample library with an exponential function that grows. -/
abbrev steepStd : RustStd :=
  { plainStd with exp := fun x => if 0 ≤ x then 1 + x else 1 / (1 - x) }

theorem steepStd_exp_strictMono : StrictMono steepStd.exp := by
  intro a b hab
  change (if 0 ≤ a then 1 + a else 1 / (1 - a)) < if 0 ≤ b then 1 + b else 1 / (1 - b)
  by_cases ha : 0 ≤ a
  · rw [if_pos ha, if_pos (ha.trans hab.le)]
    linarith
  · have hpos : 0 < 1 - a := by linarith
    rw [if_neg ha]
    by_cases hb : 0 ≤ b
    · rw [if_pos hb, div_lt_iff₀ hpos]
      nlinarith
    · rw [if_neg hb]
      exact one_div_lt_one_div_of_lt (by linarith) (by linarith)

theorem steepStd_exp_pos (x : ℚ) : 0 < steepStd.exp x := by
  change 0 < if 0 ≤ x then 1 + x else 1 / (1 - x)
  split
  · linarith
  · exact one_div_pos.mpr (by linarith)

attribute [local instance] steepStd

theorem steepLaws : ArithmeticLaws where
  exp_strictMono := steepStd_exp_strictMono
  exp_pos := steepStd_exp_pos
  sqrt_one := rfl

def mild : Nesting := .leaf (.embedding "mock" 1 one_pos)

def sharp : Nesting := .leaf (.embedding "mock" 2 (by norm_num))

theorem modelId_mild : mild.modelId = sharp.modelId := by
  simp only [mild, sharp, modelId, Leaf.modelId]

theorem identified_iff_mild :
    Identified mild mild ∧ (Identified mild sharp ↔ mild.Agrees sharp) := by
  refine ⟨(identified_iff steepLaws mild mild).1 (Or.inr rfl), ?_⟩
  rw [(identified_iff steepLaws mild sharp).2.1 (Or.inl trivial)]
  exact ⟨fun h => h.resolve_left fun hne => hne modelId_mild, Or.inr⟩

/-- The temperature is in no id. -/
theorem not_identified_temperature :
    (∀ backends, (mild.classifier backends).modelId = (sharp.classifier backends).modelId) ∧
      ¬ Identified mild sharp := by
  refine ⟨modelId_eq_all modelId_mild, fun h => ?_⟩
  obtain ⟨-, htemperature⟩ := embedding_inj steepLaws (h (modelId_eq_all modelId_mild)).offChoice
  norm_num at htemperature

end Samples

end Nesting

end OpenCodifier
