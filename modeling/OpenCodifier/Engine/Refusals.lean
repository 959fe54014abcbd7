import OpenCodifier.Engine.Ephemeral
import OpenCodifier.Engine.Serve
set_option autoImplicit false

namespace OpenCodifier

/-- A refusal for the structure or the size of a graph. -/
def EngineError.structural : EngineError → Bool
  | .cycle _ | .unknownDependency _ _ | .duplicateNode _ | .missingOutput | .multipleOutputs _
  | .unreachableNode _ | .multipleRoots _ | .outputNotTerminal _ _ | .outputWithoutDependency _
  | .graphTooLarge _ _ | .invalidNode _ _ _ => true
  | _ => false

/-- The structural errors are those with a code of the graph. -/
theorem EngineError.structural_iff (e : EngineError) :
    e.structural = true ↔ "graph.".toList <+: e.code.toList := by
  cases e <;> simp [structural, code]

def Spares {α : Type} (r : EngineResult α) : Prop :=
  Result.Ends (fun e => e.structural = false) (fun _ => True) r

namespace Spares

variable {α β : Type}

theorem ok (a : α) : Spares (.ok a : EngineResult α) := trivial

theorem ofCore (x : CoreResult α) : Spares (ofCore x) := by
  cases x with
  | ok a => trivial
  | error e => rfl

theorem bind {x : EngineResult α} {f : α → EngineResult β} (h : Spares x)
    (hf : ∀ a, Spares (f a)) : Spares (x >>= f) :=
  Result.Ends.bind h fun a _ => hf a

theorem mapM {f : α → EngineResult β} (l : List α) (h : ∀ a, Spares (f a)) : Spares (l.mapM f) :=
  Result.Ends.mapM_all l h

end Spares

section Sources

structure Classifier.GraphBlind (c : Classifier) : Prop where
  decide : ∀ state question, Spares (c.decide state question)
  extended : ∀ state question index, Spares (c.decideExtended state question index)

variable [RustStd]

theorem LexicalClassifier.distributionOver_spares (question : QuestionId) (keys : List String)
    (scores : List ℚ) : Spares (distributionOver question keys scores) := by
  unfold distributionOver
  split
  · exact .ok _
  · rfl

theorem LexicalClassifier.decideWithSupport_spares (state : State) (question : DecisionQuestion)
    (index : Option Lexical.Bm25Index) : Spares (decideWithSupport state question index) := by
  cases question with
  | choice q => exact (distributionOver_spares _ _ _).bind fun _ => .ok _
  | boolean q => exact (distributionOver_spares _ _ _).bind fun _ => .ok _
  | score q => exact (distributionOver_spares _ _ _).bind fun _ => .ok _

theorem LexicalClassifier.graphBlind (modelId : String) : (classifier modelId).GraphBlind where
  decide state question := (decideWithSupport_spares state question none).bind fun _ => .ok _
  extended state question index := (decideWithSupport_spares state question index).bind fun _ => .ok _

theorem RelationalSolver.graphBlind {inner : Classifier} (h : inner.GraphBlind) :
    (classifier inner).GraphBlind := by
  have hdecide : ∀ state question, Spares (decide inner state question) := by
    intro state question
    cases question with
    | choice q =>
      rw [decide]
      split
      · split
        · exact .ok _
        · rfl
      · exact h.decide state _
    | boolean q => exact h.decide state _
    | score q => exact h.decide state _
  exact ⟨hdecide, fun state question _ => (hdecide state question).bind fun _ => .ok _⟩

end Sources

namespace Executor

variable [RustStd] {ex : Executor}

/-- What a run asks of others never refuses the graph: the classifiers, and the checks of the
deadline and the token. -/
structure GraphBlind (ex : Executor) : Prop where
  classifier : ex.classifier.GraphBlind
  verifier : ∀ verifier ∈ ex.verifier, verifier.GraphBlind
  fallbacks : ∀ rung ∈ ex.fallbacks, rung.classifier.GraphBlind
  guard : ∀ point, Spares (ex.guard point)

section Nodes

variable (s : RunState)

omit [RustStd] in
theorem embedTexts_spares (backend : EmbeddingBackend) (query : String) (documents : List String) :
    Spares (embedTexts backend query documents) := by
  unfold embedTexts
  split
  · rfl
  · split
    · split
      · exact .ok _
      · rfl
    · rfl

theorem scoreSemantic_spares (id : NodeId) : Spares (ex.scoreSemantic s id) := by
  unfold scoreSemantic
  split
  · rfl
  · refine (Spares.mapM _ fun choice => ?_).bind fun _ => .ok _
    exact (embedTexts_spares _ _ _).bind fun _ => .ok _

theorem retrieve_spares (id : NodeId) (spec : NodeSpec) : Spares (ex.retrieve s id spec) := by
  refine (Spares.mapM _ fun choice => ?_).bind fun _ => .ok _
  unfold retrieveQuestion
  dsimp only
  split
  · rfl
  · exact .ok _

variable (ex) in
theorem rerankerOf_cases (id : NodeId) (spec : NodeSpec) :
    (∃ e : EngineError, e.structural = false ∧ ex.rerankerOf id spec = .error e) ∨
      ∃ reranker, ex.rerankerOf id spec = .ok reranker ∧
        ∀ query candidates, Spares (reranker.rerank query candidates) := by
  unfold rerankerOf
  split
  · split
    · exact .inr ⟨_, rfl, fun _ _ => .ok _⟩
    · split
      · split
        · exact .inr ⟨_, rfl, fun _ _ => (embedTexts_spares _ _ _).bind fun _ => .ok _⟩
        · exact .inl ⟨_, rfl, rfl⟩
      · exact .inl ⟨_, rfl, rfl⟩
  · exact .inl ⟨_, rfl, rfl⟩

theorem rerankCandidates_spares (id : NodeId) (spec : NodeSpec) :
    Spares (ex.rerankCandidates s id spec) := by
  rw [rerankCandidates]
  obtain ⟨e, he, herror⟩ | ⟨reranker, hok, hreranker⟩ := rerankerOf_cases ex id spec
  · rw [herror]
    exact he
  · rw [hok]
    refine (Spares.mapM (f := rerankQuestion s reranker id) _ fun choice => ?_).bind
      fun _ => .ok _
    unfold rerankQuestion
    dsimp only
    split
    · exact .ok _
    · exact (hreranker _ _).bind fun _ => .ok _

theorem clip_spares (d : Distribution) (question : DecisionQuestion) : Spares (clip d question) := by
  unfold clip
  dsimp only
  split
  · rfl
  · split
    · exact .ok _
    · rfl

theorem readClassifier_spares {classifier : Classifier} (h : classifier.GraphBlind) (state : State)
    (question : DecisionQuestion) (index : Option Lexical.Bm25Index) :
    Spares (readClassifier classifier state question index) :=
  (h.extended state question index).bind fun raw => (clip_spares raw.1 question).bind fun _ => .ok _

theorem decideQuestion_spares (question : DecisionQuestion) (d : Distribution)
    (policy : DecisionPolicy) (calibration : Calibration) (decidedBy : String)
    (decidedKind : NodeKind) (lexicalSupport : Option ℚ) : Spares
      (decideQuestion question d policy calibration decidedBy decidedKind lexicalSupport) := by
  refine Spares.bind ?_ fun _ => .ok _
  cases question with
  | choice q => exact (Spares.ofCore _).bind fun _ => .ok _
  | boolean q =>
    unfold answerOf
    dsimp only
    split <;> exact .ok _
  | score q => exact .ok _

theorem decideQuestions_spares (h : ex.GraphBlind) (id : NodeId) (kind : NodeKind) :
    Spares (ex.decideQuestions s id kind) := by
  refine (Spares.mapM _ fun question => ?_).bind fun _ => .ok _
  unfold decideOne
  dsimp only
  split
  · exact .ok _
  · refine Spares.bind ?_ fun reading => (decideQuestion_spares _ _ _ _ _ _ _).bind fun _ => .ok _
    refine (readClassifier_spares h.classifier _ _ _).bind fun first => ?_
    split
    · exact (readClassifier_spares h.classifier _ _ _).bind fun _ => .ok _
    · exact .ok _

theorem walkRungs_spares (h : ex.GraphBlind) (id : NodeId) (question : QuestionId)
    (policy : DecisionPolicy) (decidedBy : String × NodeKind) {rungs : List (Rung × Nat)}
    (hrungs : ∀ entry ∈ rungs, entry.1.classifier.GraphBlind) (w : Walk) :
    Spares (ex.walkRungs s id question policy decidedBy rungs w) := by
  induction rungs generalizing w with
  | nil => exact .ok _
  | cons entry rest ih =>
    obtain ⟨rung, index⟩ := entry
    obtain ⟨hrung, hrest⟩ := List.forall_mem_cons.mp hrungs
    rw [walkRungs]
    split
    · exact .ok _
    · split
      · exact ih hrest _
      · refine (h.guard _).bind fun _ => Spares.bind ?_ fun escalated => ih hrest _
        exact (readClassifier_spares hrung _ _ _).bind fun reading =>
          decideQuestion_spares _ _ _ _ _ _ _

theorem verify_spares (h : ex.GraphBlind) (live : QuestionDecision) (outcome : DecisionOutcome) :
    Spares (ex.verify s live outcome) := by
  unfold verify
  split
  · split
    · rename_i verifier hverifier
      refine ((h.verifier verifier hverifier).decide _ _).bind fun alternative => ?_
      split <;> exact .ok _
    · exact .ok _
  · exact .ok _

theorem resolveThreshold_spares (h : ex.GraphBlind) (id : NodeId) :
    Spares (ex.resolveThreshold s id) := by
  refine (Spares.mapM _ fun entry => ?_).bind fun resolutions => .ok _
  refine Spares.bind (walkRungs_spares s h id _ _ _ (fun rung hrung => ?_) _) fun w =>
    (verify_spares s h _ _).bind fun _ => .ok _
  exact h.fallbacks rung.1 (List.fst_mem_of_mem_zipIdx hrung)

/-- No node refuses the graph it is in. -/
theorem execute_spares (h : ex.GraphBlind) (spec : NodeSpec) : Spares (ex.execute s spec) := by
  refine (h.guard _).bind fun _ => ?_
  cases spec.kind with
  | embedding => exact scoreSemantic_spares s spec.id
  | retrieve => exact retrieve_spares s spec.id spec
  | rerank => exact rerankCandidates_spares s spec.id spec
  | choice => exact decideQuestions_spares s h spec.id .choice
  | boolean => exact decideQuestions_spares s h spec.id .boolean
  | score => exact decideQuestions_spares s h spec.id .score
  | threshold => exact resolveThreshold_spares s h spec.id
  | _ => exact .ok _

end Nodes

section Run

theorem mergeResults_spares (results : List (NodeSpec × EngineResult NodeExecution))
    (h : ∀ r ∈ results, Spares r.2) (acc : RunState × Bool) :
    Spares (ex.mergeResults acc results) := by
  induction results generalizing acc with
  | nil => exact .ok _
  | cons r rest ih =>
    obtain ⟨hr, hrest⟩ := List.forall_mem_cons.mp h
    exact Spares.bind hr fun execution => ih hrest _

theorem runWave_spares (h : ex.GraphBlind) (s : RunState) (wave : List NodeId) :
    Spares (ex.runWave s wave) := by
  refine mergeResults_spares _ (fun r hr => ?_) _
  obtain ⟨spec, -, rfl⟩ := List.mem_map.mp ((List.mem_insertionSort _).mp hr)
  exact execute_spares s h spec

theorem runWaves_spares (h : ex.GraphBlind) (s : RunState) (waves : List (List NodeId)) :
    Spares (ex.runWaves s waves) := by
  induction waves generalizing s with
  | nil => exact .ok _
  | cons wave rest ih =>
    rw [runWaves]
    refine (h.guard _).bind fun _ => ?_
    split
    · exact ih s
    · refine (runWave_spares h s wave).bind fun r => ?_
      split
      · exact .ok _
      · exact ih r.1

theorem run_spares (h : ex.GraphBlind) : Spares ex.run :=
  (runWaves_spares h _ _).bind fun _ => .ok _

end Run

end Executor

section Engine

variable [RustStd] {engine : DecisionEngine} {request : DecisionRequest} {moment : Moment}

theorem DecisionEngine.validate_spares
    (h : engine.config.graph.nodes.length ≤ request.metadata.limits.maxGraphNodes) :
    Spares (engine.validate request) := by
  unfold validate
  split
  · rfl
  · rw [if_neg (not_lt.mpr h)]
    split
    · rfl
    · exact .ok _

/-- A decision under limits that admit the graph never refuses it. -/
theorem DecisionEngine.decide_spares
    (hlimit : engine.config.graph.nodes.length ≤ request.metadata.limits.maxGraphNodes)
    (hkey : ∀ request identity, Spares (engine.keyOf request identity))
    (hrun : ∀ key, (engine.executor request key moment.guard).GraphBlind) :
    Spares (engine.decide request moment).2 := by
  have hreport : Spares
      (engine.decideWithReport request moment.lookupAt moment.insertAt moment.guard) := by
    refine (validate_spares hlimit).bind fun _ => (hkey _ _).bind fun key => ?_
    dsimp only
    split
    · exact .ok _
    · refine (Executor.run_spares (hrun key)).bind fun outcome => Spares.bind ?_ fun _ => .ok _
      refine (Spares.ofCore _).bind fun response => ?_
      split
      · exact .ofCore _
      · exact .ok _
  unfold decide
  cases h : engine.decideWithReport request moment.lookupAt moment.insertAt moment.guard with
  | ok r => exact .ok _
  | error e =>
    rw [h] at hreport
    exact hreport

theorem EngineHandle.ephemeral_spares {host : Host} {graph : DecisionGraph}
    (h : ephemeral host graph = .ok engine)
    (hlimit : graph.nodes.length ≤ request.metadata.limits.maxGraphNodes)
    (hkey : ∀ request identity, Spares (host.keyOf request identity))
    (hguard : ∀ point, Spares (moment.guard point)) : Spares (engine.decide request moment).2 := by
  obtain ⟨hconfig, -, -, hclassifier, hverifier, hfallbacks, hkeyOf⟩ :=
    DecisionEngine.newWithRungs_ok h
  have hgraph : engine.config.graph = graph := congrArg EngineConfig.graph hconfig
  refine DecisionEngine.decide_spares (hgraph ▸ hlimit) (hkeyOf ▸ hkey) fun key => ?_
  refine ⟨?_, ?_, ?_, hguard⟩
  · change engine.classifier.GraphBlind
    rw [hclassifier]
    exact RelationalSolver.graphBlind (LexicalClassifier.graphBlind "builtin-lexical-v2")
  · rintro verifier (hv : engine.verifier = some verifier)
    rw [hverifier] at hv
    cases hv
  · rintro rung (hr : rung ∈ engine.fallbacks)
    rw [hfallbacks] at hr
    cases hr

end Engine

end OpenCodifier
