import OpenCodifier.Engine.Coherence
set_option autoImplicit false

namespace OpenCodifier

section Lookup

universe u v

variable {κ : Type u} {α : Type v} [LinearOrder κ]

/-- The response stored under a key, expired or not. -/
def DecisionCache.stored (cache : DecisionCache κ α) (key : κ) : Option α :=
  (cache.inner.slots.get? key).map Slot.response

def DecisionCache.live (cache : DecisionCache κ α) (now : Nat) (key : κ) : Prop :=
  CacheInner.isExpired (cache.inner.slots.get? key) cache.config.ttl now = false

theorem DecisionCache.get_of_live {cache : DecisionCache κ α} {now : Nat} {key : κ}
    (h : cache.live now key) : (cache.get now key).2 = cache.stored key := by
  unfold live at h
  unfold get stored
  dsimp only
  rw [if_neg (by simp [h])]
  cases hs : cache.inner.slots.get? key with
  | none => rfl
  | some slot => rfl

theorem DecisionCache.get_hit_stored {cache : DecisionCache κ α} {now : Nat} {key : κ}
    {response : α} (h : (cache.get now key).2 = some response) :
    (cache.get now key).1.stored key = some response := by
  unfold get at h ⊢
  dsimp only at h ⊢
  split at h
  · cases h
  · rename_i hexp
    rw [if_neg hexp]
    cases hs : cache.inner.slots.get? key with
    | none => simp [hs] at h
    | some slot =>
      simp only [hs] at h ⊢
      simpa [stored, OrdMap.get?_insert_self] using h

theorem DecisionCache.insert_stored (cache : DecisionCache κ α) (now : Nat) (key : κ)
    (response : α) : (cache.insert now key response).stored key = some response := by
  simp [insert, stored, OrdMap.get?_insert_self]

end Lookup

section Replay

variable [RustStd]

namespace DecisionEngine

omit [RustStd] in
theorem relabelled_confidence (cached : DecisionResponse) (key : CacheKey) :
    (relabelled cached key).confidence = cached.confidence := by
  unfold relabelled
  split
  · rename_i response h
    exact (DecisionResponse.new_ok h).2.2.1
  · rfl

theorem cachedResponse_confidence (cached : DecisionResponse) (key : CacheKey) :
    (cachedResponse cached key).confidence = cached.confidence := by
  unfold cachedResponse withEscalationFor
  cases hc : cached.escalation with
  | none => exact relabelled_confidence cached key
  | some report =>
    cases hw : (relabelled cached key).withEscalation report with
    | error e => simp [hw]
    | ok response =>
      obtain ⟨-, -, hconf, -⟩ := DecisionResponse.withEscalation_frame hw
      simp [hw, hconf, relabelled_confidence]

/-- What two responses have in common when one re-serves the other. -/
structure SameDecision (a b : DecisionResponse) : Prop where
  answers : a.answers = b.answers
  outcome : a.outcome = b.outcome
  confidence : a.confidence = b.confidence
  escalation : a.escalation = b.escalation

theorem cachedResponse_sameDecision (cached : DecisionResponse) (key : CacheKey) :
    SameDecision (cachedResponse cached key) cached :=
  have h := cachedResponse_frame cached key
  ⟨h.1, h.2.1, cachedResponse_confidence cached key, h.2.2⟩

omit [RustStd] in
theorem relabelled_metrics (cached : DecisionResponse) (key : CacheKey) :
    (relabelled cached key).metrics = { cached.metrics with cacheHit := true } := by
  unfold relabelled
  split
  · rename_i response h
    exact (DecisionResponse.new_ok h).2.2.2.2.1
  · rename_i e h
    unfold DecisionResponse.new at h
    split at h
    · rename_i hbare
      exact absurd hbare.2 (cached.decisive_answers hbare.1)
    · split at h
      · rename_i hv
        obtain ⟨a, ha, hrefused⟩ := Result.mapM_error hv
        rw [cached.answers_valid a ha] at hrefused
        cases hrefused
      · cases h

theorem cachedResponse_metrics {cached : DecisionResponse} (key : CacheKey)
    (h : ∀ report ∈ cached.escalation, report.validate = .ok ()) :
    (cachedResponse cached key).metrics = { cached.metrics with cacheHit := true } := by
  rw [← relabelled_metrics cached key]
  unfold cachedResponse withEscalationFor
  cases hc : cached.escalation with
  | none => rfl
  | some report =>
    have hescalate : (relabelled cached key).outcome = .escalate :=
      (relabelled_frame cached key).2.1.trans (cached.escalation_outcome (by simp [hc]))
    simp only [DecisionResponse.withEscalation, h report hc, hescalate, dif_pos]

theorem respond_ok {engine : DecisionEngine} {request : DecisionRequest}
    {outcome : Executor.GraphOutcome} {response : DecisionResponse}
    (h : engine.respond request outcome = .ok response) : response.metrics = outcome.metrics ∧
      ∀ report ∈ response.escalation, report.validate = .ok () := by
  obtain ⟨plain, hplain, h⟩ := Result.bind_ok.mp h
  obtain ⟨-, -, -, -, hmetrics, hnone⟩ := DecisionResponse.new_ok (ofCore_ok hplain)
  split at h
  · have h := ofCore_ok h
    unfold DecisionResponse.withEscalation at h
    split at h
    · cases h
    · rename_i hvalid
      split at h
      · cases h
        refine ⟨hmetrics, fun report hreport => ?_⟩
        cases hreport
        exact hvalid
      · cases h
  · cases h
    refine ⟨hmetrics, fun report hreport => ?_⟩
    rw [hnone] at hreport
    cases hreport

/-- What one decision leaves in the cache, and what it reports. -/
theorem decideWithReport_leaves {engine engine' : DecisionEngine} {request : DecisionRequest}
    {lookupAt insertAt : Nat} {guard : GuardPoint → EngineResult Unit}
    {response : DecisionResponse} {report : RunReport}
    (h : engine.decideWithReport request lookupAt insertAt guard =
      .ok (engine', response, report)) :
    ∃ key entry, engine.keyOf (CacheKeyBuilder.normalizedRequest request) engine.liveIdentity =
        .ok key ∧ engine'.cache.stored key = some entry ∧ SameDecision response entry ∧
      report.outcomes.map Prod.fst = request.questionIds ∧
      (report.cacheHit = true → report.outcomes = perQuestionOutcomes request entry.outcome) := by
  obtain ⟨u, -, h⟩ := Result.bind_ok.mp h
  obtain ⟨key, hk, h⟩ := Result.bind_ok.mp h
  dsimp only at h
  split at h
  · rename_i cached hc
    cases h
    refine ⟨key, cached, hk, DecisionCache.get_hit_stored hc,
      cachedResponse_sameDecision cached key, ?_, fun _ => rfl⟩
    simp [perQuestionOutcomes, DecisionRequest.questionIds, Function.comp_def]
  · obtain ⟨outcome, hr, h⟩ := Result.bind_ok.mp h
    obtain ⟨response', -, h⟩ := Result.bind_ok.mp h
    obtain ⟨final, -, ho⟩ := Result.bind_ok.mp hr
    cases h
    cases ho
    refine ⟨key, response, hk, DecisionCache.insert_stored _ _ _ _, ⟨rfl, rfl, rfl, rfl⟩, ?_,
      fun hit => by cases hit⟩
    simp [Executor.assemble, Executor.questionOutcome, DecisionRequest.questionIds, executor,
      Function.comp_def]

/-- A lookup that finds a live entry re-serves it and runs nothing. -/
theorem decideWithReport_of_live (engine : DecisionEngine) {engine' : DecisionEngine}
    {request : DecisionRequest}
    {lookupAt insertAt : Nat} {guard : GuardPoint → EngineResult Unit}
    {response entry : DecisionResponse} {report : RunReport} {key : CacheKey}
    (h : engine.decideWithReport request lookupAt insertAt guard =
      .ok (engine', response, report))
    (hk : engine.keyOf (CacheKeyBuilder.normalizedRequest request) engine.liveIdentity = .ok key)
    (hlive : engine.cache.live lookupAt key) (hs : engine.cache.stored key = some entry) :
    response = cachedResponse entry key ∧ report.cacheHit = true ∧
      report.outcomes = perQuestionOutcomes request entry.outcome := by
  obtain ⟨u, -, h⟩ := Result.bind_ok.mp h
  rw [hk] at h
  obtain ⟨key', hk', h⟩ := Result.bind_ok.mp h
  cases hk'
  dsimp only at h
  rw [DecisionCache.get_of_live hlive, hs] at h
  cases h
  exact ⟨rfl, rfl, rfl⟩

omit [RustStd] in
theorem outcomes_eq_perQuestion_iff {request : DecisionRequest} {outcome : DecisionOutcome}
    {outcomes : List (QuestionId × DecisionOutcome)}
    (h : outcomes.map Prod.fst = request.questionIds) :
    perQuestionOutcomes request outcome = outcomes ↔ ∀ e ∈ outcomes, e.2 = outcome := by
  have hper : perQuestionOutcomes request outcome =
      (outcomes.map Prod.fst).map fun id => (id, outcome) := by
    rw [h]
    simp [perQuestionOutcomes, DecisionRequest.questionIds, Function.comp_def]
  rw [hper, List.map_map]
  clear h hper
  induction outcomes with
  | nil => simp
  | cons e outcomes ih =>
    rw [List.map_cons, List.cons.injEq, List.forall_mem_cons]
    refine and_congr ?_ ih
    simp [Prod.ext_iff, eq_comm]

/-- The run left every choice question a candidate and gave all questions one outcome. -/
structure UniformRun (ex : Executor) (final : RunState) : Prop where
  fed : ¬ Executor.Starved ex final
  same : ∀ q ∈ ex.request.questions, ∀ q' ∈ ex.request.questions,
    (Executor.questionOutcome final q).2 = (Executor.questionOutcome final q').2

theorem uniformRun_iff {ex : Executor} {final : RunState} (hrun : ex.runState = .ok final) :
    UniformRun ex final ↔ ∀ e ∈ ex.perQuestion final, e.2 = ex.overallOutcome final := by
  have hcomb := Executor.combined_run hrun
  constructor
  · intro h e he
    obtain ⟨q, hq, rfl⟩ := List.mem_map.mp he
    obtain ⟨e', he', hout⟩ := List.mem_map.mp (hcomb.attained h.fed)
    obtain ⟨q', hq', rfl⟩ := List.mem_map.mp he'
    rw [← hout]
    exact h.same q hq q' hq'
  · intro h
    have hall : ∀ q ∈ ex.request.questions,
        (Executor.questionOutcome final q).2 = ex.overallOutcome final := fun q hq =>
      h _ (List.mem_map_of_mem hq)
    refine ⟨fun hst => ?_, fun q hq q' hq' => (hall q hq).trans (hall q' hq').symm⟩
    obtain ⟨q, hq⟩ := List.exists_mem_of_ne_nil _ ex.request.questions_ne
    have hout := hall q hq
    rw [hcomb.noValid.mpr hst] at hout
    exact Executor.questionOutcome_ne_noValid (Executor.classified_run hrun) q hout

/-- The first decision is a hit itself, or its run is uniform. -/
def RepeatsOutcomes (engine : DecisionEngine) (request : DecisionRequest) (lookupAt : Nat)
    (guard : GuardPoint → EngineResult Unit) : Prop :=
  ∃ key, engine.keyOf (CacheKeyBuilder.normalizedRequest request) engine.liveIdentity = .ok key ∧
    ((engine.cache.get lookupAt key).2.isSome = true ∨
      ∃ final, (engine.executor request key guard).runState = .ok final ∧
        UniformRun (engine.executor request key guard) final)

theorem repeatsOutcomes_iff {engine engine' : DecisionEngine} {request : DecisionRequest}
    {lookupAt insertAt : Nat} {guard : GuardPoint → EngineResult Unit}
    {response : DecisionResponse} {report : RunReport}
    (h : engine.decideWithReport request lookupAt insertAt guard =
      .ok (engine', response, report)) :
    RepeatsOutcomes engine request lookupAt guard ↔
      ∀ e ∈ report.outcomes, e.2 = response.outcome := by
  obtain ⟨u, -, h⟩ := Result.bind_ok.mp h
  obtain ⟨key, hk, h⟩ := Result.bind_ok.mp h
  dsimp only at h
  split at h
  · rename_i cached hc
    cases h
    refine ⟨fun _ e he => ?_, fun _ => ⟨key, hk, Or.inl (by rw [hc]; rfl)⟩⟩
    obtain ⟨q, -, rfl⟩ := List.mem_map.mp he
    exact (cachedResponse_frame cached key).2.1.symm
  · rename_i hc
    obtain ⟨outcome, hr, h⟩ := Result.bind_ok.mp h
    obtain ⟨response', hresp, h⟩ := Result.bind_ok.mp h
    obtain ⟨final, hrun, ho⟩ := Result.bind_ok.mp hr
    have hrun : (engine.executor request key guard).runState = .ok final := hrun
    cases h
    cases ho
    have hout : response.outcome = (engine.executor request key guard).overallOutcome final :=
      (respond_frame hresp).2
    rw [hout]
    refine Iff.trans ⟨?_, fun hu => ⟨key, hk, Or.inr ⟨final, hrun, hu⟩⟩⟩ (uniformRun_iff hrun)
    intro hrep
    obtain ⟨key', hk', hcase⟩ := hrep
    rw [hk] at hk'
    cases hk'
    rcases hcase with hhit | ⟨final', hrun', hu⟩
    · rw [hc] at hhit
      cases hhit
    · rw [hrun] at hrun'
      cases hrun'
      exact hu

/-- Deciding a request again while the entry its first decision left is live re-serves the
decision; the reported outcome of each question is the first one's exactly when the first
decision was a hit itself or its run was uniform. -/
theorem redecide_outcomes_iff {engine first second : DecisionEngine} {request : DecisionRequest}
    {lookupAt insertAt lookupAgain insertAgain : Nat}
    {guard guardAgain : GuardPoint → EngineResult Unit}
    {response responseAgain : DecisionResponse} {report reportAgain : RunReport}
    {cache : DecisionCache CacheKey DecisionResponse}
    (hfirst : engine.decideWithReport request lookupAt insertAt guard =
      .ok (first, response, report))
    (hkept : ∀ key, engine.keyOf (CacheKeyBuilder.normalizedRequest request)
      engine.liveIdentity = .ok key → cache.live lookupAgain key ∧
        cache.stored key = first.cache.stored key)
    (hsecond : { engine with cache }.decideWithReport request lookupAgain insertAgain guardAgain =
      .ok (second, responseAgain, reportAgain)) :
    reportAgain.cacheHit = true ∧ SameDecision responseAgain response ∧
      (reportAgain.outcomes = report.outcomes ↔
        RepeatsOutcomes engine request lookupAt guard) := by
  obtain ⟨key, entry, hk, hs, hsame, hids, -⟩ := decideWithReport_leaves hfirst
  obtain ⟨hlive, hcache⟩ := hkept key hk
  obtain ⟨hresp, hhit, hout⟩ :=
    decideWithReport_of_live { engine with cache } hsecond hk hlive (hcache.trans hs)
  have hcached := cachedResponse_sameDecision entry key
  refine ⟨hhit, ?_, ?_⟩
  · rw [hresp]
    exact ⟨hcached.answers.trans hsame.answers.symm, hcached.outcome.trans hsame.outcome.symm,
      hcached.confidence.trans hsame.confidence.symm,
      hcached.escalation.trans hsame.escalation.symm⟩
  · rw [hout, repeatsOutcomes_iff hfirst, hsame.outcome]
    exact outcomes_eq_perQuestion_iff hids

end DecisionEngine

end Replay

section Sample

attribute [local instance] plainStd

open DecisionEngine

/-- Decide the questions with an engine, then again with the cache the first decision left. -/
def decideTwice (questions : List DecisionQuestion)
    (h : questions.isEmpty = false := by exact Eq.refl false) :
    EngineResult ((DecisionEngine × DecisionResponse × RunReport) ×
      (DecisionEngine × DecisionResponse × RunReport)) := do
  let request := Sample.request questions escalatingPolicy h
  let first ← certainEngine.decideWithReport request 0 0 fun _ => .ok ()
  let second ← { certainEngine with cache := first.1.cache }.decideWithReport request 1 1
    fun _ => .ok ()
  pure (first, second)

/-- Two questions with different outcomes: the second report gives both the combined one. -/
theorem redecide_outcomes_iff_pair :
    ∃ first second,
      decideTwice [Sample.choice "q" ["a", "b"], Sample.boolean "r"] = .ok (first, second) ∧
      second.2.2.cacheHit = true ∧ SameDecision second.2.1 first.2.1 ∧
      first.2.2.outcomes.map Prod.snd = [.accept, .escalate] ∧
      ¬ RepeatsOutcomes certainEngine
        (Sample.request [Sample.choice "q" ["a", "b"], Sample.boolean "r"] escalatingPolicy) 0
        fun _ => .ok () := by
  obtain ⟨⟨first, second⟩, h⟩ := Result.ok_of_isSome (by decide +kernel :
    (decideTwice [Sample.choice "q" ["a", "b"], Sample.boolean "r"]).toOption.isSome = true)
  have hlive : ((decideTwice [Sample.choice "q" ["a", "b"], Sample.boolean "r"]).toOption.map
      fun p => (CacheInner.isExpired (p.1.1.cache.inner.slots.get? 0) p.1.1.cache.config.ttl 1,
        p.1.2.2.outcomes.map Prod.snd, p.2.2.2.outcomes.map Prod.snd)) =
      some (false, [.accept, .escalate], [.escalate, .escalate]) := by decide +kernel
  refine ⟨first, second, h, ?_⟩
  rw [h] at hlive
  obtain ⟨hlive, hout⟩ := Prod.mk.inj (Option.some.inj hlive)
  obtain ⟨houtFirst, houtSecond⟩ := Prod.mk.inj hout
  obtain ⟨first', hfirst, h⟩ := Result.bind_ok.mp h
  obtain ⟨second', hsecond, h⟩ := Result.bind_ok.mp h
  cases h
  obtain ⟨hhit, hsame, hiff⟩ := redecide_outcomes_iff hfirst (fun key hk => by
    cases hk
    exact ⟨hlive, rfl⟩) hsecond
  refine ⟨hhit, hsame, houtFirst, fun hrepeats => ?_⟩
  rw [hiff.mpr hrepeats, houtFirst] at houtSecond
  exact absurd houtSecond (by decide)

/-- The accepted choice is reported as escalated the second time, as the Boolean question is. -/
theorem redecide_outcomes_differ :
    ∃ first second,
      decideTwice [Sample.choice "q" ["a", "b"], Sample.boolean "r"] = .ok (first, second) ∧
      second.2.2.cacheHit = true ∧
      first.2.2.outcomes.map Prod.snd = [.accept, .escalate] ∧
      second.2.2.outcomes.map Prod.snd = [.escalate, .escalate] := by
  obtain ⟨⟨first, second⟩, h⟩ := Result.ok_of_isSome (by decide +kernel :
    (decideTwice [Sample.choice "q" ["a", "b"], Sample.boolean "r"]).toOption.isSome = true)
  have hout : ((decideTwice [Sample.choice "q" ["a", "b"], Sample.boolean "r"]).toOption.map
      fun p => (p.2.2.2.cacheHit, p.1.2.2.outcomes.map Prod.snd,
        p.2.2.2.outcomes.map Prod.snd)) =
      some (true, [.accept, .escalate], [.escalate, .escalate]) := by decide +kernel
  rw [h] at hout
  obtain ⟨hhit, hout⟩ := Prod.mk.inj (Option.some.inj hout)
  obtain ⟨hfirst, hsecond⟩ := Prod.mk.inj hout
  exact ⟨first, second, h, hhit, hfirst, hsecond⟩

end Sample

end OpenCodifier
