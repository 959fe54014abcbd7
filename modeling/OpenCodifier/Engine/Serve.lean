import OpenCodifier.Engine.Accepted
import OpenCodifier.Engine.Levels
set_option autoImplicit false

namespace OpenCodifier

section Cache

universe u v

variable {κ : Type u} {α : Type v} [LinearOrder κ] {cache : DecisionCache κ α} {now : Nat}
  {key k : κ} {x : α}

theorem CacheInner.evictWhileFull_get? {maxEntries : Nat} {slot : Slot α} (turns : Nat)
    {inner : CacheInner κ α}
    (h : (inner.evictWhileFull maxEntries turns).slots.get? k = some slot) :
    inner.slots.get? k = some slot := by
  induction turns generalizing inner with
  | zero => exact h
  | succ turns ih =>
    simp only [evictWhileFull] at h
    split at h
    · split at h
      · exact h
      · exact (OrdMap.get?_retain_some.mp (ih h)).1
    · exact h

theorem DecisionCache.stored_of_get (h : (cache.get now key).1.stored k = some x) :
    cache.stored k = some x := by
  obtain ⟨slot, hslot, rfl⟩ := Option.map_eq_some_iff.mp h
  unfold get at hslot
  dsimp only at hslot
  split at hslot
  · exact Option.map_eq_some_iff.mpr ⟨slot, (OrdMap.get?_retain_some.mp hslot).1, rfl⟩
  · cases hs : cache.inner.slots.get? key with
    | none =>
      rw [hs] at hslot
      exact Option.map_eq_some_iff.mpr ⟨slot, hslot, rfl⟩
    | some found =>
      rw [hs] at hslot
      simp only [OrdMap.get?_insert] at hslot
      split at hslot
      · rename_i hk
        subst hk
        cases hslot
        exact Option.map_eq_some_iff.mpr ⟨found, hs, rfl⟩
      · exact Option.map_eq_some_iff.mpr ⟨slot, hslot, rfl⟩

theorem DecisionCache.stored_of_hit (h : (cache.get now key).2 = some x) :
    cache.stored key = some x :=
  stored_of_get (get_hit_stored h)

theorem DecisionCache.stored_of_insert {y : α} (h : (cache.insert now key y).stored k = some x) :
    (k = key ∧ x = y) ∨ cache.stored k = some x := by
  obtain ⟨slot, hslot, rfl⟩ := Option.map_eq_some_iff.mp h
  simp only [insert, OrdMap.get?_insert] at hslot
  split at hslot
  · rename_i hk
    cases hslot
    exact Or.inl ⟨hk, rfl⟩
  · have hkept := CacheInner.evictWhileFull_get? _ hslot
    exact Or.inr (Option.map_eq_some_iff.mpr
      ⟨slot, (OrdMap.get?_retain_some.mp hkept).1, rfl⟩)

end Cache

variable [RustStd]

/-- When a request is decided: the clock at the lookup and at the insertion, and the guard. -/
structure Moment where
  lookupAt : Nat
  insertAt : Nat
  guard : GuardPoint → EngineResult Unit

namespace DecisionEngine

/-- A failed decision may still have looked into the cache. -/
def afterFailure (engine : DecisionEngine) (request : DecisionRequest) (lookupAt : Nat) :
    DecisionEngine :=
  match engine.validate request,
    engine.keyOf (CacheKeyBuilder.normalizedRequest request) engine.liveIdentity with
  | .ok _, .ok key => { engine with cache := (engine.cache.get lookupAt key).1 }
  | _, _ => engine

def decide (engine : DecisionEngine) (request : DecisionRequest) (moment : Moment) :
    DecisionEngine × EngineResult DecisionResponse :=
  match engine.decideWithReport request moment.lookupAt moment.insertAt moment.guard with
  | .ok (engine', response, _) => (engine', .ok response)
  | .error e => (engine.afterFailure request moment.lookupAt, .error e)

def serve (engine : DecisionEngine) (calls : List (DecisionRequest × Moment)) : DecisionEngine :=
  calls.foldl (fun engine call => (engine.decide call.1 call.2).1) engine

def keyFor (engine : DecisionEngine) (request : DecisionRequest) : EngineResult CacheKey :=
  engine.keyOf (CacheKeyBuilder.normalizedRequest request) engine.liveIdentity

section Steps

variable {engine : DecisionEngine} {request : DecisionRequest} {moment : Moment}

theorem afterFailure_cases (engine : DecisionEngine) (request : DecisionRequest)
    (moment : Moment) :
    engine.afterFailure request moment.lookupAt = engine ∨
      ∃ key, engine.keyFor request = .ok key ∧ engine.afterFailure request moment.lookupAt =
        { engine with cache := (engine.cache.get moment.lookupAt key).1 } := by
  unfold afterFailure
  split
  · rename_i key _ hk
    exact Or.inr ⟨key, hk, rfl⟩
  · exact Or.inl rfl

/-- A decision that succeeds is a hit, or a run whose response is stored. -/
theorem decide_ok {response : DecisionResponse}
    (h : (engine.decide request moment).2 = .ok response) :
    ∃ key, engine.validate request = .ok () ∧ engine.keyFor request = .ok key ∧
      ((∃ cached, (engine.cache.get moment.lookupAt key).2 = some cached ∧
        response = cachedResponse cached key ∧ (engine.decide request moment).1 =
          { engine with cache := (engine.cache.get moment.lookupAt key).1 }) ∨
      ∃ final, (engine.executor request key moment.guard).runState = .ok final ∧
        engine.respond request ((engine.executor request key moment.guard).assemble final) =
          .ok response ∧ (engine.decide request moment).1 =
          { engine with
            cache := (engine.cache.get moment.lookupAt key).1.insert moment.insertAt key
              response }) := by
  unfold decide at h ⊢
  split at h
  · rename_i engine' response' report hreport
    cases h
    obtain ⟨⟨⟩, hvalid, hreport⟩ := Result.bind_ok.mp hreport
    obtain ⟨key, hk, hreport⟩ := Result.bind_ok.mp hreport
    refine ⟨key, hvalid, hk, ?_⟩
    dsimp only at hreport
    split at hreport
    · rename_i cached hc
      cases hreport
      exact Or.inl ⟨cached, hc, rfl, rfl⟩
    · obtain ⟨outcome, hrun, hreport⟩ := Result.bind_ok.mp hreport
      obtain ⟨response', hresp, hreport⟩ := Result.bind_ok.mp hreport
      obtain ⟨final, hfinal, houtcome⟩ := Result.bind_ok.mp hrun
      cases hreport
      cases houtcome
      exact Or.inr ⟨final, hfinal, hresp, rfl⟩
  · cases h

/-- A decision touches nothing of the engine but its cache, and what is stored afterwards was
stored before or is the response, under the key of the request. -/
theorem decide_frame (engine : DecisionEngine) (request : DecisionRequest) (moment : Moment) :
    (∃ cache, (engine.decide request moment).1 = { engine with cache }) ∧
      ∀ key entry, (engine.decide request moment).1.cache.stored key = some entry →
        engine.cache.stored key = some entry ∨
          (engine.keyFor request = .ok key ∧ (engine.decide request moment).2 = .ok entry) := by
  cases h : (engine.decide request moment).2 with
  | ok response =>
    obtain ⟨key, -, hk, ⟨cached, -, -, hengine⟩ | ⟨final, -, -, hengine⟩⟩ := decide_ok h
    · rw [hengine]
      exact ⟨⟨_, rfl⟩, fun key' entry hs => Or.inl (DecisionCache.stored_of_get hs)⟩
    · rw [hengine]
      refine ⟨⟨_, rfl⟩, fun key' entry hs => ?_⟩
      rcases DecisionCache.stored_of_insert hs with ⟨rfl, rfl⟩ | hs
      · exact Or.inr ⟨hk, rfl⟩
      · exact Or.inl (DecisionCache.stored_of_get hs)
  | error e =>
    have hengine : (engine.decide request moment).1 =
        engine.afterFailure request moment.lookupAt := by
      unfold decide at h ⊢
      split at h
      · cases h
      · rfl
    rw [hengine]
    rcases afterFailure_cases engine request moment with
      hsame | ⟨key, -, hprobed⟩
    · rw [hsame]
      exact ⟨⟨_, rfl⟩, fun key' entry hs => Or.inl hs⟩
    · rw [hprobed]
      exact ⟨⟨_, rfl⟩, fun key' entry hs => Or.inl (DecisionCache.stored_of_get hs)⟩

end Steps

section Served

/-- Among the requests asked, only those with one canonical form share a key. -/
def KeysIdentify (engine : DecisionEngine) (asked : Set DecisionRequest) : Prop :=
  ∀ r ∈ asked, ∀ r' ∈ asked, ∀ key, engine.keyFor r = .ok key → engine.keyFor r' = .ok key →
    CacheKeyBuilder.normalizedRequest r = CacheKeyBuilder.normalizedRequest r'

def RunsGive (engine : DecisionEngine) (P : DecisionRequest → List DecisionAnswer → Prop) : Prop :=
  ∀ request key guard final response, engine.validate request = .ok () →
    (engine.executor request key guard).runState = .ok final →
    engine.respond request ((engine.executor request key guard).assemble final) = .ok response →
      P request response.answers

def CachedGive (engine : DecisionEngine) (P : DecisionRequest → List DecisionAnswer → Prop)
    (asked : Set DecisionRequest) : Prop :=
  ∀ key entry, engine.cache.stored key = some entry → ∃ r ∈ asked, engine.keyFor r = .ok key ∧
    P r entry.answers

/-- What holds of an engine while it serves requests among those asked. -/
structure Serves (engine : DecisionEngine) (P : DecisionRequest → List DecisionAnswer → Prop)
    (asked : Set DecisionRequest) : Prop where
  runs : engine.RunsGive P
  keys : engine.KeysIdentify asked
  cached : engine.CachedGive P asked

/-- Requests with one canonical form have the property alike. -/
def Canonically (P : DecisionRequest → List DecisionAnswer → Prop) : Prop :=
  ∀ r r' answers, CacheKeyBuilder.normalizedRequest r = CacheKeyBuilder.normalizedRequest r' →
    P r answers → P r' answers

variable {engine : DecisionEngine} {P : DecisionRequest → List DecisionAnswer → Prop}
  {asked : Set DecisionRequest} {request : DecisionRequest} {moment : Moment}

/-- Whatever the cache holds for requests already asked, a decision has the property. -/
theorem Serves.answers (h : engine.Serves P asked) (hP : Canonically P) (hr : request ∈ asked)
    {response : DecisionResponse} (hd : (engine.decide request moment).2 = .ok response) :
    P request response.answers := by
  obtain ⟨key, hvalid, hkey, ⟨cached, hhit, rfl, -⟩ | ⟨final, hrun, hresp, -⟩⟩ := decide_ok hd
  · obtain ⟨r, hasked, hrkey, hentry⟩ := h.cached key cached (DecisionCache.stored_of_hit hhit)
    rw [(cachedResponse_frame cached key).1]
    exact hP r request _ (h.keys r hasked request hr key hrkey hkey) hentry
  · exact h.runs _ _ _ _ _ hvalid hrun hresp

theorem Serves.decide (h : engine.Serves P asked) (hP : Canonically P) (hr : request ∈ asked)
    (moment : Moment) : (engine.decide request moment).1.Serves P asked := by
  obtain ⟨⟨cache, hengine⟩, hstored⟩ := decide_frame engine request moment
  refine ⟨?_, ?_, fun key entry hs => ?_⟩
  · rw [hengine]
    exact h.runs
  · rw [hengine]
    exact h.keys
  · have hkeyFor : ∀ r, (engine.decide request moment).1.keyFor r = engine.keyFor r := by
      intro r
      rw [hengine]
      rfl
    rcases hstored key entry hs with hs | ⟨hkey, hresp⟩
    · obtain ⟨r, hasked, hrkey, hentry⟩ := h.cached key entry hs
      exact ⟨r, hasked, (hkeyFor r).trans hrkey, hentry⟩
    · exact ⟨request, hr, (hkeyFor request).trans hkey, h.answers hP hr hresp⟩

theorem Serves.serve (h : engine.Serves P asked) (hP : Canonically P)
    {calls : List (DecisionRequest × Moment)} (hcalls : ∀ call ∈ calls, call.1 ∈ asked) :
    (engine.serve calls).Serves P asked := by
  induction calls generalizing engine with
  | nil => exact h
  | cons call calls ih =>
    exact ih (h.decide hP (hcalls call List.mem_cons_self) call.2)
      fun c hc => hcalls c (List.mem_cons_of_mem _ hc)

theorem serves_of_fresh (hruns : engine.RunsGive P) (hk : engine.KeysIdentify asked)
    (hfresh : ∀ key, engine.cache.stored key = none) : engine.Serves P asked where
  runs := hruns
  keys := hk
  cached := by
    intro key entry hs
    rw [hfresh] at hs
    cases hs

end Served

section Order

def LevelOrdered (engine : DecisionEngine) : Prop :=
  engine.classifier.LevelOrdered ∧ ∀ rung ∈ engine.fallbacks, rung.classifier.LevelOrdered

structure AnswersInOrder (request : DecisionRequest) (answers : List DecisionAnswer) : Prop where
  levels : ∀ answer ∈ answers, LevelsInOrder request answer
  distinct : (answers.map DecisionAnswer.questionId).Nodup

/-- Every cached response answers a request that was asked, in level order. -/
def CachedInOrder (engine : DecisionEngine) (asked : Set DecisionRequest) : Prop :=
  ∀ key entry, engine.cache.stored key = some entry → ∃ r ∈ asked, engine.keyFor r = .ok key ∧
    AnswersInOrder r entry.answers

variable {engine : DecisionEngine} {asked : Set DecisionRequest} {request : DecisionRequest}
  {moment : Moment}

omit [RustStd] in
theorem mem_normalizedRequest_score (request : DecisionRequest) (q : ScoreQuestion) :
    .score q ∈ (CacheKeyBuilder.normalizedRequest request).questions ↔
      .score q ∈ request.questions := by
  unfold CacheKeyBuilder.normalizedRequest
  split
  · rename_i normalized h
    rw [(DecisionRequest.new_ok h).2.1, List.mem_map]
    constructor
    · rintro ⟨question, hq, hnormal⟩
      cases question with
      | choice choice => cases hnormal
      | boolean _ => cases hnormal
      | score _ =>
        cases hnormal
        exact hq
    · exact fun hq => ⟨.score q, hq, rfl⟩
  · rfl

omit [RustStd] in
theorem levelsInOrder_congr {r : DecisionRequest} {answer : DecisionAnswer}
    (h : CacheKeyBuilder.normalizedRequest r = CacheKeyBuilder.normalizedRequest request)
    (ha : LevelsInOrder r answer) : LevelsInOrder request answer := by
  intro id expected level d confidence hanswer
  obtain ⟨q, hq, hrest⟩ := ha id expected level d confidence hanswer
  refine ⟨q, ?_, hrest⟩
  rwa [← mem_normalizedRequest_score, ← h, mem_normalizedRequest_score]

omit [RustStd] in
theorem filterMap_questionId_sublist {f : DecisionQuestion → Option DecisionAnswer}
    (questions : List DecisionQuestion)
    (hf : ∀ q ∈ questions, ∀ a, f q = some a → a.questionId = q.id) :
    ((questions.filterMap f).map DecisionAnswer.questionId).Sublist
      (questions.map DecisionQuestion.id) := by
  induction questions with
  | nil => simp
  | cons q questions ih =>
    have ih := ih fun q hq => hf q (List.mem_cons_of_mem _ hq)
    cases ha : f q with
    | none =>
      rw [List.filterMap_cons_none ha]
      exact ih.cons _
    | some a =>
      rw [List.filterMap_cons_some ha, List.map_cons, List.map_cons,
        hf q List.mem_cons_self a ha]
      exact ih.cons_cons _

omit [RustStd] in
theorem shippedAnswer_some {final : RunState} {question : DecisionQuestion}
    {answer : DecisionAnswer} (h : Executor.shippedAnswer final question = some answer) :
    ∃ d, final.decisions.get? question.id = some d ∧ answer = d.answer := by
  obtain ⟨d, hd, h⟩ := Option.bind_eq_some_iff.mp h
  split at h
  · cases h
  · exact ⟨d, hd, (Option.some.inj h).symm⟩

theorem respond_answers {key : CacheKey} {guard : GuardPoint → EngineResult Unit}
    {final : RunState} {response : DecisionResponse}
    (hvalid : engine.validate request = .ok ())
    (hrun : (engine.executor request key guard).runState = .ok final)
    (hresp : engine.respond request ((engine.executor request key guard).assemble final) =
      .ok response) :
    (∀ answer ∈ response.answers, ∃ q d, final.decisions.get? q = some d ∧ answer = d.answer) ∧
      (response.answers.map DecisionAnswer.questionId).Nodup := by
  have hkeyed : Executor.Keyed final := by
    obtain ⟨steps, -, ht⟩ := Executor.runState_trace hrun
    exact (Executor.keyed_trace ht).2
  rw [(respond_frame hresp).1]
  constructor
  · intro answer ha
    obtain ⟨question, -, hship⟩ := List.mem_filterMap.mp ha
    exact ⟨question.id, shippedAnswer_some hship⟩
  · refine (questionIds_nodup_of_validate hvalid).sublist
      (filterMap_questionId_sublist _ fun question _ answer hship => ?_)
    obtain ⟨d, hd, rfl⟩ := shippedAnswer_some hship
    exact (hkeyed _ d hd).2

theorem runsGive_inOrder (ho : engine.LevelOrdered) : engine.RunsGive AnswersInOrder := by
  intro request key guard final response hvalid hrun hresp
  have hex : (engine.executor request key guard).LevelOrdered := ho
  obtain ⟨hstored, hdistinct⟩ := respond_answers hvalid hrun hresp
  refine ⟨fun answer ha => ?_, hdistinct⟩
  obtain ⟨q, d, hd, rfl⟩ := hstored answer ha
  exact (Executor.decidesInOrder_run hex hrun q d hd).2

omit [RustStd] in
theorem canonically_inOrder : Canonically AnswersInOrder := by
  intro r r' answers hsame h
  exact ⟨fun answer ha => levelsInOrder_congr hsame (h.levels answer ha), h.distinct⟩

structure ServesInOrder (engine : DecisionEngine) (asked : Set DecisionRequest) : Prop where
  ordered : engine.LevelOrdered
  keys : engine.KeysIdentify asked
  cached : engine.CachedInOrder asked

theorem ServesInOrder.serves (h : engine.ServesInOrder asked) :
    engine.Serves AnswersInOrder asked :=
  ⟨runsGive_inOrder h.ordered, h.keys, h.cached⟩

theorem ServesInOrder.answers (h : engine.ServesInOrder asked) (hr : request ∈ asked)
    {response : DecisionResponse} (hd : (engine.decide request moment).2 = .ok response) :
    AnswersInOrder request response.answers :=
  h.serves.answers canonically_inOrder hr hd

theorem ServesInOrder.decide (h : engine.ServesInOrder asked) (hr : request ∈ asked)
    (moment : Moment) : (engine.decide request moment).1.ServesInOrder asked := by
  have hnext := h.serves.decide canonically_inOrder hr moment
  obtain ⟨⟨cache, hengine⟩, -⟩ := decide_frame engine request moment
  refine ⟨?_, hnext.keys, hnext.cached⟩
  rw [hengine]
  exact h.ordered

theorem ServesInOrder.serve (h : engine.ServesInOrder asked)
    {calls : List (DecisionRequest × Moment)} (hcalls : ∀ call ∈ calls, call.1 ∈ asked) :
    (engine.serve calls).ServesInOrder asked := by
  induction calls generalizing engine with
  | nil => exact h
  | cons call calls ih =>
    exact ih (h.decide (hcalls call List.mem_cons_self) call.2)
      fun c hc => hcalls c (List.mem_cons_of_mem _ hc)

theorem servesInOrder_of_fresh (ho : engine.LevelOrdered) (hk : engine.KeysIdentify asked)
    (hfresh : ∀ key, engine.cache.stored key = none) : engine.ServesInOrder asked :=
  ⟨ho, hk, (serves_of_fresh (runsGive_inOrder ho) hk hfresh).cached⟩

end Order

end DecisionEngine

end OpenCodifier
