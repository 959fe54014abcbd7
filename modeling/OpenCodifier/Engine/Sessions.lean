import OpenCodifier.Engine.Ephemeral
import OpenCodifier.Engine.Interruption
import OpenCodifier.Engine.Serve
set_option autoImplicit false

namespace OpenCodifier

section Cache

universe u v

variable {κ : Type u} {α : Type v} [LinearOrder κ]

theorem DecisionCache.stored_clear (cache : DecisionCache κ α) (key : κ) :
    cache.clear.stored key = none := rfl

theorem DecisionCache.stored_new {config : CacheConfig} {cache : DecisionCache κ α}
    (h : new config = .ok cache) (key : κ) : cache.stored key = none := by
  unfold stored
  rw [(new_ok h).1]
  rfl

theorem DecisionCache.get_of_absent {cache : DecisionCache κ α} {now : Nat} {key : κ}
    (h : cache.stored key = none) : (cache.get now key).2 = none := by
  cases hget : (cache.get now key).2 with
  | none => rfl
  | some response =>
    rw [stored_of_hit hget] at h
    cases h

theorem DecisionCache.get_of_insert (cache : DecisionCache κ α) (now : Nat) (key : κ) (response : α) :
    ((cache.insert now key response).get now key).2 = some response := by
  have hlive : (cache.insert now key response).live now key := by
    simp [live, insert, OrdMap.get?_insert_self, CacheInner.isExpired, cache.ttl_pos.ne']
  rw [get_of_live hlive, insert_stored]

end Cache

section Service

variable [RustStd]

def Moment.Timed (moment : Moment) : Prop :=
  ∃ deadline started checks, moment.guard = Executor.guardOf deadline started checks

namespace DecisionEngine

/-- The checks of a request and its key, before the cache is asked. -/
def requestKey (engine : DecisionEngine) (request : DecisionRequest) : EngineResult CacheKey := do
  engine.validate request
  engine.keyFor request

/-- What a miss is answered with: the run of the request, turned into a response. -/
def answer (engine : DecisionEngine) (request : DecisionRequest) (key : CacheKey)
    (guard : GuardPoint → EngineResult Unit) (order : Executor.FinishOrder) :
    EngineResult DecisionResponse := do
  let outcome ← (engine.executor request key guard).runThreaded order
  engine.respond request outcome

/-- The decision of a request on its own: no cache, no deadline, one node after the other. -/
def alone (engine : DecisionEngine) (request : DecisionRequest) :
    EngineResult DecisionResponse := do
  let key ← engine.requestKey request
  let outcome ← (engine.executor request key fun _ => .ok ()).run
  engine.respond request outcome

/-- A call that missed the cache and is being run. -/
structure Call where
  request : DecisionRequest
  key : CacheKey

/-- What the callers of one engine share, and what became of their calls. -/
structure Service where
  cache : DecisionCache CacheKey DecisionResponse
  asked : List DecisionRequest
  running : List Call
  replies : List (DecisionRequest × EngineResult DecisionResponse)

def service (engine : DecisionEngine) : Service := ⟨engine.cache, [], [], []⟩

/-- The calls of any number of threads on one engine, interleaved at the two places where a call
locks the cache: its lookup and its insertion. -/
inductive Step (engine : DecisionEngine) (s : Service) : Service → Prop
  | refuse {request : DecisionRequest} {e : EngineError} : engine.requestKey request = .error e →
      Step engine s
        { s with asked := request :: s.asked, replies := (request, .error e) :: s.replies }
  | hit {request : DecisionRequest} {key : CacheKey} {cached : DecisionResponse} {now : Nat} :
      engine.requestKey request = .ok key → (s.cache.get now key).2 = some cached →
      Step engine s
        { s with
          cache := (s.cache.get now key).1
          asked := request :: s.asked
          replies := (request, .ok (cachedResponse cached key)) :: s.replies }
  | miss {request : DecisionRequest} {key : CacheKey} {now : Nat} :
      engine.requestKey request = .ok key → (s.cache.get now key).2 = none →
      Step engine s
        { s with
          cache := (s.cache.get now key).1
          asked := request :: s.asked
          running := ⟨request, key⟩ :: s.running }
  | finish {call : Call} {before after : List Call} {deadline : Executor.Deadline}
      {started now : Nat} {checks : GuardPoint → Executor.Check} {order : Executor.FinishOrder}
      {response : DecisionResponse} : s.running = before ++ call :: after →
      engine.answer call.request call.key (Executor.guardOf deadline started checks) order =
        .ok response →
      Step engine s
        { s with
          cache := s.cache.insert now call.key response
          running := before ++ after
          replies := (call.request, .ok response) :: s.replies }
  | fail {call : Call} {before after : List Call} {deadline : Executor.Deadline}
      {started : Nat} {checks : GuardPoint → Executor.Check} {order : Executor.FinishOrder}
      {e : EngineError} : s.running = before ++ call :: after →
      engine.answer call.request call.key (Executor.guardOf deadline started checks) order =
        .error e →
      Step engine s
        { s with
          running := before ++ after
          replies := (call.request, .error e) :: s.replies }
  | clear : Step engine s { s with cache := s.cache.clear }

def Interrupted : EngineError → Prop
  | .cancelled => True
  | .timeout _ _ => True
  | _ => False

/-- How a decision is served: to the call that made it, not marked as cached, or to any call under
the same key as a hit, marked as one and otherwise the same. -/
inductive Served (engine : DecisionEngine) (asking request : DecisionRequest)
    (own : DecisionResponse) : DecisionResponse → Prop
  | decided : request = asking → own.metrics.cacheHit = false → Served engine asking request own own
  | hit {key : CacheKey} : engine.keyFor asking = .ok key →
      SameDecision (cachedResponse own key) own →
      (cachedResponse own key).metrics = { own.metrics with cacheHit := true } →
      Served engine asking request own (cachedResponse own key)

/-- The reply serves the decision, on its own, of a request asked under the same key, or is the
error of the request's own decision, or an interruption. -/
def Justified (engine : DecisionEngine) (asked : List DecisionRequest)
    (reply : DecisionRequest × EngineResult DecisionResponse) : Prop :=
  match reply.2 with
  | .ok response => ∃ request ∈ asked, engine.keyFor request = engine.keyFor reply.1 ∧
      ∃ own, engine.alone request = .ok own ∧ engine.Served reply.1 request own response
  | .error e => engine.alone reply.1 = .error e ∨ Interrupted e

/-- What holds of the callers' shared state in every interleaving. -/
structure Honest (engine : DecisionEngine) (s : Service) : Prop where
  cached : ∀ key entry, s.cache.stored key = some entry → ∃ request ∈ s.asked,
    engine.keyFor request = .ok key ∧ engine.alone request = .ok entry
  running : ∀ call ∈ s.running, call.request ∈ s.asked ∧ engine.requestKey call.request = .ok call.key
  replied : ∀ reply ∈ s.replies, engine.Justified s.asked reply
  accounted : s.asked.Perm (s.running.map Call.request ++ s.replies.map Prod.fst)

section Runs

variable {engine : DecisionEngine} {s t : Service} {request : DecisionRequest} {key : CacheKey}

/-- A run under a deadline decides as the request's own decision does, or is interrupted. -/
theorem answer_cases (hkey : engine.requestKey request = .ok key) (deadline : Executor.Deadline)
    (started : Nat) (checks : GuardPoint → Executor.Check) (order : Executor.FinishOrder) :
    engine.answer request key (Executor.guardOf deadline started checks) order =
        engine.alone request ∨
      ∃ e, Interrupted e ∧
        engine.answer request key (Executor.guardOf deadline started checks) order = .error e := by
  have halone : engine.alone request =
      (engine.executor request key fun _ => .ok ()).run >>= engine.respond request := by
    unfold alone
    rw [hkey]
    rfl
  have hrun := (engine.executor request key fun _ => .ok ()).runThreaded_timed deadline started
    checks order
  change (engine.executor request key (Executor.guardOf deadline started checks)).runThreaded
    order = (engine.executor request key fun _ => .ok ()).run ∨ _ at hrun
  unfold answer
  rcases hrun with h | ⟨point, -, h⟩ | ⟨point, -, h⟩
  · exact Or.inl (by rw [h, halone])
  · exact Or.inr ⟨.cancelled, trivial, congrArg (· >>= engine.respond request) h⟩
  · exact Or.inr ⟨.timeout _ _, trivial, congrArg (· >>= engine.respond request) h⟩

theorem alone_ok {own : DecisionResponse} (h : engine.alone request = .ok own) :
    own.metrics.cacheHit = false ∧ ∀ report ∈ own.escalation, report.validate = .ok () := by
  obtain ⟨key, -, h⟩ := Result.bind_ok.mp h
  obtain ⟨outcome, hrun, hresponse⟩ := Result.bind_ok.mp h
  obtain ⟨final, -, hfinal⟩ := Result.bind_ok.mp hrun
  cases hfinal
  obtain ⟨hmetrics, hreport⟩ := respond_ok hresponse
  exact ⟨by rw [hmetrics]; rfl, hreport⟩

theorem keyFor_of_requestKey (h : engine.requestKey request = .ok key) : engine.keyFor request = .ok key := by
  obtain ⟨u, -, h⟩ := Result.bind_ok.mp h
  exact h

theorem Justified.mono {asked asked' : List DecisionRequest}
    {reply : DecisionRequest × EngineResult DecisionResponse} (hsub : asked ⊆ asked')
    (h : engine.Justified asked reply) : engine.Justified asked' reply := by
  obtain ⟨request, result⟩ := reply
  cases result with
  | error e => exact h
  | ok response =>
    obtain ⟨r, hr, hrest⟩ := h
    exact ⟨r, hsub hr, hrest⟩

theorem honest_service (hfresh : ∀ key, engine.cache.stored key = none) :
    engine.Honest engine.service where
  cached := by
    intro key entry hs
    rw [show engine.service.cache.stored key = none from hfresh key] at hs
    cases hs
  running := by simp [service]
  replied := by simp [service]
  accounted := .nil

theorem Honest.begin (h : engine.Honest s) (hkey : engine.requestKey request = .ok key)
    {cache : DecisionCache CacheKey DecisionResponse}
    (hcache : ∀ k entry, cache.stored k = some entry → s.cache.stored k = some entry) :
    engine.Honest
      { s with
        cache
        asked := request :: s.asked
        running := ⟨request, key⟩ :: s.running } := by
  have hsub : s.asked ⊆ request :: s.asked := List.subset_cons_self _ _
  refine ⟨fun k entry hs => ?_, fun call hc => ?_, fun reply hr => ?_, ?_⟩
  · obtain ⟨r, hr, hrest⟩ := h.cached k entry (hcache k entry hs)
    exact ⟨r, hsub hr, hrest⟩
  · rcases List.mem_cons.mp hc with rfl | hc
    · exact ⟨List.mem_cons_self, hkey⟩
    · exact ⟨hsub (h.running call hc).1, (h.running call hc).2⟩
  · exact (h.replied reply hr).mono hsub
  · exact h.accounted.cons request

theorem Honest.reply (h : engine.Honest s) {call : Call} {before after : List Call}
    (hrunning : s.running = before ++ call :: after)
    {cache : DecisionCache CacheKey DecisionResponse}
    {result : EngineResult DecisionResponse}
    (hcache : ∀ k entry, cache.stored k = some entry →
      (k = call.key ∧ engine.alone call.request = .ok entry) ∨
        s.cache.stored k = some entry)
    (hresult : engine.Justified s.asked (call.request, result)) :
    engine.Honest
      { s with
        cache
        running := before ++ after
        replies := (call.request, result) :: s.replies } := by
  have hcall : call ∈ s.running := by simp [hrunning]
  obtain ⟨hasked, hkey⟩ := h.running call hcall
  refine ⟨fun k entry hs => ?_, fun c hc => h.running c ?_, fun reply hr => ?_, ?_⟩
  · rcases hcache k entry hs with ⟨rfl, hown⟩ | hs
    · exact ⟨call.request, hasked, keyFor_of_requestKey hkey, hown⟩
    · exact h.cached k entry hs
  · rw [hrunning]
    simp only [List.mem_append, List.mem_cons] at hc ⊢
    tauto
  · rcases List.mem_cons.mp hr with rfl | hr
    · exact hresult
    · exact h.replied reply hr
  · refine h.accounted.trans ?_
    simp only [hrunning, List.map_append, List.map_cons, List.append_assoc, List.cons_append]
    exact List.Perm.append_left _ List.perm_middle.symm

theorem Honest.step (h : engine.Honest s) (hstep : engine.Step s t) : engine.Honest t := by
  cases hstep with
  | @refuse request e hrefused =>
    have hsub : s.asked ⊆ request :: s.asked := List.subset_cons_self _ _
    have halone : engine.alone request = .error e := by
      unfold alone
      rw [hrefused]
      rfl
    refine ⟨fun key entry hs => ?_, fun call hc => ?_, fun reply hr => ?_, ?_⟩
    · obtain ⟨r, hr, hrest⟩ := h.cached key entry hs
      exact ⟨r, hsub hr, hrest⟩
    · exact ⟨hsub (h.running call hc).1, (h.running call hc).2⟩
    · rcases List.mem_cons.mp hr with rfl | hr
      · exact Or.inl halone
      · exact (h.replied reply hr).mono hsub
    · exact (h.accounted.cons request).trans List.perm_middle.symm
  | @hit request key cached now hkey hhit =>
    -- a hit is a call that begins and is answered at once
    have hkept : ∀ k entry, (s.cache.get now key).1.stored k = some entry →
        s.cache.stored k = some entry := fun k entry => DecisionCache.stored_of_get
    have hrunning : Call.mk request key :: s.running = [] ++ ⟨request, key⟩ :: s.running := rfl
    refine (h.begin hkey hkept).reply hrunning (fun k entry hs => Or.inr hs) ?_
    obtain ⟨r, hr, hsame, hown⟩ := h.cached key cached (DecisionCache.stored_of_hit hhit)
    exact ⟨r, List.mem_cons_of_mem _ hr, hsame.trans (keyFor_of_requestKey hkey).symm, cached, hown,
      .hit (keyFor_of_requestKey hkey) (cachedResponse_sameDecision cached key)
        (cachedResponse_metrics key (alone_ok hown).2)⟩
  | @miss request key now hkey hmiss =>
    exact h.begin hkey fun k entry => DecisionCache.stored_of_get
  | @finish call before after deadline started now checks order response hrunning hanswer =>
    have hcall : call ∈ s.running := by simp [hrunning]
    obtain ⟨hasked, hkey⟩ := h.running call hcall
    have halone : engine.alone call.request = .ok response := by
      rcases answer_cases hkey deadline started checks order with hsame | ⟨e, -, hcut⟩
      · rw [← hsame, hanswer]
      · rw [hanswer] at hcut
        cases hcut
    refine h.reply hrunning (fun k entry hs => ?_)
      ⟨call.request, hasked, rfl, response, halone, .decided rfl (alone_ok halone).1⟩
    refine (DecisionCache.stored_of_insert hs).imp_left fun hnew => ?_
    obtain ⟨rfl, rfl⟩ := hnew
    exact ⟨rfl, halone⟩
  | @fail call before after deadline started checks order e hrunning hanswer =>
    have hcall : call ∈ s.running := by simp [hrunning]
    refine h.reply hrunning (fun k entry hs => Or.inr hs) ?_
    rcases answer_cases (h.running call hcall).2 deadline started checks order with
      hsame | ⟨e', hcut, he⟩
    · exact Or.inl (hsame ▸ hanswer)
    · rw [hanswer] at he
      cases he
      exact Or.inr hcut
  | clear =>
    refine ⟨fun key entry hs => ?_, h.running, h.replied, h.accounted⟩
    rw [DecisionCache.stored_clear] at hs
    cases hs

/-- Every interleaving on a new engine is honest. -/
theorem honest_of_runs {setup : EngineSetup} {config : EngineConfig} {classifier : Classifier}
    {verifier : Option Classifier} {fallbacks : List Rung}
    (hnew : newWithRungs setup config classifier verifier fallbacks = .ok engine)
    (hruns : Relation.ReflTransGen engine.Step engine.service s) : engine.Honest s := by
  induction hruns with
  | refl => exact honest_service fun key => DecisionCache.stored_new (newWithRungs_ok hnew).2.2.1 key
  | tail _ hstep ih => exact ih.step hstep

/-- Whatever calls threads make on a new engine, under whatever deadlines and cancellations and
in whatever order their lookups and insertions interleave with each other and with clearings of
the cache, every call is running or has one reply, each reply that decides is what a request
asked under the same key is decided on its own, marked as cached when it comes from the cache, and
each that refuses refuses as the request's own decision does unless the call was interrupted. -/
theorem sessions_honest {setup : EngineSetup} {config : EngineConfig} {classifier : Classifier}
    {verifier : Option Classifier} {fallbacks : List Rung}
    (hnew : newWithRungs setup config classifier verifier fallbacks = .ok engine)
    (hruns : Relation.ReflTransGen engine.Step engine.service s) :
    s.asked.Perm (s.running.map Call.request ++ s.replies.map Prod.fst) ∧
      ∀ reply ∈ s.replies, engine.Justified s.asked reply :=
  have hhonest := honest_of_runs hnew hruns
  ⟨hhonest.accounted, hhonest.replied⟩

/-- Threads that finish in the order they were started in. -/
def inOrder : Executor.FinishOrder := ⟨fun _ nodes => nodes, fun _ _ => .refl _⟩

theorem decide_refused {e : EngineError} {moment : Moment} (h : engine.requestKey request = .error e) :
    engine.decide request moment = (engine, .error e) := by
  unfold decide decideWithReport afterFailure
  rcases Result.bind_error.mp h with hvalid | ⟨u, hvalid, hkey⟩
  · simp only [hvalid]
    rfl
  · change engine.keyOf _ _ = _ at hkey
    simp only [hvalid, hkey]
    rfl

section Admitted

variable {moment : Moment} (h : engine.requestKey request = .ok key)

include h

theorem decide_hit {cached : DecisionResponse}
    (hhit : (engine.cache.get moment.lookupAt key).2 = some cached) :
    engine.decide request moment =
      ({ engine with cache := (engine.cache.get moment.lookupAt key).1 },
        .ok (cachedResponse cached key)) := by
  obtain ⟨u, hvalid, hkey⟩ := Result.bind_ok.mp h
  change engine.keyOf _ _ = _ at hkey
  unfold decide decideWithReport
  simp only [hvalid, hkey]
  dsimp only [bind, Except.bind]
  rw [hhit]
  rfl

theorem decide_answered {response : DecisionResponse}
    (hmiss : (engine.cache.get moment.lookupAt key).2 = none)
    (hanswer : engine.answer request key moment.guard inOrder = .ok response) :
    engine.decide request moment =
      ({ engine with
          cache := (engine.cache.get moment.lookupAt key).1.insert moment.insertAt key response },
        .ok response) := by
  obtain ⟨u, hvalid, hkey⟩ := Result.bind_ok.mp h
  change engine.keyOf _ _ = _ at hkey
  obtain ⟨outcome, hrun, hresp⟩ := Result.bind_ok.mp hanswer
  rw [Executor.runThreaded_eq] at hrun
  let probed : DecisionEngine := { engine with cache := (engine.cache.get moment.lookupAt key).1 }
  have hrun : (probed.executor request key moment.guard).run = .ok outcome := hrun
  have hresp : probed.respond request outcome = .ok response := hresp
  unfold decide decideWithReport
  simp only [hvalid, hkey]
  dsimp only [bind, Except.bind]
  rw [hmiss]
  simp only [probed, hrun, hresp]
  rfl

theorem decide_failed {e : EngineError}
    (hmiss : (engine.cache.get moment.lookupAt key).2 = none)
    (hanswer : engine.answer request key moment.guard inOrder = .error e) :
    engine.decide request moment =
      ({ engine with cache := (engine.cache.get moment.lookupAt key).1 }, .error e) := by
  obtain ⟨u, hvalid, hkey⟩ := Result.bind_ok.mp h
  change engine.keyOf _ _ = _ at hkey
  let probed : DecisionEngine := { engine with cache := (engine.cache.get moment.lookupAt key).1 }
  unfold answer at hanswer
  rw [Executor.runThreaded_eq] at hanswer
  change ((probed.executor request key moment.guard).run >>= probed.respond request) = _ at hanswer
  unfold decide decideWithReport afterFailure
  simp only [hvalid, hkey]
  dsimp only [bind, Except.bind]
  rw [hmiss]
  rcases Result.bind_error.mp hanswer with hrun | ⟨outcome, hrun, hresp⟩
  · simp only [probed, hrun]
  · simp only [probed, hrun, hresp]

end Admitted

/-- A decision of one caller is an interleaving: the call begins and gets its reply. -/
theorem decide_steps (engine : DecisionEngine) (s : Service) (request : DecisionRequest)
    {moment : Moment} (hmoment : moment.Timed) :
    let decided := { engine with cache := s.cache }.decide request moment
    Relation.ReflTransGen engine.Step s
      { s with
        cache := decided.1.cache
        asked := request :: s.asked
        replies := (request, decided.2) :: s.replies } := by
  obtain ⟨lookupAt, insertAt, guard⟩ := moment
  obtain ⟨deadline, started, checks, rfl⟩ := hmoment
  let present : DecisionEngine := { engine with cache := s.cache }
  let moment : Moment := ⟨lookupAt, insertAt, Executor.guardOf deadline started checks⟩
  change Relation.ReflTransGen engine.Step s
    { s with
      cache := (present.decide request moment).1.cache
      asked := request :: s.asked
      replies := (request, (present.decide request moment).2) :: s.replies }
  cases hkey : engine.requestKey request with
  | error e =>
    have hpresent : present.requestKey request = .error e := hkey
    rw [decide_refused hpresent]
    exact .single (.refuse hkey)
  | ok key =>
    have hpresent : present.requestKey request = .ok key := hkey
    cases hprobe : (s.cache.get lookupAt key).2 with
    | some cached =>
      rw [decide_hit hpresent hprobe]
      exact .single (.hit hkey hprobe)
    | none =>
      have hmissed := Step.miss hkey hprobe
      cases hanswer : engine.answer request key moment.guard inOrder with
      | ok response =>
        rw [decide_answered hpresent hprobe hanswer]
        exact (Relation.ReflTransGen.single hmissed).tail
          (@Step.finish _ engine _ ⟨request, key⟩ [] s.running deadline started insertAt checks
            inOrder response rfl hanswer)
      | error e =>
        rw [decide_failed hpresent hprobe hanswer]
        exact (Relation.ReflTransGen.single hmissed).tail
          (@Step.fail _ engine _ ⟨request, key⟩ [] s.running deadline started checks inOrder e rfl
            hanswer)

end Runs

end DecisionEngine

end Service

section Sample

attribute [local instance] plainStd

open DecisionEngine

def sessionSetup : EngineSetup where
  parallelism := 2
  identity := ⟨1, "primary", 0, "0.1.0", "none"⟩
  cache := .default
  keyOf := fun _ _ => .ok 0
  serializedLen := fun _ => 0

def sessionEngine : EngineResult DecisionEngine :=
  newWithRungs sessionSetup (.new mixedGraph) (Sample.scripted "primary" "q" Sample.certain) none []

def sessionRequest : DecisionRequest := Sample.request [Sample.choice "q" ["a", "b"]] .defaults

/-- The threads of a wave finish last started first. -/
def lastFirst : Executor.FinishOrder := ⟨fun _ nodes => nodes.reverse, fun _ => List.reverse_perm⟩

def check (cancelled : Bool) : GuardPoint → Executor.Check := fun _ => ⟨cancelled, 0, 0⟩

def sessionAnswer (engine : DecisionEngine) (cancelled : Bool) : EngineResult DecisionResponse :=
  engine.answer sessionRequest 0 (Executor.guardOf (.after 0 1) 0 (check cancelled)) lastFirst

/-- Two threads miss the same entry; one of them decides, the other one is cancelled, and a third
call is a hit. -/
theorem sessions_honest_pair : ∃ (engine : DecisionEngine) (s : Service) (response : DecisionResponse),
    sessionEngine = .ok engine ∧ s.asked = [sessionRequest, sessionRequest, sessionRequest] ∧
      s.running = [] ∧ (sessionRequest, .ok response) ∈ s.replies ∧
      (sessionRequest, .ok (cachedResponse response 0)) ∈ s.replies ∧
      s.asked.Perm (s.running.map Call.request ++ s.replies.map Prod.fst) ∧
      ∀ reply ∈ s.replies, engine.Justified s.asked reply := by
  obtain ⟨engine, hnew⟩ := Result.ok_of_isSome
    (by decide +kernel : sessionEngine.toOption.isSome = true)
  have hkey : sessionEngine.toOption.bind (fun e => (e.requestKey sessionRequest).toOption) =
      some 0 := by decide +kernel
  have hdecided : (sessionEngine.toOption.bind fun e =>
      (sessionAnswer e false).toOption).isSome = true := by decide +kernel
  have hcut : (sessionEngine.toOption.bind fun e =>
      (sessionAnswer e true).toOption).isSome = false := by decide +kernel
  rw [hnew] at hkey hdecided hcut
  have hkey := Result.toOption_eq_some.mp hkey
  obtain ⟨response, hdecided⟩ := Result.ok_of_isSome hdecided
  obtain ⟨e, hcut⟩ : ∃ e, sessionAnswer engine true = .error e := by
    cases h : sessionAnswer engine true with
    | error e => exact ⟨e, rfl⟩
    | ok r =>
      change (sessionAnswer engine true).toOption.isSome = false at hcut
      rw [h] at hcut
      cases hcut
  have hempty := DecisionCache.stored_new (newWithRungs_ok hnew).2.2.1 0
  have hstill : (engine.cache.get 0 0).1.stored 0 = none := by
    rw [Option.eq_none_iff_forall_not_mem] at hempty ⊢
    exact fun r hr => hempty r (DecisionCache.stored_of_get hr)
  have hmissed : (engine.cache.get 0 0).2 = none := DecisionCache.get_of_absent hempty
  have hmissedToo : ((engine.cache.get 0 0).1.get 0 0).2 = none :=
    DecisionCache.get_of_absent hstill
  have hhit : ((((engine.cache.get 0 0).1.get 0 0).1.insert 0 0 response).get 0 0).2 =
      some response := DecisionCache.get_of_insert _ 0 0 response
  let call : Call := ⟨sessionRequest, 0⟩
  let settled : Service := ⟨((engine.cache.get 0 0).1.get 0 0).1.insert 0 0 response,
    [sessionRequest, sessionRequest], [], [(sessionRequest, .error e),
      (sessionRequest, .ok response)]⟩
  have hsettled : Relation.ReflTransGen engine.Step engine.service settled :=
    (((Relation.ReflTransGen.refl.tail (.miss hkey hmissed)).tail (.miss hkey hmissedToo)).tail
      (@Step.finish _ engine _ call [] [call] _ _ 0 (check false) lastFirst response rfl
        hdecided)).tail
      (@Step.fail _ engine _ call [] [] _ _ (check true) lastFirst e rfl hcut)
  have hruns := hsettled.tail (@Step.hit _ engine settled sessionRequest 0 response 0 hkey hhit)
  exact ⟨engine, _, response, hnew, rfl, rfl,
    List.mem_cons_of_mem _ (List.mem_cons_of_mem _ List.mem_cons_self), List.mem_cons_self,
    sessions_honest hnew hruns⟩

end Sample

end OpenCodifier
