import OpenCodifier.Engine.Narrowing
import OpenCodifier.Engine.Sample
import OpenCodifier.Lib.Loop
set_option autoImplicit false

namespace OpenCodifier

def Action.write (s : State) : Action → State
  | .setFact fact value => s.withFact fact value
  | _ => s

def Action.exclusion : Action → Option (Option String × Option String)
  | .excludeCandidate id tag => some (id, tag)
  | _ => none

def Action.pin : Action → Option (Option String × Option String)
  | .includeCandidate id tag => some (id, tag)
  | _ => none

def Rule.write (r : Rule) (s : State) : State := r.then'.foldl Action.write s

/-- The rules that fire on a state with their positions, and the state after the last. -/
def sequential (rules : List Rule) (s : State) : List (Rule × Nat) × State :=
  Guarded.run (fun entry s => entry.1.when'.Matches s) (fun entry s => entry.1.write s) s
    rules.zipIdx

section Selection

variable [RustStd]

def picked (questions : List DecisionQuestion) (question : QuestionId) (candidate : CandidateId)
    (selector : Option String × Option String) : Bool :=
  questions.any fun q =>
    match q with
    | .choice choice =>
      choice.id = question && choice.candidates.any fun c =>
        c.id = candidate && matchesSelector c selector.1 selector.2
    | _ => false

def Rule.selects (r : Rule) (way : Action → Option (Option String × Option String))
    (questions : List DecisionQuestion) (question : QuestionId) (candidate : CandidateId) : Bool :=
  r.then'.any fun a => (way a).any (picked questions question candidate)

def Rule.excludes (r : Rule) := r.selects Action.exclusion

def Rule.pins (r : Rule) := r.selects Action.pin

/-- Some action of the rule that selects in this way matches the candidate. -/
def Rule.matches' (r : Rule) (way : Action → Option (Option String × Option String))
    (c : Candidate) : Bool :=
  r.then'.any fun a => (way a).any fun selector => matchesSelector c selector.1 selector.2

section Collecting

variable {questions : List DecisionQuestion} {question : QuestionId} {candidate : CandidateId}

omit [RustStd] in
theorem mem_bucket {m : OrdMap QuestionId (List CandidateId)} {q : QuestionId} {c : CandidateId} :
    candidate ∈ ((m.insert q (if c ∈ (m.get? q).getD [] then (m.get? q).getD []
        else (m.get? q).getD [] ++ [c])).get? question).getD [] ↔
      candidate ∈ (m.get? question).getD [] ∨ q = question ∧ c = candidate := by
  rw [OrdMap.get?_insert]
  by_cases hq : question = q
  · subst hq
    rw [if_pos rfl, Option.getD_some]
    split
    · rename_i hc
      exact ⟨Or.inl, fun h => h.elim (fun h => h) fun h => h.2 ▸ hc⟩
    · simp [eq_comm]
  · simp [hq, Ne.symm hq]

theorem mem_collectQuestion {id tag : Option String} {choice : ChoiceQuestion}
    {m : OrdMap QuestionId (List CandidateId)} :
    candidate ∈ ((collectQuestion id tag m choice).get? question).getD [] ↔
      candidate ∈ (m.get? question).getD [] ∨ choice.id = question ∧
        ∃ c ∈ choice.candidates, c.id = candidate ∧ matchesSelector c id tag = true := by
  unfold collectQuestion
  generalize choice.candidates = candidates
  induction candidates generalizing m with
  | nil => simp
  | cons c candidates ih =>
    rw [List.foldl_cons, ih]
    by_cases hm : matchesSelector c id tag = true
    · rw [if_pos hm, mem_bucket]
      simp only [List.mem_cons, exists_eq_or_imp, hm, and_true]
      tauto
    · simp [hm]

theorem mem_collectMatches {id tag : Option String} {m : OrdMap QuestionId (List CandidateId)} :
    candidate ∈ ((collectMatches questions id tag m).get? question).getD [] ↔
      candidate ∈ (m.get? question).getD [] ∨ picked questions question candidate (id, tag) := by
  unfold collectMatches picked
  induction questions generalizing m with
  | nil => simp
  | cons q questions ih =>
    rw [List.foldl_cons, ih]
    cases q with
    | choice choice =>
      simp only [mem_collectQuestion, List.any_cons, Bool.or_eq_true, Bool.and_eq_true,
        decide_eq_true_eq, List.any_eq_true, or_assoc]
    | boolean _ => simp
    | score _ => simp

def collectAll (way : Action → Option (Option String × Option String))
    (questions : List DecisionQuestion) (actions : List Action)
    (m : OrdMap QuestionId (List CandidateId)) : OrdMap QuestionId (List CandidateId) :=
  actions.foldl (fun m a => (way a).elim m fun selector =>
    collectMatches questions selector.1 selector.2 m) m

theorem mem_collectAll {way : Action → Option (Option String × Option String)}
    {actions : List Action} {m : OrdMap QuestionId (List CandidateId)} :
    candidate ∈ ((collectAll way questions actions m).get? question).getD [] ↔
      candidate ∈ (m.get? question).getD [] ∨
        actions.any fun a => (way a).any (picked questions question candidate) := by
  unfold collectAll
  induction actions generalizing m with
  | nil => simp
  | cons a actions ih =>
    rw [List.foldl_cons, ih, List.any_cons, Bool.or_eq_true, ← or_assoc]
    cases way a with
    | none => simp
    | some selector => simp only [Option.elim_some, mem_collectMatches, Option.any_some]

end Collecting

section Accounts

variable {questions : List DecisionQuestion}

/-- What a report says of a run so far: writing its facts into the state leaves the working state,
and it names the fired rules and has their exclusions and pins. -/
structure Accounts (questions : List DecisionQuestion) (s : State) (fired : List (Rule × Nat))
    (acc : State × RuleReport) : Prop where
  replayed : acc.2.applyTo s = acc.1
  named : acc.2.fired = fired.map fun entry => ruleName entry.2 entry.1
  excluded : ∀ question candidate, candidate ∈ acc.2.exclusionsFor question ↔
    fired.any (fun entry => entry.1.excludes questions question candidate) = true
  pinned : ∀ question candidate, candidate ∈ acc.2.pinsFor question ↔
    fired.any (fun entry => entry.1.pins questions question candidate) = true

theorem accounts_start (s : State) : Accounts questions s [] (s, {}) where
  replayed := rfl
  named := rfl
  excluded := by simp [RuleReport.exclusionsFor]
  pinned := by simp [RuleReport.pinsFor]

theorem foldl_applyAction (actions : List Action) (acc : State × RuleReport) :
    let acc' := actions.foldl (applyAction questions) acc
    acc'.1 = actions.foldl Action.write acc.1 ∧ acc'.2.fired = acc.2.fired ∧
      acc'.2.excluded = collectAll Action.exclusion questions actions acc.2.excluded ∧
      acc'.2.pinned = collectAll Action.pin questions actions acc.2.pinned := by
  induction actions generalizing acc with
  | nil => exact ⟨rfl, rfl, rfl, rfl⟩
  | cons a actions ih =>
    obtain ⟨hstate, hfired, hexcluded, hpinned⟩ := ih (applyAction questions acc a)
    refine ⟨hstate.trans ?_, hfired.trans ?_, hexcluded.trans ?_, hpinned.trans ?_⟩
    all_goals cases a <;> rfl

theorem applyTo_applyAction {s : State} {acc : State × RuleReport} (h : acc.2.applyTo s = acc.1)
    (a : Action) : (applyAction questions acc a).2.applyTo s = (applyAction questions acc a).1 := by
  cases a with
  | setFact fact value =>
    change (acc.2.factsSet ++ [(fact, value)]).foldl (fun s f => s.withFact f.1 f.2) s = _
    rw [List.foldl_append]
    exact congrArg (State.withFact · fact value) h
  | excludeCandidate id tag => exact h
  | includeCandidate id tag => exact h

theorem applyTo_foldl {s : State} (actions : List Action) {acc : State × RuleReport}
    (h : acc.2.applyTo s = acc.1) :
    (actions.foldl (applyAction questions) acc).2.applyTo s =
      (actions.foldl (applyAction questions) acc).1 := by
  induction actions generalizing acc with
  | nil => exact h
  | cons a actions ih => exact ih (applyTo_applyAction h a)

/-- A rule whose condition holds fires, and the report accounts for it. -/
theorem accounts_fire {s : State} {fired : List (Rule × Nat)} {acc : State × RuleReport}
    (h : Accounts questions s fired acc) {entry : Rule × Nat}
    (hfire : entry.1.when'.Matches acc.1 = true) :
    Accounts questions s (fired ++ [entry]) (applyRule questions acc entry) ∧
      (applyRule questions acc entry).1 = entry.1.write acc.1 := by
  have hrule : applyRule questions acc entry = entry.1.then'.foldl (applyAction questions)
      (acc.1, { acc.2 with fired := acc.2.fired ++ [ruleName entry.2 entry.1] }) := if_pos hfire
  obtain ⟨hstate, hfired, hexcluded, hpinned⟩ := @foldl_applyAction _ questions entry.1.then'
    (acc.1, { acc.2 with fired := acc.2.fired ++ [ruleName entry.2 entry.1] })
  rw [hrule]
  refine ⟨⟨applyTo_foldl _ h.replayed, ?_, fun question candidate => ?_,
    fun question candidate => ?_⟩, hstate⟩
  · rw [hfired, h.named, List.map_append, List.map_singleton]
  · rw [RuleReport.exclusionsFor, hexcluded, mem_collectAll, List.any_append, Bool.or_eq_true,
      ← h.excluded]
    simp [RuleReport.exclusionsFor, Rule.excludes, Rule.selects]
  · rw [RuleReport.pinsFor, hpinned, mem_collectAll, List.any_append, Bool.or_eq_true, ← h.pinned]
    simp [RuleReport.pinsFor, Rule.pins, Rule.selects]

/-- The report of an evaluation accounts for the sequential run. -/
theorem evaluate_accounts (engine : RuleEngine) (s : State) (questions : List DecisionQuestion) :
    Accounts questions s (sequential engine.rules s).1
      ((sequential engine.rules s).2, engine.evaluate s questions) := by
  have hrun := @Guarded.foldl_accounts State (Rule × Nat) (State × RuleReport)
    (fun entry s => entry.1.when'.Matches s) (fun entry s => entry.1.write s)
    (applyRule questions) Prod.fst (Accounts questions s)
    (fun fired acc entry h hskip => by
      have hsame : applyRule questions acc entry = acc := if_neg (by simp [hskip])
      rw [hsame]
      exact ⟨h, rfl⟩)
    (fun fired acc entry h hfire => accounts_fire h hfire) [] (s, {}) (accounts_start s)
    engine.rules.zipIdx
  have hstate : (sequential engine.rules s).2 =
      (engine.rules.zipIdx.foldl (applyRule questions) (s, {})).1 := hrun.2.symm
  rw [hstate]
  exact hrun.1

end Accounts

section Survivors

variable {questions : List DecisionQuestion}

theorem picked_eq (hids : (questions.map DecisionQuestion.id).Nodup) {choice : ChoiceQuestion}
    (hchoice : .choice choice ∈ questions) {c : Candidate} (hc : c ∈ choice.candidates)
    (selector : Option String × Option String) :
    picked questions choice.id c.id selector = matchesSelector c selector.1 selector.2 := by
  rw [Bool.eq_iff_iff]
  constructor
  · intro h
    obtain ⟨q, hq, hpick⟩ := List.any_eq_true.mp h
    cases q with
    | choice other =>
      rw [Bool.and_eq_true, decide_eq_true_eq, List.any_eq_true] at hpick
      obtain ⟨hid, c', hc', hmatch⟩ := hpick
      cases List.inj_on_of_nodup_map hids hq hchoice hid
      rw [Bool.and_eq_true, decide_eq_true_eq] at hmatch
      cases List.inj_on_of_nodup_map choice.unique hc' hc hmatch.1
      exact hmatch.2
    | boolean _ => cases hpick
    | score _ => cases hpick
  · intro h
    refine List.any_eq_true.mpr ⟨_, hchoice, ?_⟩
    rw [Bool.and_eq_true, decide_eq_true_eq, List.any_eq_true]
    exact ⟨rfl, c, hc, by simp [h]⟩

theorem selects_eq (hids : (questions.map DecisionQuestion.id).Nodup) {choice : ChoiceQuestion}
    (hchoice : .choice choice ∈ questions) {c : Candidate} (hc : c ∈ choice.candidates) (r : Rule)
    (way : Action → Option (Option String × Option String)) :
    r.selects way questions choice.id c.id = r.matches' way c := by
  have hpicked : picked questions choice.id c.id = fun selector =>
      matchesSelector c selector.1 selector.2 := funext (picked_eq hids hchoice hc)
  rw [Rule.selects, hpicked, Rule.matches']

/-- The survivors of a choice question: those that no fired rule excludes or some fired rule
pins. -/
theorem surviving_eq {s : State} {fired : List (Rule × Nat)} {final : State} {report : RuleReport}
    (h : Accounts questions s fired (final, report)) (choice : ChoiceQuestion) :
    (NarrowingOutcome.apply choice (report.exclusionsFor choice.id)
        (report.pinsFor choice.id)).surviving =
      choice.candidates.filter fun c =>
        !(fired.any fun entry => entry.1.excludes questions choice.id c.id) ||
          fired.any fun entry => entry.1.pins questions choice.id c.id := by
  rw [NarrowingOutcome.apply_surviving]
  refine List.filter_congr fun c _ => ?_
  have hexcluded : c.id ∈ report.exclusionsFor choice.id ↔ _ := h.excluded choice.id c.id
  have hpinned : c.id ∈ report.pinsFor choice.id ↔ _ := h.pinned choice.id c.id
  simp only [hexcluded, hpinned, Bool.not_and, decide_not, Bool.not_not, Bool.decide_eq_true]

/-- The report of the rules, written into the state, leaves the state of the sequential run and
names its fired rules; the candidates that the filter leaves are, in declared order and once each,
those that no fired rule excludes or some fired rule pins. A selector picks by id, and where the
questions have different ids it picks the candidates it matches. -/
theorem evaluate_sequential (engine : RuleEngine) (s : State) (request : DecisionRequest) :
    let report := engine.evaluate s request.questions
    let run := sequential engine.rules s
    report.applyTo s = run.2 ∧
    report.fired = run.1.map (fun entry => ruleName entry.2 entry.1) ∧
    ∀ choice, .choice choice ∈ request.questions →
      let surviving := (NarrowingOutcome.apply choice (report.exclusionsFor choice.id)
        (report.pinsFor choice.id)).surviving
      (surviving.map Candidate.id).Nodup ∧
      (surviving = choice.candidates.filter fun c =>
        !(run.1.any fun entry => entry.1.excludes request.questions choice.id c.id) ||
          run.1.any fun entry => entry.1.pins request.questions choice.id c.id) ∧
      (request.questionIds.Nodup → surviving = choice.candidates.filter fun c =>
        !(run.1.any fun entry => entry.1.matches' Action.exclusion c) ||
          run.1.any fun entry => entry.1.matches' Action.pin c) := by
  have haccounts := evaluate_accounts engine s request.questions
  refine ⟨haccounts.replayed, haccounts.named, fun choice hchoice => ?_⟩
  have hsurviving := surviving_eq haccounts choice
  refine ⟨?_, hsurviving, fun hids => ?_⟩
  · rw [hsurviving]
    exact (List.filter_sublist.map _).nodup choice.unique
  · rw [hsurviving]
    refine List.filter_congr fun c hc => ?_
    simp only [Rule.excludes, Rule.pins, selects_eq hids hchoice hc]

end Survivors

end Selection

section Sample

attribute [local instance] plainStd

/-- The first rule takes billing away and sets a fact; the second, which reads it, takes refund away
and pins billing. -/
def vipRules : RuleEngine :=
  ⟨[{ name := none, when' := .not (.factExists "vip")
      then' := [.excludeCandidate (some "billing") none, .setFact "vip" (.boolean true)] },
    { name := none, when' := .factExists "vip"
      then' := [.excludeCandidate (some "refund") none, .includeCandidate (some "billing") none] }],
    by decide⟩

def routingChoice : ChoiceQuestion :=
  (Sample.newChoice "route" ["billing", "refund", "login"]).toOption.get (by decide)

theorem evaluate_sequential_vip :
    let request := Sample.request [.choice routingChoice] .defaults
    let report := vipRules.evaluate (.fromText "ticket") request.questions
    ((NarrowingOutcome.apply routingChoice (report.exclusionsFor routingChoice.id)
      (report.pinsFor routingChoice.id)).surviving.map fun c => c.id.text) =
        ["billing", "login"] := by
  intro request report
  obtain ⟨-, -, hlaw⟩ := evaluate_sequential vipRules (.fromText "ticket") request
  obtain ⟨-, -, hids⟩ := hlaw routingChoice (by decide)
  rw [hids (by decide)]
  decide +kernel

end Sample

end OpenCodifier
