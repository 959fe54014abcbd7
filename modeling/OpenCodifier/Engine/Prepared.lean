import OpenCodifier.Engine.Pruning
set_option autoImplicit false

namespace OpenCodifier.Executor

section Orders

def ordersBy (q : QuestionId) : NodeOutput → List (List CandidateId)
  | .retrieved prunes => (prunes.filter fun prune => prune.1 = q).map fun prune => prune.2.2
  | .reranked orders => (orders.filter fun order => order.1 = q).map Prod.snd
  | _ => []

/-- What the last retrieve or rerank node of some merges made of a question's order. -/
def latestOrder (q : QuestionId) (steps : List MergeStep) : Option (List CandidateId) :=
  (steps.flatMap fun st => ordersBy q st.output.output).getLast?

theorem latestOrder_append (q : QuestionId) (steps : List MergeStep) (st : MergeStep) :
    latestOrder q (steps ++ [st]) =
      ((ordersBy q st.output.output).getLast?).or (latestOrder q steps) := by
  rw [latestOrder, latestOrder, List.flatMap_append, List.flatMap_singleton, List.getLast?_append]

theorem reranked_retrieved (dropped : List (QuestionId × List CandidateId × List CandidateId))
    (s : RunState) :
    (dropped.foldl mergeRetrieved s).reranked =
      dropped.foldl (fun m prune => m.insert prune.1 prune.2.2) s.reranked := by
  induction dropped generalizing s with
  | nil => rfl
  | cons prune dropped ih => exact ih _

variable [RustStd] {ex : Executor}

theorem get?_reranked_merge {s : RunState} {spec : NodeSpec} {e : NodeExecution} (q : QuestionId) :
    (ex.mergeExecution s spec e).reranked.get? q =
      ((ordersBy q e.output).getLast?).or (s.reranked.get? q) := by
  obtain ⟨output, entries⟩ := e
  rw [mergeExecution]
  cases output with
  | scored scores =>
    have hkept : ∀ (scores : List LexicalScores) (s : RunState),
        (scores.foldl mergeScored s).reranked = s.reranked := by
      intro scores
      induction scores with
      | nil => exact fun _ => rfl
      | cons scored scores ih => exact fun s => ih _
    simp only [merge, hkept, ordersBy, List.getLast?_nil, Option.none_or]
  | retrieved dropped =>
    change (dropped.foldl mergeRetrieved _).reranked.get? q = _
    rw [reranked_retrieved]
    exact OrdMap.get?_foldl_insert_last Prod.fst (fun prune => prune.2.2) q dropped _
  | reranked orders =>
    change (orders.foldl (fun m e => m.insert e.1 e.2) s.reranked).get? q = _
    exact OrdMap.get?_foldl_insert_last Prod.fst Prod.snd q orders _
  | branched fired =>
    have hkept : (ex.merge { s with trace := s.trace ++ entries } spec (.branched fired)).reranked =
        s.reranked := merge_branched RunState.reranked (fun _ _ => rfl) fired
    rw [hkept]
    rfl
  | _ => rfl

/-- In every state of a run the order of a question is the one merged last. -/
theorem reranked_latest {steps : List MergeStep} {snap s : RunState}
    (h : Waves.Trace ex.machine steps snap s) (q : QuestionId) :
    s.reranked.get? q = latestOrder q steps := by
  induction h with
  | start => rfl
  | merge ht _ ih =>
    rw [latestOrder_append, ← ih]
    exact get?_reranked_merge q
  | commit _ ih => exact ih

end Orders

section Arranged

/-- The same candidates, those in an order by their first place in it and before the others, which
stay as they were. -/
structure Arranged (order : List CandidateId) (candidates arranged : List Candidate) : Prop where
  perm : arranged.Perm candidates
  ordered : arranged.Pairwise fun c c' => order.idxOf c.id ≤ order.idxOf c'.id
  others : (arranged.filter fun c => c.id ∉ order) = candidates.filter fun c => c.id ∉ order

instance (order : List CandidateId) : Std.Total (RunState.orderedBy order) :=
  ⟨fun _ _ => Nat.le_total _ _⟩

instance (order : List CandidateId) : IsTrans Candidate (RunState.orderedBy order) :=
  ⟨fun _ _ _ h h' => Nat.le_trans h h'⟩

theorem arranged_self (candidates : List Candidate) : Arranged [] candidates candidates :=
  ⟨List.Perm.refl _, List.pairwise_of_forall fun _ _ => Nat.le_refl _, rfl⟩

theorem arranged_sort (order : List CandidateId) (candidates : List Candidate) :
    Arranged order candidates (candidates.insertionSort (RunState.orderedBy order)) := by
  have hperm := List.perm_insertionSort (RunState.orderedBy order) candidates
  refine ⟨hperm, List.pairwise_insertionSort _ _, ?_⟩
  have hlast : ∀ c ∈ candidates.filter fun c => c.id ∉ order,
      order.idxOf c.id = order.length := fun c hc =>
    List.idxOf_eq_length (by simpa using (List.mem_filter.mp hc).2)
  -- the sort is stable, and candidates outside the order all have the last place
  have hpair : (candidates.filter fun c => c.id ∉ order).Pairwise (RunState.orderedBy order) :=
    List.pairwise_of_forall_mem_list fun c hc c' hc' => ((hlast c hc).trans (hlast c' hc').symm).le
  have hsub := (List.sublist_insertionSort hpair List.filter_sublist).filter fun c => c.id ∉ order
  rw [List.filter_filter] at hsub
  simp only [Bool.and_self] at hsub
  exact (hsub.eq_of_length (hperm.filter _).length_eq.symm).symm

theorem reorder_arranged (s : RunState) (q : QuestionId) (candidates : List Candidate) :
    Arranged ((s.reranked.get? q).getD []) candidates (s.reorder q candidates) := by
  unfold RunState.reorder
  cases s.reranked.get? q with
  | none => exact arranged_self candidates
  | some order => exact arranged_sort order candidates

end Arranged

section Preparing

def asWritten (c : Candidate) : String × String := (c.id.text, c.description)

/-- The abstain candidate of a policy, unless a candidate in play has its id. -/
def synthetic (policy : DecisionPolicy) (inPlay : List Candidate) : List (String × String) :=
  (policy.abstainCandidate.toList.filter fun a => a.id ∉ inPlay.map fun c => c.id.text).map
    fun a => (a.id, a.description)

/-- The question is prepared with exactly what is in play, arranged by the latest order, and the
abstain candidate behind it. -/
def Prepared (steps : List MergeStep) (s : RunState) (choice : ChoiceQuestion)
    (policy : DecisionPolicy) : Prop :=
  ∃ narrowed : ChoiceQuestion,
    s.prepareQuestion (.choice choice) policy.abstainCandidate = some (.choice narrowed) ∧
    narrowed.id = choice.id ∧ narrowed.text = choice.text ∧
    (narrowed.candidates.map Candidate.id).Nodup ∧
    ∃ arranged, Arranged ((latestOrder choice.id steps).getD []) (s.candidatesInPlay choice)
        arranged ∧
      narrowed.candidates.map asWritten =
        arranged.map asWritten ++ synthetic policy (s.candidatesInPlay choice)

/-- The abstain candidate's id is an identifier like those of the declared candidates. -/
def WellSpelled (policy : DecisionPolicy) : Prop :=
  ∀ a ∈ policy.abstainCandidate, validateId a.id = .ok ()

theorem candidate_new {id : String} (h : validateId id = .ok ()) (description : String) :
    Candidate.new id description = .ok ⟨⟨id, h⟩, description⟩ := by
  have hid := Ident.new_text (⟨id, h⟩ : CandidateId)
  rw [Candidate.new, hid]
  rfl

theorem id_valid_of_new {id description : String} {c : Candidate}
    (h : Candidate.new id description = .ok c) : validateId id = .ok () := by
  obtain ⟨ident, hid, -⟩ := Result.bind_ok.mp h
  rw [← Ident.new_ok hid]
  exact ident.valid

theorem withAbstain_some {policy : DecisionPolicy} (h : WellSpelled policy)
    {inPlay arranged : List Candidate} (hperm : arranged.Perm inPlay)
    (hunique : (inPlay.map Candidate.id).Nodup) :
    ∃ extra : List Candidate,
      RunState.withAbstain policy.abstainCandidate arranged = some (arranged ++ extra) ∧
        extra.map asWritten = synthetic policy inPlay ∧
        ((arranged ++ extra).map Candidate.id).Nodup := by
  have hself : (arranged.map Candidate.id).Nodup := (hperm.map _).nodup_iff.mpr hunique
  unfold WellSpelled at h
  unfold synthetic
  cases ha : policy.abstainCandidate with
  | none => exact ⟨[], by simp [RunState.withAbstain], by simp, by simpa using hself⟩
  | some a =>
    have hvalid := h a ha
    have hmem : a.id ∈ arranged.map (fun c => c.id.text) ↔ a.id ∈ inPlay.map fun c => c.id.text :=
      (hperm.map _).mem_iff
    have hany : (arranged.any fun c => c.id.text = a.id) = true ↔
        a.id ∈ arranged.map fun c => c.id.text := by simp
    rw [Option.toList_some, List.filter_cons]
    by_cases hin : a.id ∈ arranged.map fun c => c.id.text
    · rw [if_neg (by simpa using hmem.mp hin)]
      exact ⟨[], by simp [RunState.withAbstain, hany.mpr hin], rfl, by simpa using hself⟩
    · rw [if_pos (by simpa using hmem.not.mp hin)]
      refine ⟨[⟨⟨a.id, hvalid⟩, a.description⟩], ?_, rfl, ?_⟩
      · simp only [RunState.withAbstain, hany.not.mpr hin, candidate_new hvalid]
        rfl
      · rw [List.map_append, List.nodup_append']
        refine ⟨hself, List.nodup_singleton _, ?_⟩
        rintro id hid hnew
        obtain ⟨c, hc, rfl⟩ := List.mem_map.mp hid
        exact hin (List.mem_map.mpr ⟨c, hc, congrArg Ident.text (List.mem_singleton.mp hnew)⟩)

theorem withAbstain_none {policy : DecisionPolicy} (h : ¬ WellSpelled policy)
    (arranged : List Candidate) :
    RunState.withAbstain policy.abstainCandidate arranged = none := by
  simp only [WellSpelled, not_forall] at h
  obtain ⟨a, ha, hinvalid⟩ := h
  rw [Option.mem_def.mp ha, RunState.withAbstain, if_neg, Option.map_eq_none_iff]
  · cases hnew : Candidate.new a.id a.description with
    | error e => rfl
    | ok c => exact absurd (id_valid_of_new hnew) hinvalid
  · intro hany
    obtain ⟨c, -, hc⟩ := List.any_eq_true.mp hany
    rw [← of_decide_eq_true hc] at hinvalid
    exact hinvalid c.id.valid

variable [RustStd] {ex : Executor}

theorem filteredApart_of_trace {steps : List MergeStep} {snap s : RunState}
    (h : Waves.Trace ex.machine steps snap s) : FilteredApart s :=
  (h.invariant FilteredApart (fun _ _ ho => by cases ho)
    fun _ _ hp _ hb => filteredApart_after hp hb).2

/-- In every state of a run a choice question with a candidate in play is prepared with what is in
play, in the latest order, and the policy's abstain candidate, if and only if the id of that
candidate is an identifier. -/
theorem prepared_iff {steps : List MergeStep} {snap s : RunState}
    (h : Waves.Trace ex.machine steps snap s) {choice : ChoiceQuestion}
    (hplay : s.candidatesInPlay choice ≠ []) (policy : DecisionPolicy) :
    Prepared steps s choice policy ↔ WellSpelled policy := by
  have hapart := filteredApart_of_trace h
  have hperm := reorder_perm s choice.id (s.candidatesInPlay choice)
  constructor
  · rintro ⟨narrowed, hsome, -⟩
    by_contra hbad
    rw [prepareQuestion_eq hapart hplay, withAbstain_none hbad] at hsome
    cases hsome
  · intro hgood
    obtain ⟨extra, hout, hwritten, hunique⟩ :=
      withAbstain_some hgood hperm (inPlay_apart hapart choice)
    have hne : s.reorder choice.id (s.candidatesInPlay choice) ++ extra ≠ [] := fun hnil =>
      hplay (List.perm_nil.mp ((List.append_eq_nil_iff.mp hnil).1 ▸ hperm.symm))
    let narrowed : ChoiceQuestion := ⟨choice.id, choice.text, _, choice.text_ne, hne, hunique⟩
    refine ⟨narrowed, ?_, rfl, rfl, hunique,
      s.reorder choice.id (s.candidatesInPlay choice), ?_, ?_⟩
    · rw [prepareQuestion_eq hapart hplay, hout, Option.bind_some, ChoiceQuestion.new_self narrowed]
      rfl
    · rw [← reranked_latest h]
      exact reorder_arranged s choice.id _
    · rw [← hwritten]
      exact List.map_append

end Preparing

section Sample

attribute [local instance] plainStd

def unsure (id : String) (h : id ≠ "" ∧ id ≠ "none" := by decide) : AbstainCandidate :=
  ⟨id, "none of these fits", h, by decide⟩

def elicited (candidate : AbstainCandidate) : DecisionPolicy :=
  { DecisionPolicy.defaults with abstainCandidate := some candidate }

def ticketChoice : ChoiceQuestion :=
  (Sample.newChoice "q" ["billing", "refund"]).toOption.get (by decide)

def ticketExecutor : Executor :=
  Sample.executor Sample.gateGraph (Sample.request [.choice ticketChoice] .defaults)
    (MockClassifier.classifier "mock" OrdMap.empty) none []

theorem ticket_inPlay : ticketExecutor.machine.start.candidatesInPlay ticketChoice ≠ [] := by
  decide +kernel

def shortlistChoice : ChoiceQuestion :=
  (Sample.newChoice "q" ["login", "billing", "refund"]).toOption.get (by decide)

def shortlistGraph : DecisionGraph :=
  Sample.graph [Sample.node "in" .normalize [], Sample.node "filter" .filter ["in"],
    Sample.node "embed" .embedding ["filter"],
    { Sample.node "best" .retrieve ["embed"] with topN := some 2 },
    Sample.node "judge" .choice ["best"], Sample.node "out" .output ["judge"]]

/-- A retrieve node that puts `refund` first and `login` behind it, and takes `billing` away. -/
def shortlistExecutor : Executor :=
  let ex := Sample.executor shortlistGraph (Sample.request [.choice shortlistChoice] .defaults)
    (MockClassifier.classifier "mock" OrdMap.empty) none []
  { ex with config := { ex.config with
      safeMode := false
      embedding := some ⟨"axes", fun texts => .ok (texts.map fun text =>
        if text = "billing" then [0, 1] else if text = "login" then [3 / 5, 4 / 5]
        else [1, 0])⟩ } }

/-- After a retrieve node, with an abstain candidate whose id is an identifier. -/
theorem prepared_unsure : ∃ steps final,
    Waves.Trace shortlistExecutor.machine steps final final ∧
    ((latestOrder shortlistChoice.id steps).map fun order => order.map Ident.text) =
      some ["refund", "login"] ∧
    ((final.candidatesInPlay shortlistChoice).map fun c => c.id.text) = ["login", "refund"] ∧
    Prepared steps final shortlistChoice (elicited (unsure "unsure")) := by
  obtain ⟨final, hrun⟩ := Result.ok_of_isSome
    (by decide +kernel : shortlistExecutor.runState.toOption.isSome = true)
  obtain ⟨steps, hsteps, ht⟩ := runState_trace hrun
  have horder : (shortlistExecutor.steps.toOption.map fun steps =>
      (latestOrder shortlistChoice.id steps).map fun order => order.map Ident.text) =
      some (some ["refund", "login"]) := by decide +kernel
  have hplay : (shortlistExecutor.runState.toOption.map fun s =>
      (s.candidatesInPlay shortlistChoice).map fun c => c.id.text) =
      some ["login", "refund"] := by decide +kernel
  rw [hsteps] at horder
  rw [hrun] at hplay
  have hids : (final.candidatesInPlay shortlistChoice).map (fun c => c.id.text) =
      ["login", "refund"] := Option.some.inj hplay
  have hne : final.candidatesInPlay shortlistChoice ≠ [] := by
    intro hnil
    rw [hnil] at hids
    cases hids
  refine ⟨steps, final, ht, Option.some.inj horder, hids, (prepared_iff ht hne _).mpr ?_⟩
  intro a ha
  cases ha
  decide

/-- An abstain candidate whose id has a blank is accepted by the policy, and takes the question
away. -/
theorem blank_drops :
    DecisionPolicy.defaults.withAbstainCandidate (unsure "not sure") =
        .ok (elicited (unsure "not sure")) ∧
      ticketExecutor.machine.start.candidatesInPlay ticketChoice ≠ [] ∧
      ticketExecutor.machine.start.prepareQuestion (.choice ticketChoice)
        (elicited (unsure "not sure")).abstainCandidate = none ∧
      ¬ Prepared [] ticketExecutor.machine.start ticketChoice (elicited (unsure "not sure")) := by
  have hnone : ticketExecutor.machine.start.prepareQuestion (.choice ticketChoice)
      (elicited (unsure "not sure")).abstainCandidate = none := by decide +kernel
  refine ⟨rfl, ticket_inPlay, hnone, ?_⟩
  rintro ⟨narrowed, hsome, -⟩
  rw [hnone] at hsome
  cases hsome

end Sample

end OpenCodifier.Executor
