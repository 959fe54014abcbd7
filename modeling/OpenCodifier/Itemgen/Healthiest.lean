import OpenCodifier.Itemgen.Soundness
set_option autoImplicit false

namespace OpenCodifier.Itemgen

open Sampling
open RelationalSolver (Needs Proves reports healthyReports)

structure HealthBoard where
  winner : String
  runner : String
  third : String
  heavy : String
  silent : String
  best : Nat
  reported : List RelationalFact
  heavyStatuses : List Health

namespace HealthBoard

def names (board : HealthBoard) : List String :=
  [board.winner, board.runner, board.third, board.heavy, board.silent]

def counted (board : HealthBoard) : List (String × Nat) :=
  [(board.winner, board.best), (board.runner, board.best - 1),
    (board.third, board.best - 2)].filter fun e => e.2 ≠ 0

def facts (board : HealthBoard) : List RelationalFact :=
  board.reported ++ [.healthList board.heavy board.heavyStatuses]

def distractors (board : HealthBoard) : List Distractor :=
  [⟨board.runner, .runnerUp⟩, ⟨board.third, if 0 < board.best - 2 then .runnerUp else .zeroReport⟩,
    ⟨board.heavy, .degradedHeavy⟩, ⟨board.silent, .zeroReport⟩]

end HealthBoard

/-- The fact reports so many healthy checks of the entity, and is about nothing else. -/
def Tallies (entry : String × Nat) (fact : RelationalFact) : Prop :=
  (fact = .health entry.1 .healthy ∧ entry.2 = 1) ∨
    ∃ statuses, fact = .healthList entry.1 statuses ∧ statuses ≠ [] ∧
      statuses.count .healthy = entry.2

structure HealthBoard.Fits (pool : List String) (board : HealthBoard) : Prop where
  best : 2 ≤ board.best ∧ board.best ≤ 4
  reported : List.Forall₂ Tallies board.counted board.reported
  heavy : board.heavyStatuses ≠ [] ∧ Health.healthy ∉ board.heavyStatuses
  distinct : board.names.Nodup
  inPool : ∀ name ∈ board.names, name ∈ pool

section Draws

theorem yields_badStatuses (count percentage : Nat) :
    Yields (badStatuses count percentage) fun statuses =>
      statuses.length = count ∧ Health.healthy ∉ statuses := by
  have hone : ∀ i ∈ List.range count, Yields (do
      let degraded ← Draw.percent percentage
      pure (if degraded then Health.degraded else .down)) fun status => status ≠ .healthy := by
    intro i _
    refine (Draw.yields_percent percentage).bind fun degraded _ => yields_pure ?_
    cases degraded <;> decide
  refine (yields_mapM _ hone).imp fun statuses h => ⟨?_, ?_⟩
  · rw [← h.length_eq, List.length_range]
  · intro hm
    obtain ⟨i, hi, hget⟩ := List.mem_iff_getElem.mp hm
    exact List.forall₂_iff_get.mp h |>.2 i (by rw [h.length_eq]; exact hi) hi hget

theorem yields_reportFact {entry : String × Nat} (h : entry.2 ≠ 0) :
    Yields (reportFact entry) (Tallies entry) := by
  have halone : Yields (statedAlone entry.2) fun single => single = true → entry.2 = 1 := by
    rw [statedAlone]
    split
    · rename_i hone
      exact (Draw.yields_percent 50).imp fun _ _ _ => hone
    · exact yields_pure (by simp)
  refine halone.bind fun single hsingle => ?_
  cases single with
  | true => exact yields_pure (Or.inl ⟨rfl, hsingle rfl⟩)
  | false =>
    refine (Draw.yields_below (show 0 < 3 by omega)).bind fun filler _ => ?_
    refine (yields_badStatuses filler 60).bind fun others hothers => ?_
    refine (Draw.yields_shuffle _).bind fun statuses hperm => yields_pure (Or.inr ?_)
    refine ⟨statuses, rfl, ?_, ?_⟩
    · rintro rfl
      have hnil := hperm.nil_eq
      simp [h] at hnil
    · rw [hperm.count_eq, List.count_append, List.count_replicate_self,
        List.count_eq_zero_of_not_mem hothers.2, add_zero]

/-- A board over the names that were taken, with two healthy reports of the winner and some
more. -/
def boardOf (domain : Domain) (names : List String) (more : Nat) : Draw Sampled := do
  let bestCount := 2 + more
  let second ← Draw.sub bestCount 1
  let third := bestCount - 2
  let winner ← Draw.index names 0
  let runner ← Draw.index names 1
  let thirdName ← Draw.index names 2
  let heavy ← Draw.index names 3
  let silent ← Draw.index names 4
  let counted := ((names.take 3).zip [bestCount, second, third, 0, 0]).filter fun e => e.2 ≠ 0
  let reported ← counted.mapM reportFact
  let heavyCount ← Draw.below 2
  let heavyStatuses ← badStatuses (2 + heavyCount) 70
  let thirdKind : DistractorKind := if 0 < third then .runnerUp else .zeroReport
  pure ⟨reported ++ [.healthList heavy heavyStatuses], winner,
    [⟨runner, .runnerUp⟩, ⟨thirdName, thirdKind⟩, ⟨heavy, .degradedHeavy⟩, ⟨silent, .zeroReport⟩],
    .healthiestBoard, domain, 0⟩

theorem healthiest_eq (domain : Domain) :
    healthiest domain = (do
      let names ← takeNames domain 5
      let more ← Draw.below 3
      boardOf domain names more) := rfl

theorem yields_boardOf {domain : Domain} {names : List String} {more : Nat} (hmore : more < 3)
    (hlen : names.length = 5) (hnodup : names.Nodup) (hpool : ∀ name ∈ names, name ∈ domain.names) :
    Yields (boardOf domain names more) fun sampled => ∃ board : HealthBoard,
      board.Fits domain.names ∧ board.best = 2 + more ∧
      sampled = ⟨board.facts, board.winner, board.distractors, .healthiestBoard, domain, 0⟩ := by
  match names, hlen with
  | [winner, runner, third, heavy, silent], _ =>
    refine (Draw.yields_sub (show 1 ≤ 2 + more by omega)).bind fun second hsecond => ?_
    refine (Draw.yields_index (show 0 < 5 by omega)).bind fun n0 h0 => ?_
    refine (Draw.yields_index (show 1 < 5 by omega)).bind fun n1 h1 => ?_
    refine (Draw.yields_index (show 2 < 5 by omega)).bind fun n2 h2 => ?_
    refine (Draw.yields_index (show 3 < 5 by omega)).bind fun n3 h3 => ?_
    refine (Draw.yields_index (show 4 < 5 by omega)).bind fun n4 h4 => ?_
    subst hsecond h0 h1 h2 h3 h4
    refine (yields_mapM _ fun entry hentry => yields_reportFact ?_).bind fun reported hreported => ?_
    · exact of_decide_eq_true (List.mem_filter.mp hentry).2
    refine (Draw.yields_below (show 0 < 2 by omega)).bind fun heavyCount _ => ?_
    refine (yields_badStatuses (2 + heavyCount) 70).bind fun heavyStatuses hheavy => ?_
    have hbest : 2 ≤ 2 + more ∧ 2 + more ≤ 4 := by omega
    refine yields_pure ⟨⟨n0, n1, n2, n3, n4, 2 + more, reported, heavyStatuses⟩,
      ⟨hbest, hreported, ⟨?_, hheavy.2⟩, hnodup, hpool⟩, rfl, rfl⟩
    rintro rfl
    have hzero := hheavy.1
    rw [List.length_nil] at hzero
    omega

/-- No draw of a board faults, and each fits the pool. -/
theorem yields_healthiest {domain : Domain} (hn : domain.names.Nodup)
    (h5 : 5 ≤ domain.names.length) :
    Yields (healthiest domain) fun sampled => ∃ board : HealthBoard, board.Fits domain.names ∧
      sampled = ⟨board.facts, board.winner, board.distractors, .healthiestBoard, domain, 0⟩ := by
  rw [healthiest_eq]
  refine (yields_takeNames hn h5).bind fun names hnames => ?_
  obtain ⟨hlen, hnodup, hpool⟩ := hnames
  refine (Draw.yields_below (show 0 < 3 by omega)).bind fun more hmore => ?_
  refine (yields_boardOf hmore hlen hnodup hpool).imp ?_
  rintro sampled ⟨board, hfits, -, hsampled⟩
  exact ⟨board, hfits, hsampled⟩

end Draws

section Proof

variable {pool : List String} {board : HealthBoard}

theorem healthy_tallied {entries : List (String × Nat)} {facts : List RelationalFact}
    (h : List.Forall₂ Tallies entries facts) : facts.flatMap healthyReports = entries := by
  induction h with
  | nil => rfl
  | @cons entry fact entries facts hfact _ ih =>
    rw [List.flatMap_cons, ih]
    rcases hfact with ⟨rfl, hone⟩ | ⟨statuses, rfl, -, hcount⟩
    · rw [healthyReports, List.singleton_append, ← hone]
    · rw [healthyReports, List.singleton_append, hcount]

theorem HealthBoard.Fits.entries (h : board.Fits pool) :
    board.facts.flatMap healthyReports = board.counted ++ [(board.heavy, 0)] := by
  rw [HealthBoard.facts, List.flatMap_append, healthy_tallied h.reported, List.flatMap_singleton,
    healthyReports, List.count_eq_zero_of_not_mem h.heavy.2]

theorem HealthBoard.Fits.keys_nodup (h : board.Fits pool) :
    ((board.facts.flatMap healthyReports).map Prod.fst).Nodup := by
  have hkeys : (([(board.winner, board.best), (board.runner, board.best - 1),
      (board.third, board.best - 2)] ++ [(board.heavy, 0)]).map Prod.fst).Nodup := by
    have hsub : [board.winner, board.runner, board.third, board.heavy].Sublist board.names :=
      List.sublist_append_left _ [board.silent]
    exact hsub.nodup h.distinct
  rw [h.entries, HealthBoard.counted]
  exact ((List.filter_sublist.append (.refl _)).map Prod.fst).nodup hkeys

theorem healthiest_board (h : board.Fits pool) :
    RelationalSolver.healthiestWinner board.facts = some board.winner := by
  have hbest := h.best.1
  have hnodup := h.keys_nodup
  have hentry : (board.winner, board.best) ∈ board.facts.flatMap healthyReports := by
    rw [h.entries, HealthBoard.counted]
    refine List.mem_append_left _ (List.mem_filter.mpr ⟨List.mem_cons_self, ?_⟩)
    exact decide_eq_true (by dsimp only; omega)
  have hwinner := RelationalSolver.reports_of_mem hnodup hentry
  dsimp only at hwinner
  refine RelationalSolver.healthiestWinner_eq_some.mpr ⟨by omega, fun x hx => ?_⟩
  rw [hwinner]
  refine RelationalSolver.reports_lt_of_entries hnodup (by omega) fun entry hmem hentry => ?_
  subst hentry
  rw [h.entries, HealthBoard.counted, List.mem_append, List.mem_filter] at hmem
  simp only [List.mem_cons, List.not_mem_nil, or_false] at hmem
  rcases hmem with ⟨rfl | rfl | rfl, -⟩ | rfl
  · exact absurd rfl hx
  · dsimp only
    omega
  · dsimp only
    omega
  · dsimp only
    omega

def HealthBoard.mentioned (board : HealthBoard) : List String :=
  board.counted.map Prod.fst ++ [board.heavy]

theorem about_mentioned_board (h : board.Fits pool) :
    ∀ fact ∈ board.facts, About board.mentioned fact := by
  have hreported : ∀ {entries : List (String × Nat)} {facts : List RelationalFact},
      List.Forall₂ Tallies entries facts → (∀ entry ∈ entries, entry.1 ∈ board.mentioned) →
        ∀ fact ∈ facts, About board.mentioned fact := by
    intro entries facts hall
    induction hall with
    | nil => simp
    | @cons entry fact entries facts hfact _ ih =>
      intro hin
      rw [List.forall_mem_cons] at hin ⊢
      refine ⟨?_, ih hin.2⟩
      rcases hfact with ⟨rfl, -⟩ | ⟨statuses, rfl, hne, -⟩
      · exact hin.1
      · exact ⟨hin.1, hne⟩
  rw [HealthBoard.facts, List.forall_mem_append, List.forall_mem_singleton]
  refine ⟨hreported h.reported fun entry hentry => ?_, ?_, h.heavy.1⟩
  · exact List.mem_append_left _ (List.mem_map_of_mem hentry)
  · exact List.mem_append_right _ (List.mem_singleton_self _)

theorem HealthBoard.mentioned_mem {x : String} (hx : x ∈ board.mentioned) :
    x ∈ [board.winner, board.runner, board.third, board.heavy] := by
  rw [HealthBoard.mentioned, List.mem_append, List.mem_singleton] at hx
  rcases hx with hx | rfl
  · obtain ⟨entry, hentry, rfl⟩ := List.mem_map.mp hx
    have hmem := (List.mem_filter.mp hentry).1
    simp only [List.mem_cons, List.not_mem_nil, or_false] at hmem
    rcases hmem with rfl | rfl | rfl <;> simp
  · simp

theorem about_board (h : board.Fits pool) : ∀ fact ∈ board.facts, About pool fact := by
  intro fact hfact
  refine (about_mentioned_board h fact hfact).mono fun x hx => h.inPool x ?_
  have hsub : [board.winner, board.runner, board.third, board.heavy].Sublist board.names :=
    List.sublist_append_left _ [board.silent]
  exact hsub.subset (HealthBoard.mentioned_mem hx)

theorem reports_only (h : board.Fits pool) {fact : RelationalFact} (hfact : fact ∈ board.facts) :
    (∃ x status, fact = .health x status) ∨ ∃ x statuses, fact = .healthList x statuses := by
  rw [HealthBoard.facts, List.mem_append, List.mem_singleton] at hfact
  rcases hfact with hfact | rfl
  · obtain ⟨i, hi, hget⟩ := List.mem_iff_getElem.mp hfact
    have htally := (List.forall₂_iff_get.mp h.reported).2 i (by rw [h.reported.length_eq]; exact hi)
      hi
    rw [List.get_eq_getElem, List.get_eq_getElem, hget] at htally
    rcases htally with ⟨hf, -⟩ | ⟨statuses, hf, -⟩
    · exact Or.inl ⟨_, _, hf⟩
    · exact Or.inr ⟨_, _, hf⟩
  · exact Or.inr ⟨_, _, rfl⟩

theorem sound_board (h : board.Fits pool) (family : Family) (domain : Domain) (phrasing : Nat) :
    Sound pool ⟨board.facts, board.winner, board.distractors, family, domain, phrasing⟩ := by
  refine ⟨about_board h, by simp [Sampled.ballot, HealthBoard.distractors], h.distinct, h.inPool, ?_⟩
  have hwinner := healthiest_board h
  refine RelationalSolver.proves_of_agreeing (undated (about_board h)) (Or.inl ?_) (Or.inr hwinner)
    (Or.inl ?_) (by rw [hwinner]; simp)
  · refine RelationalSolver.rootCauseWinner_eq_none fun a b hm => ?_
    rcases reports_only h hm with ⟨x, status, hf⟩ | ⟨x, statuses, hf⟩ <;> cases hf
  · refine RelationalSolver.firstRestoredWinner_eq_none fun l e hm => ?_
    rcases reports_only h hm with ⟨x, status, hf⟩ | ⟨x, statuses, hf⟩ <;> cases hf

end Proof

end OpenCodifier.Itemgen
