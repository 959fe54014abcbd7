import OpenCodifier.Lib.Tally
import OpenCodifier.Engine.Relational
set_option autoImplicit false

namespace OpenCodifier.RelationalSolver

section Boards

theorem mem_pushUnder {α : Type} (m : OrdMap String (List α)) (key k : String) (x y : α) :
    y ∈ ((pushUnder m key x).get? k).getD [] ↔
      y ∈ (m.get? k).getD [] ∨ (k = key ∧ y = x) := by
  rw [pushUnder, OrdMap.get?_insert]
  by_cases h : k = key
  · subst h
    simp
  · simp [h]

theorem mem_keys_insert (m : OrdMap String Unit) (k x : String) :
    x ∈ (m.insert k ()).keys ↔ x = k ∨ x ∈ m.keys := by
  simp only [OrdMap.mem_keys_iff, OrdMap.get?_insert]
  by_cases hx : x = k <;> simp [hx]

theorem mem_collect (facts : List RelationalFact) (board : DependencyBoard) :
    (∀ x y, y ∈ (((facts.foldl DependencyBoard.collect board).dependentsOf.get? x).getD []) ↔
      y ∈ (board.dependentsOf.get? x).getD [] ∨ .dependsOn y x ∈ facts) ∧
    (∀ x y, y ∈ (((facts.foldl DependencyBoard.collect board).dependenciesOf.get? x).getD []) ↔
      y ∈ (board.dependenciesOf.get? x).getD [] ∨ .dependsOn x y ∈ facts) ∧
    ∀ x, x ∈ (facts.foldl DependencyBoard.collect board).failing.keys ↔
      x ∈ board.failing.keys ∨ .health x .down ∈ facts := by
  induction facts generalizing board with
  | nil => simp
  | cons fact facts ih =>
    obtain ⟨hneeds, hdeps, hfail⟩ := ih (board.collect fact)
    simp only [List.foldl_cons]
    refine ⟨fun x y => ?_, fun x y => ?_, fun x => ?_⟩
    · rw [hneeds]
      cases fact with
      | dependsOn a b =>
        simp only [DependencyBoard.collect, mem_pushUnder, List.mem_cons,
          RelationalFact.dependsOn.injEq]
        tauto
      | health e s => cases s <;> simp [DependencyBoard.collect]
      | healthList e s => simp [DependencyBoard.collect]
      | restoresAfter a b => simp [DependencyBoard.collect]
      | deadline e t => simp [DependencyBoard.collect]
      | event e t => simp [DependencyBoard.collect]
    · rw [hdeps]
      cases fact with
      | dependsOn a b =>
        simp only [DependencyBoard.collect, mem_pushUnder, List.mem_cons,
          RelationalFact.dependsOn.injEq]
        tauto
      | health e s => cases s <;> simp [DependencyBoard.collect]
      | healthList e s => simp [DependencyBoard.collect]
      | restoresAfter a b => simp [DependencyBoard.collect]
      | deadline e t => simp [DependencyBoard.collect]
      | event e t => simp [DependencyBoard.collect]
    · rw [hfail]
      cases fact with
      | health e s =>
        cases s with
        | down =>
          simp only [DependencyBoard.collect, mem_keys_insert, List.mem_cons, RelationalFact.health.injEq,
            and_true]
          tauto
        | healthy => simp [DependencyBoard.collect]
        | degraded => simp [DependencyBoard.collect]
      | dependsOn a b => simp [DependencyBoard.collect]
      | healthList e s => simp [DependencyBoard.collect]
      | restoresAfter a b => simp [DependencyBoard.collect]
      | deadline e t => simp [DependencyBoard.collect]
      | event e t => simp [DependencyBoard.collect]

variable (facts : List RelationalFact)

def Needs (a b : String) : Prop := .dependsOn a b ∈ facts

variable {facts}

theorem mem_dependents {x y : String} :
    y ∈ ((dependencyBoard facts).dependentsOf.get? x).getD [] ↔ Needs facts y x := by
  have h := (mem_collect facts {}).1 x y
  simpa [Needs, dependencyBoard] using h

theorem mem_nextOf {x y : String} : y ∈ (dependencyBoard facts).nextOf x ↔ Needs facts x y := by
  have h := (mem_collect facts {}).2.1 x y
  rw [DependencyBoard.nextOf, List.mem_reverse]
  simpa [Needs, dependencyBoard] using h

theorem mem_failing {x : String} :
    x ∈ (dependencyBoard facts).failing.keys ↔ .health x .down ∈ facts := by
  have h := (mem_collect facts {}).2.2 x
  simpa [dependencyBoard, OrdMap.keys, OrdMap.empty] using h

end Boards

section Search

variable (board : DependencyBoard)

def needed : Finset String :=
  (board.dependenciesOf.values.flatten).toFinset

theorem mem_needed {x y : String} (h : y ∈ board.nextOf x) : y ∈ needed board := by
  rw [DependencyBoard.nextOf, List.mem_reverse] at h
  cases hget : board.dependenciesOf.get? x with
  | none =>
    rw [hget] at h
    cases h
  | some deps =>
    rw [hget] at h
    rw [needed, List.mem_toFinset, List.mem_flatten]
    exact ⟨deps, (OrdMap.mem_values_iff _ _).mpr ⟨x, hget⟩, h⟩

theorem length_nextOf {k : String} {deps : List String}
    (h : (k, deps) ∈ board.dependenciesOf.entries) : (board.nextOf k).length = deps.length := by
  rw [DependencyBoard.nextOf, (OrdMap.mem_entries_iff _ _ _).mp h, List.length_reverse]
  rfl

theorem sum_nextOf_le (U : Finset String) :
    ∑ k ∈ U, (board.nextOf k).length ≤ (board.dependenciesOf.values.map List.length).sum := by
  have hkeys : ∀ k ∈ U, k ∉ board.dependenciesOf.keys.toFinset → (board.nextOf k).length = 0 := by
    intro k _ hk
    rw [List.mem_toFinset, OrdMap.mem_keys_iff] at hk
    have hnone : board.dependenciesOf.get? k = none := by
      cases hget : board.dependenciesOf.get? k with
      | none => rfl
      | some deps => exact absurd ⟨deps, hget⟩ hk
    rw [DependencyBoard.nextOf, hnone]
    rfl
  calc
    ∑ k ∈ U, (board.nextOf k).length
        = ∑ k ∈ U ∩ board.dependenciesOf.keys.toFinset, (board.nextOf k).length :=
          (Finset.sum_subset Finset.inter_subset_left fun k hk hnot =>
            hkeys k hk fun hm => hnot (Finset.mem_inter.mpr ⟨hk, hm⟩)).symm
    _ ≤ ∑ k ∈ board.dependenciesOf.keys.toFinset, (board.nextOf k).length :=
      Finset.sum_le_sum_of_subset Finset.inter_subset_right
    _ = (board.dependenciesOf.keys.map fun k => (board.nextOf k).length).sum :=
      List.sum_toFinset _ board.dependenciesOf.nodup_keys
    _ = (board.dependenciesOf.values.map List.length).sum := by
      rw [OrdMap.keys, OrdMap.values, List.map_map, List.map_map]
      congr 1
      exact List.map_congr_left fun e he => length_nextOf board he

theorem work_le_searchFuel (start : String) :
    Worklist.work board.nextOf (needed board) (board.nextOf start) [] ≤ board.searchFuel := by
  have hall := sum_nextOf_le board (needed board)
  have hone := sum_nextOf_le board {start}
  rw [Finset.sum_singleton] at hone
  simp only [Worklist.work, List.not_mem_nil, not_false_eq_true, Finset.filter_true,
    DependencyBoard.searchFuel]
  omega

theorem transitiveDependencies_run (start : String) :
    Relation.ReflTransGen (fun s t => Worklist.turn board.nextOf s = some t)
      (board.nextOf start, []) ([], board.transitiveDependencies start) :=
  Worklist.explore_run board.nextOf (fun _ _ _ hb => mem_needed board hb) board.searchFuel
    (board.nextOf start) [] (fun _ hs => mem_needed board hs) (work_le_searchFuel board start)

/-- The search finds exactly what the entity needs, directly or not. -/
theorem mem_transitiveDependencies {facts : List RelationalFact} {start x : String} :
    x ∈ (dependencyBoard facts).transitiveDependencies start ↔
      Relation.TransGen (Needs facts) start x := by
  have hU : ∀ a ∈ needed (dependencyBoard facts), ∀ b ∈ (dependencyBoard facts).nextOf a,
      b ∈ needed (dependencyBoard facts) := fun _ _ _ hb => mem_needed _ hb
  rw [DependencyBoard.transitiveDependencies, Worklist.mem_explore_iff _ hU _ _
    (fun _ hs => mem_needed _ hs) (work_le_searchFuel _ start)]
  simp only [mem_nextOf]
  constructor
  · rintro ⟨s, hs, hr⟩
    exact Relation.TransGen.head' hs hr
  · intro h
    obtain ⟨s, hs, hr⟩ := Relation.TransGen.head'_iff.mp h
    exact ⟨s, hs, hr⟩

end Search

section RootCause

variable {facts : List RelationalFact}

/-- A failing entity that others need and whose other needs, direct or not, do not fail. -/
def Root (facts : List RelationalFact) (x : String) : Prop :=
  .health x .down ∈ facts ∧ (∃ a, Needs facts a x) ∧
    ∀ y, Relation.TransGen (Needs facts) x y → y ≠ x → .health y .down ∉ facts

theorem mem_roots {x : String} : x ∈ (dependencyBoard facts).roots ↔ Root facts x := by
  have hneeded : (((dependencyBoard facts).dependentsOf.get? x).any fun deps => deps ≠ []) = true ↔
      ∃ a, Needs facts a x := by
    constructor
    · intro h
      cases hget : (dependencyBoard facts).dependentsOf.get? x with
      | none =>
        rw [hget] at h
        cases h
      | some deps =>
        rw [hget] at h
        have hne : deps ≠ [] := by simpa using h
        obtain ⟨a, ha⟩ := List.exists_mem_of_ne_nil deps hne
        refine ⟨a, mem_dependents.mp ?_⟩
        rwa [hget]
    · rintro ⟨a, ha⟩
      have hm := mem_dependents.mpr ha
      cases hget : (dependencyBoard facts).dependentsOf.get? x with
      | none =>
        rw [hget] at hm
        cases hm
      | some deps =>
        rw [hget] at hm
        simpa using List.ne_nil_of_mem hm
  rw [DependencyBoard.roots, List.mem_filter, DependencyBoard.isRoot, Bool.and_eq_true, hneeded,
    mem_failing, Root]
  have hfailing : ∀ y, (dependencyBoard facts).failing.contains y = true ↔
      .health y .down ∈ facts := fun y => by rw [OrdMap.contains_iff, mem_failing]
  simp only [Bool.not_eq_true', List.any_eq_false, mem_transitiveDependencies, Bool.and_eq_true,
    decide_eq_true_eq, hfailing, not_and]

theorem only_eq_some {l : List String} {x : String} : only l = some x ↔ l = [x] := by
  match l with
  | [] => simp [only]
  | [y] => simp [only]
  | y :: z :: rest => simp [only]

theorem eq_singleton_iff {l : List String} (hl : l.Nodup) {x : String} :
    l = [x] ↔ ∀ y, y ∈ l ↔ y = x := by
  constructor
  · rintro rfl y
    exact List.mem_singleton
  · intro h
    refine List.perm_singleton.mp ((List.perm_ext_iff_of_nodup hl (List.nodup_singleton x)).mpr ?_)
    simpa using h

/-- The winner of the root cause operator is the only root. -/
theorem rootCauseWinner_eq_some {gold : String} :
    rootCauseWinner facts = some gold ↔ ∀ x, Root facts x ↔ x = gold := by
  have hroots : only (dependencyBoard facts).roots = some gold ↔ ∀ x, Root facts x ↔ x = gold := by
    have hnodup : (dependencyBoard facts).roots.Nodup := (OrdMap.nodup_keys _).filter _
    rw [only_eq_some, eq_singleton_iff hnodup]
    simp only [mem_roots]
  simp only [rootCauseWinner]
  split
  · rename_i hempty
    simp only [Bool.or_eq_true, decide_eq_true_eq] at hempty
    refine ⟨fun h => absurd h (by simp), fun h => ?_⟩
    have hroot := (h gold).mpr rfl
    rcases hempty with hempty | hempty
    · have hmem := mem_failing.mpr hroot.1
      rw [hempty] at hmem
      cases hmem
    · obtain ⟨a, ha⟩ := hroot.2.1
      have hmem := mem_dependents.mpr ha
      have hnone : (dependencyBoard facts).dependentsOf.get? gold = none := by
        cases hget : (dependencyBoard facts).dependentsOf.get? gold with
        | none => rfl
        | some deps =>
          have hkey := (OrdMap.mem_keys_iff _ _).mpr ⟨deps, hget⟩
          rw [hempty] at hkey
          cases hkey
      rw [hnone] at hmem
      cases hmem
  · exact hroots

/-- The operator answers the only root when it is a candidate, and its search ends on every graph
with all that the searched entity needs. -/
theorem rootCause_law (facts : List RelationalFact) (candidates : List String) :
    (∀ r, rootCause facts candidates = some r ↔
      r ∈ candidates ∧ ∀ x, Root facts x ↔ x = r) ∧
    ∀ start, ∃ seen,
      Relation.ReflTransGen (fun s t => Worklist.turn (dependencyBoard facts).nextOf s = some t)
        ((dependencyBoard facts).nextOf start, []) ([], seen) ∧
      ∀ x, x ∈ seen ↔ Relation.TransGen (Needs facts) start x := by
  constructor
  · intro r
    rw [rootCause, amongCandidates, Option.filter_eq_some_iff, rootCauseWinner_eq_some,
      List.contains_iff_mem, and_comm]
  · intro start
    exact ⟨(dependencyBoard facts).transitiveDependencies start,
      transitiveDependencies_run _ start, fun x => mem_transitiveDependencies⟩

theorem rootCauseWinner_eq_none (h : ∀ a b, ¬ Needs facts a b) : rootCauseWinner facts = none := by
  refine Option.eq_none_iff_forall_ne_some.mpr fun gold hgold => ?_
  obtain ⟨-, ⟨a, ha⟩, -⟩ := (rootCauseWinner_eq_some.mp hgold gold).mpr rfl
  exact h a gold ha

end RootCause

section FirstRestored

variable {facts : List RelationalFact}

theorem mem_restoreSets (facts : List RelationalFact)
    (sets : OrdMap String Unit × OrdMap String Unit) :
    (∀ x, x ∈ (facts.foldl restoreSets sets).1.keys ↔
      x ∈ sets.1.keys ∨ ∃ e, .restoresAfter x e ∈ facts) ∧
    ∀ x, x ∈ (facts.foldl restoreSets sets).2.keys ↔
      x ∈ sets.2.keys ∨ ∃ l, .restoresAfter l x ∈ facts := by
  induction facts generalizing sets with
  | nil => simp
  | cons fact facts ih =>
    obtain ⟨hwaits, hgates⟩ := ih (restoreSets sets fact)
    simp only [List.foldl_cons]
    refine ⟨fun x => ?_, fun x => ?_⟩
    · rw [hwaits]
      cases fact with
      | restoresAfter a b =>
        simp only [restoreSets, mem_keys_insert, List.mem_cons, RelationalFact.restoresAfter.injEq,
          exists_or, exists_and_left, exists_eq, and_true]
        tauto
      | dependsOn a b => simp [restoreSets]
      | health e s => simp [restoreSets]
      | healthList e s => simp [restoreSets]
      | deadline e t => simp [restoreSets]
      | event e t => simp [restoreSets]
    · rw [hgates]
      cases fact with
      | restoresAfter a b =>
        simp only [restoreSets, mem_keys_insert, List.mem_cons, RelationalFact.restoresAfter.injEq,
          exists_or, exists_eq_left]
        tauto
      | dependsOn a b => simp [restoreSets]
      | health e s => simp [restoreSets]
      | healthList e s => simp [restoreSets]
      | deadline e t => simp [restoreSets]
      | event e t => simp [restoreSets]

/-- It gates another entity and waits for none. -/
def Starter (facts : List RelationalFact) (x : String) : Prop :=
  (∃ l, .restoresAfter l x ∈ facts) ∧ ¬ ∃ e, .restoresAfter x e ∈ facts

theorem firstRestoredWinner_eq_some {gold : String} :
    firstRestoredWinner facts = some gold ↔ ∀ x, Starter facts x ↔ x = gold := by
  obtain ⟨hwaits, hgates⟩ := mem_restoreSets facts (OrdMap.empty, OrdMap.empty)
  have hempty : ∀ x, x ∉ (OrdMap.empty : OrdMap String Unit).keys := fun x => by
    simp [OrdMap.keys, OrdMap.empty]
  simp only [hempty, false_or] at hwaits hgates
  rw [firstRestoredWinner, only_eq_some, eq_singleton_iff ((OrdMap.nodup_keys _).filter _)]
  have hmem : ∀ x, x ∈ ((facts.foldl restoreSets (OrdMap.empty, OrdMap.empty)).2.keys.filter
      fun entity => !(facts.foldl restoreSets (OrdMap.empty, OrdMap.empty)).1.contains entity) ↔
      Starter facts x := by
    intro x
    rw [List.mem_filter, hgates, Bool.not_eq_true', ← Bool.not_eq_true, OrdMap.contains_iff, hwaits,
      Starter]
  simp only [hmem]

theorem firstRestoredWinner_eq_none (h : ∀ l e, .restoresAfter l e ∉ facts) :
    firstRestoredWinner facts = none := by
  refine Option.eq_none_iff_forall_ne_some.mpr fun gold hgold => ?_
  obtain ⟨⟨l, hl⟩, -⟩ := (firstRestoredWinner_eq_some.mp hgold gold).mpr rfl
  exact h l gold hl

end FirstRestored

section Healthiest

def healthyReports : RelationalFact → List (String × Nat)
  | .health entity .healthy => [(entity, 1)]
  | .healthList entity statuses => [(entity, statuses.count .healthy)]
  | _ => []

def reports (facts : List RelationalFact) (x : String) : Nat :=
  Tally.share (facts.flatMap healthyReports) x

theorem reports_of_mem {facts : List RelationalFact} {entry : String × Nat}
    (hn : ((facts.flatMap healthyReports).map Prod.fst).Nodup)
    (h : entry ∈ facts.flatMap healthyReports) : reports facts entry.1 = entry.2 :=
  Tally.share_of_mem hn h

theorem reports_lt_of_entries {facts : List RelationalFact} {x : String} {n : Nat}
    (hn : ((facts.flatMap healthyReports).map Prod.fst).Nodup) (hpos : 0 < n)
    (h : ∀ entry ∈ facts.flatMap healthyReports, entry.1 = x → entry.2 < n) :
    reports facts x < n := by
  by_cases hx : x ∈ (facts.flatMap healthyReports).map Prod.fst
  · obtain ⟨entry, hentry, rfl⟩ := List.mem_map.mp hx
    rw [reports_of_mem hn hentry]
    exact h entry hentry rfl
  · rw [reports, Tally.share_of_notMem hx]
    exact hpos

theorem countHealthy_eq (counts : OrdMap String Nat) (fact : RelationalFact) :
    countHealthy counts fact = (healthyReports fact).foldl Tally.add counts := by
  cases fact with
  | health entity status => cases status <;> rfl
  | healthList entity statuses => rfl
  | dependsOn a b => rfl
  | restoresAfter a b => rfl
  | deadline e t => rfl
  | event e t => rfl

theorem counts_eq (facts : List RelationalFact) (counts : OrdMap String Nat) :
    facts.foldl countHealthy counts = (facts.flatMap healthyReports).foldl Tally.add counts := by
  induction facts generalizing counts with
  | nil => rfl
  | cons fact facts ih =>
    rw [List.foldl_cons, ih, List.flatMap_cons, List.foldl_append, countHealthy_eq]

theorem get?_counts (facts : List RelationalFact) (x : String) :
    (facts.foldl countHealthy OrdMap.empty).get? x =
      if x ∈ (facts.flatMap healthyReports).map Prod.fst then some (reports facts x) else none := by
  rw [counts_eq, Tally.get?_foldl_add, OrdMap.get?_empty]
  simp only [Option.getD_none, zero_add]
  rfl

theorem counted_of_pos {facts : List RelationalFact} {x : String} (h : 0 < reports facts x) :
    (x, reports facts x) ∈ (facts.foldl countHealthy OrdMap.empty).entries := by
  rw [OrdMap.mem_entries_iff, get?_counts, if_pos]
  by_contra hnot
  rw [reports, Tally.share_of_notMem hnot] at h
  exact absurd h (lt_irrefl 0)

theorem count_of_mem {facts : List RelationalFact} {e : String × Nat}
    (h : e ∈ (facts.foldl countHealthy OrdMap.empty).entries) : e.2 = reports facts e.1 := by
  obtain ⟨x, n⟩ := e
  rw [OrdMap.mem_entries_iff, get?_counts] at h
  split at h
  · exact (Option.some.inj h).symm
  · cases h

instance : Std.Total countOrder where
  total a b := by
    unfold countOrder
    rcases lt_trichotomy a.2 b.2 with h | h | h
    · exact Or.inr (Or.inl h)
    · rcases le_total a.1 b.1 with h' | h'
      · exact Or.inl (Or.inr ⟨h, h'⟩)
      · exact Or.inr (Or.inr ⟨h.symm, h'⟩)
    · exact Or.inl (Or.inl h)

instance : IsTrans (String × Nat) countOrder where
  trans a b c hab hbc := by
    unfold countOrder at *
    rcases hab with hab | ⟨hab, hab'⟩
    · rcases hbc with hbc | ⟨hbc, -⟩
      · exact Or.inl (hbc.trans hab)
      · exact Or.inl (hbc ▸ hab)
    · rcases hbc with hbc | ⟨hbc, hbc'⟩
      · exact Or.inl (hab ▸ hbc)
      · exact Or.inr ⟨hab.trans hbc, hab'.trans hbc'⟩

theorem count_le_of_order {a b : String × Nat} (h : countOrder a b) : b.2 ≤ a.2 := by
  rcases h with h | ⟨h, -⟩
  · exact h.le
  · exact h.ge

variable {facts : List RelationalFact}

def ranking (facts : List RelationalFact) : List (String × Nat) :=
  (facts.foldl countHealthy OrdMap.empty).entries.insertionSort countOrder

theorem mem_ranking_of_pos {x : String} (h : 0 < reports facts x) :
    (x, reports facts x) ∈ ranking facts :=
  (List.perm_insertionSort countOrder _).mem_iff.mpr (counted_of_pos h)

theorem count_of_mem_ranking {e : String × Nat} (h : e ∈ ranking facts) :
    e.2 = reports facts e.1 :=
  count_of_mem ((List.perm_insertionSort countOrder _).mem_iff.mp h)

theorem nodup_ranking (facts : List RelationalFact) : ((ranking facts).map Prod.fst).Nodup :=
  ((List.perm_insertionSort countOrder _).map Prod.fst).nodup_iff.mpr (OrdMap.nodup_keys _)

theorem pairwise_ranking (facts : List RelationalFact) : (ranking facts).Pairwise countOrder :=
  List.pairwise_insertionSort countOrder _

theorem second_of_ranking {best second : String × Nat} {rest : List (String × Nat)} {x : String}
    (h : ranking facts = best :: second :: rest) (hx : x ≠ best.1) (hpos : 0 < reports facts x) :
    reports facts x ≤ second.2 := by
  have hsorted := h ▸ pairwise_ranking facts
  have hmem := h ▸ mem_ranking_of_pos hpos
  rcases List.mem_cons.mp hmem with hmem | hmem
  · exact absurd (congrArg Prod.fst hmem) hx
  · rcases List.mem_cons.mp hmem with hmem | hmem
    · rw [← hmem]
    · exact count_le_of_order (List.rel_of_pairwise_cons hsorted.of_cons hmem)

/-- An entity wins exactly when it is strictly ahead of all others. -/
theorem healthiestWinner_eq_some {w : String} :
    healthiestWinner facts = some w ↔
      0 < reports facts w ∧ ∀ x, x ≠ w → reports facts x < reports facts w := by
  rw [healthiestWinner, ← ranking]
  cases hr : ranking facts with
  | nil =>
    refine ⟨nofun, fun h => ?_⟩
    have hmem := mem_ranking_of_pos h.1
    rw [hr] at hmem
    cases hmem
  | cons best others =>
    have hbest : best.2 = reports facts best.1 :=
      count_of_mem_ranking (hr ▸ List.mem_cons_self)
    constructor
    · intro h
      dsimp only at h
      split at h
      · cases h
      · rename_i hno
        cases h
        simp only [Bool.or_eq_true, decide_eq_true_eq, not_or] at hno
        refine ⟨by omega, fun x hx => ?_⟩
        rcases Nat.eq_zero_or_pos (reports facts x) with hzero | hpos
        · omega
        · cases others with
          | nil =>
            have hmem := hr ▸ mem_ranking_of_pos hpos
            exact absurd (congrArg Prod.fst (List.mem_singleton.mp hmem)) hx
          | cons second rest =>
            have hle := second_of_ranking hr hx hpos
            have hlt : ¬ best.2 ≤ second.2 := by simpa using hno.2
            omega
    · rintro ⟨hpos, hbelow⟩
      have hw : best.1 = w := by
        by_contra hne
        have hlt := hbelow best.1 hne
        have hmem := hr ▸ mem_ranking_of_pos hpos
        rcases List.mem_cons.mp hmem with hmem | hmem
        · exact hne (congrArg Prod.fst hmem).symm
        · have hle := count_le_of_order
            (List.rel_of_pairwise_cons (hr ▸ pairwise_ranking facts) hmem)
          dsimp only at hle
          omega
      subst hw
      have hno : (others.head?.any fun second => best.2 ≤ second.2) = false := by
        cases others with
        | nil => rfl
        | cons second rest =>
          have hne : second.1 ≠ best.1 := by
            have hkeys := hr ▸ nodup_ranking facts
            rw [List.map_cons, List.nodup_cons] at hkeys
            exact fun he => hkeys.1 (he ▸ List.mem_cons_self)
          have hlt := hbelow second.1 hne
          have hsecond : second.2 = reports facts second.1 :=
            count_of_mem_ranking (hr ▸ List.mem_cons_of_mem _ List.mem_cons_self)
          simp only [List.head?_cons, Option.any_some, decide_eq_false_iff_not, not_le]
          omega
      have hzero : best.2 ≠ 0 := by omega
      simp [hzero, hno]

theorem healthiestWinner_eq_none_of_tie {a b : String} (hab : a ≠ b)
    (heq : reports facts a = reports facts b) (hmax : ∀ x, reports facts x ≤ reports facts a) :
    healthiestWinner facts = none := by
  refine Option.eq_none_iff_forall_ne_some.mpr fun w hw => ?_
  obtain ⟨-, hbelow⟩ := healthiestWinner_eq_some.mp hw
  have hmaxw := hmax w
  by_cases ha : a = w
  · have hb := hbelow b fun he => hab (ha.trans he.symm)
    rw [← ha] at hb
    omega
  · have hlt := hbelow a ha
    omega

theorem healthiestWinner_eq_none (h : ∀ x, reports facts x = 0) :
    healthiestWinner facts = none :=
  Option.eq_none_iff_forall_ne_some.mpr fun w hw => by
    have hpos := (healthiestWinner_eq_some.mp hw).1
    have hzero := h w
    omega

end Healthiest

section Orders

variable {facts order : List RelationalFact}

theorem reports_perm (h : order.Perm facts) (x : String) : reports order x = reports facts x :=
  (((h.flatMap_right _).filter _).map Prod.snd).sum_eq

theorem root_perm (h : order.Perm facts) (x : String) : Root order x ↔ Root facts x := by
  have hneeds : Needs order = Needs facts := by
    funext a b
    exact propext h.mem_iff
  simp only [Root, hneeds, h.mem_iff]

theorem starter_perm (h : order.Perm facts) (x : String) : Starter order x ↔ Starter facts x := by
  simp only [Starter, h.mem_iff]

theorem rootCauseWinner_perm (h : order.Perm facts) :
    rootCauseWinner order = rootCauseWinner facts :=
  Option.ext fun gold => by simp only [rootCauseWinner_eq_some, root_perm h]

theorem healthiestWinner_perm (h : order.Perm facts) :
    healthiestWinner order = healthiestWinner facts :=
  Option.ext fun gold => by simp only [healthiestWinner_eq_some, reports_perm h]

theorem firstRestoredWinner_perm (h : order.Perm facts) :
    firstRestoredWinner order = firstRestoredWinner facts :=
  Option.ext fun gold => by simp only [firstRestoredWinner_eq_some, starter_perm h]

theorem soonestDeadlineWinner_eq_none (h : ∀ fact ∈ facts, deadlineOf fact = none) :
    soonestDeadlineWinner facts = none := by
  have hnil : facts.filterMap deadlineOf = [] := List.filterMap_eq_nil_iff.mpr h
  rw [soonestDeadlineWinner, timesOf, hnil]
  rfl

theorem mostRecentEventWinner_eq_none (h : ∀ fact ∈ facts, eventOf fact = none) :
    mostRecentEventWinner facts = none := by
  have hnil : facts.filterMap eventOf = [] := List.filterMap_eq_nil_iff.mpr h
  rw [mostRecentEventWinner, timesOf, hnil]
  rfl

/-- Some operator has the gold for its winner, and none another entity. -/
def Proves (facts : List RelationalFact) (gold : String) : Prop :=
  gold ∈ winners facts ∧ ∀ winner ∈ winners facts, winner = gold

/-- Each of the five operators abstains or agrees, and one agrees. -/
theorem proves_of_agreeing {gold : String} (hdates : ∀ fact ∈ facts, deadlineOf fact = none ∧
      eventOf fact = none)
    (hroot : rootCauseWinner facts = none ∨ rootCauseWinner facts = some gold)
    (hhealth : healthiestWinner facts = none ∨ healthiestWinner facts = some gold)
    (hfirst : firstRestoredWinner facts = none ∨ firstRestoredWinner facts = some gold)
    (hone : some gold ∈ [rootCauseWinner facts, healthiestWinner facts,
      firstRestoredWinner facts]) : Proves facts gold := by
  have hdeadline := soonestDeadlineWinner_eq_none fun fact h => (hdates fact h).1
  have hevent := mostRecentEventWinner_eq_none fun fact h => (hdates fact h).2
  have hmem : ∀ winner, winner ∈ winners facts ↔ some winner ∈ [rootCauseWinner facts,
      healthiestWinner facts, firstRestoredWinner facts] := by
    intro winner
    rw [winners, hdeadline, hevent, List.reduceOption_mem_iff]
    simp
  refine ⟨(hmem gold).mpr hone, fun winner hwinner => ?_⟩
  have hopts := (hmem winner).mp hwinner
  simp only [List.mem_cons, List.not_mem_nil, or_false] at hopts
  rcases hopts with h | h | h
  · rw [← h] at hroot
    simpa using hroot
  · rw [← h] at hhealth
    simpa using hhealth
  · rw [← h] at hfirst
    simpa using hfirst

theorem winners_perm (h : order.Perm facts)
    (hdates : ∀ fact ∈ facts, deadlineOf fact = none ∧ eventOf fact = none) :
    winners order = winners facts := by
  have hdates' : ∀ fact ∈ order, deadlineOf fact = none ∧ eventOf fact = none :=
    fun fact hfact => hdates fact (h.mem_iff.mp hfact)
  rw [winners, winners, rootCauseWinner_perm h, healthiestWinner_perm h, firstRestoredWinner_perm h,
    soonestDeadlineWinner_eq_none fun fact hf => (hdates fact hf).1,
    soonestDeadlineWinner_eq_none fun fact hf => (hdates' fact hf).1,
    mostRecentEventWinner_eq_none fun fact hf => (hdates fact hf).2,
    mostRecentEventWinner_eq_none fun fact hf => (hdates' fact hf).2]

theorem unanimous_of_proves {gold : String} (h : Proves facts gold) {candidates : List String}
    (hgold : gold ∈ candidates) : unanimous (proven facts candidates) = some gold := by
  rw [proven_eq, unanimous_eq_some_iff]
  refine ⟨List.mem_filter.mpr ⟨h.1, by simpa using hgold⟩, fun winner hwinner => ?_⟩
  exact h.2 winner (List.mem_filter.mp hwinner).1

end Orders

end OpenCodifier.RelationalSolver
