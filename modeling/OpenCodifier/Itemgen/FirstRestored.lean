import OpenCodifier.Itemgen.Soundness
set_option autoImplicit false

namespace OpenCodifier.Itemgen

open Sampling
open Neighbours (windows)
open RelationalSolver (Needs Starter Proves)

/-- A drawn bring-up order: the chain from the starter to its last node, and the waiter behind
it. -/
structure BringUp where
  gold : String
  second : String
  middle : List String
  last : String
  side : String

namespace BringUp

def chain (order : BringUp) : List String :=
  order.gold :: order.second :: (order.middle ++ [order.last])

def line (order : BringUp) : List String :=
  order.gold :: order.second :: (order.middle ++ [order.last, order.side])

def facts (order : BringUp) : List RelationalFact :=
  (windows order.line).map fun pair => .restoresAfter pair.2 pair.1

def waiters (order : BringUp) : List Distractor :=
  [⟨order.second, .waiter⟩, ⟨order.last, .lastInOrder⟩, ⟨order.side, .waiter⟩] ++
    (order.middle.take 1).map fun name => ⟨name, .waiter⟩

def distractors (pool : List String) (order : BringUp) : List Distractor :=
  topUp (fun name => !order.chain.contains name) pool order.waiters (1 + order.waiters.length)

end BringUp

structure BringUp.Fits (pool : List String) (order : BringUp) : Prop where
  room : order.line.length < pool.length
  distinct : order.line.Nodup
  inPool : ∀ name ∈ order.line, name ∈ pool

section Draws

theorem exists_ends {α : Type} {l : List α} (h : 3 ≤ l.length) :
    ∃ a b middle z, l = a :: b :: (middle ++ [z]) := by
  obtain ⟨a, b, c, rest, rfl⟩ := exists_three h
  exact ⟨a, b, (c :: rest).dropLast, (c :: rest).getLast (List.cons_ne_nil _ _),
    by rw [List.dropLast_append_getLast]⟩

theorem yields_thirdWaiter (gold second last : String) (middle : List String) {chainLen : Nat}
    (h : chainLen = middle.length + 3) :
    Yields (thirdWaiter (gold :: second :: (middle ++ [last])) chainLen) fun third =>
      third = (middle.take 1).map fun name => ⟨name, .waiter⟩ := by
  rw [thirdWaiter]
  cases middle with
  | nil =>
    rw [if_neg (by simp [h])]
    exact yields_pure rfl
  | cons name middle =>
    rw [if_pos (by rw [h, List.length_cons]; omega)]
    refine (Draw.yields_index (by simp)).bind fun x hx => ?_
    subst hx
    exact yields_pure rfl

/-- No draw of an order faults, and each fits the pool. -/
theorem yields_firstRestored {domain : Domain} (hn : domain.names.Nodup)
    (h5 : 5 ≤ domain.names.length) :
    Yields (firstRestored domain) fun sampled => ∃ order : BringUp, order.Fits domain.names ∧
      sampled = ⟨order.facts, order.gold, order.distractors domain.names, .firstRestoredChain,
        domain, 0⟩ := by
  refine (Draw.yields_sub (show 2 ≤ domain.names.length by omega)).bind fun room hr => ?_
  subst hr
  refine (Draw.yields_sub (show 2 ≤ min (domain.names.length - 2) 5 by omega)).bind
    fun lengths hl => ?_
  refine (Draw.yields_below (show 0 < lengths by omega)).bind fun extra hextra => ?_
  have hlen : 3 + extra + 1 < domain.names.length := by omega
  refine (yields_takeNames hn hlen.le).bind fun names hnames => ?_
  obtain ⟨hcount, hnodup, hpool⟩ := hnames
  refine (Draw.yields_splitAt (show 3 + extra ≤ names.length by omega)).bind fun parts hparts => ?_
  subst hparts
  obtain ⟨gold, second, middle, last, hchain⟩ :=
    exists_ends (show 3 ≤ (names.take (3 + extra)).length by rw [List.length_take]; omega)
  obtain ⟨side, hside⟩ := List.length_eq_one_iff.mp
    (show (names.drop (3 + extra)).length = 1 by rw [List.length_drop]; omega)
  have hnames : names = gold :: second :: (middle ++ [last, side]) := by
    rw [← List.take_append_drop (3 + extra) names, hchain, hside]
    simp
  have hmiddle : 3 + extra = middle.length + 3 := by
    have hl := congrArg List.length hchain
    rw [List.length_take] at hl
    simp only [List.length_cons, List.length_append, List.length_nil] at hl
    omega
  simp only [hchain, hside]
  refine (Draw.yields_index (show 0 < 1 by omega)).bind fun s hs => ?_
  refine (Draw.yields_sub (show 1 ≤ 3 + extra by omega)).bind fun lastIndex hlast => ?_
  have hat : lastIndex < (gold :: second :: (middle ++ [last])).length := by
    simp only [List.length_cons, List.length_append, List.length_nil]
    omega
  refine (Draw.yields_index hat).bind fun l hl => ?_
  have hll : l = last := by
    rw [hl]
    have hidx : lastIndex = middle.length + 2 := by omega
    subst hidx
    simp
  refine (Draw.yields_index (by simp)).bind fun n1 h1 => ?_
  refine (yields_thirdWaiter gold second last middle hmiddle).bind fun third hthird => ?_
  refine (Draw.yields_index (Nat.succ_pos _)).bind fun n0 h0 => ?_
  subst hs hll h1 hthird h0
  refine yields_pure ⟨⟨n0, n1, middle, l, s⟩, ⟨?_, ?_, ?_⟩, ?_⟩
  · rw [BringUp.line, ← hnames, hcount]
    exact hlen
  · rw [BringUp.line, ← hnames]
    exact hnodup
  · rw [BringUp.line, ← hnames]
    exact hpool
  · have hfacts : (⟨n0, n1, middle, l, s⟩ : BringUp).facts =
        ((windows (n0 :: n1 :: (middle ++ [l]))).map fun pair =>
          RelationalFact.restoresAfter pair.2 pair.1) ++ [.restoresAfter s l] := by
      have hline := Neighbours.windows_append_two (n0 :: n1 :: middle) l s
      simp only [List.cons_append] at hline
      rw [BringUp.facts, BringUp.line, hline, List.map_append]
      rfl
    rw [hfacts]
    rfl

end Draws

section Proof

variable {pool : List String} {order : BringUp}

theorem restores_order {a b : String} :
    .restoresAfter a b ∈ order.facts ↔ (b, a) ∈ windows order.line := by
  simp [BringUp.facts]

theorem starter_order (h : order.Fits pool) {x : String} :
    Starter order.facts x ↔ x = order.gold := by
  simp only [Starter, restores_order]
  exact Neighbours.starts_iff h.distinct

theorem about_order (h : order.Fits pool) : ∀ fact ∈ order.facts, About pool fact := by
  intro fact hfact
  obtain ⟨pair, hpair, rfl⟩ := List.mem_map.mp hfact
  have hwindow := Neighbours.mem_of_window hpair
  exact ⟨h.inPool _ (List.mem_of_mem_tail hwindow.2), h.inPool _ hwindow.1⟩

theorem orders_only {fact : RelationalFact} (hfact : fact ∈ order.facts) :
    ∃ later earlier, fact = .restoresAfter later earlier := by
  obtain ⟨pair, -, rfl⟩ := List.mem_map.mp hfact
  exact ⟨pair.2, pair.1, rfl⟩

theorem proves_order (h : order.Fits pool) : Proves order.facts order.gold := by
  have hfirst : RelationalSolver.firstRestoredWinner order.facts = some order.gold :=
    RelationalSolver.firstRestoredWinner_eq_some.mpr fun x => starter_order h
  refine RelationalSolver.proves_of_agreeing (undated (about_order h)) (Or.inl ?_) (Or.inl ?_)
    (Or.inr hfirst) (by rw [hfirst]; simp)
  · refine RelationalSolver.rootCauseWinner_eq_none fun a b hm => ?_
    obtain ⟨later, earlier, hf⟩ := orders_only hm
    cases hf
  · have hnone : order.facts.flatMap RelationalSolver.healthyReports = [] := by
      rw [List.flatMap_eq_nil_iff]
      intro fact hfact
      obtain ⟨later, earlier, rfl⟩ := orders_only hfact
      rfl
    refine RelationalSolver.healthiestWinner_eq_none fun x => ?_
    rw [RelationalSolver.reports, hnone]
    rfl

theorem waiters_order (h : order.Fits pool) :
    (order.waiters.map Distractor.name).Nodup ∧
      (∀ name ∈ order.waiters.map Distractor.name, name ∈ order.line.tail) ∧
      order.waiters.length = 3 + min 1 order.middle.length := by
  have hnames : order.waiters.map Distractor.name =
      [order.second, order.last, order.side] ++ order.middle.take 1 := by
    simp [BringUp.waiters, Function.comp_def]
  have hperm : (order.waiters.map Distractor.name).Perm
      (order.second :: (order.middle.take 1 ++ [order.last, order.side])) := by
    rw [hnames]
    exact List.perm_append_comm.cons order.second
  have hsub : (order.second :: (order.middle.take 1 ++ [order.last, order.side])).Sublist
      order.line.tail :=
    ((List.take_sublist 1 _).append (.refl _)).cons_cons order.second
  refine ⟨hperm.nodup_iff.mpr (hsub.nodup (List.nodup_cons.mp h.distinct).2),
    fun name hname => hsub.subset (hperm.mem_iff.mp hname), ?_⟩
  simp [BringUp.waiters]
  omega

theorem sound_order (h : order.Fits pool) (hpool : pool.Nodup) (family : Family)
    (domain : Domain) (phrasing : Nat) :
    Sound pool ⟨order.facts, order.gold, order.distractors pool, family, domain, phrasing⟩ := by
  obtain ⟨hnodup, hbehind, hlength⟩ := waiters_order h
  obtain ⟨added, hadded, haddedNodup, hnew, hend⟩ := topUp_spec
    (fun name => !order.chain.contains name) pool order.waiters (1 + order.waiters.length)
  have hballot : Sampled.ballot ⟨order.facts, order.gold, order.distractors pool, family, domain,
      phrasing⟩ = order.gold :: (order.waiters.map Distractor.name ++ added) := by
    rw [Sampled.ballot, BringUp.distractors, hadded, List.map_append, List.map_map]
    exact congrArg (fun names => order.gold :: (order.waiters.map Distractor.name ++ names))
      (List.map_id added)
  have hgold : ∀ name ∈ added, name ≠ order.gold := by
    rintro name hname rfl
    have hallowed := (hnew _ hname).2.1
    simp [BringUp.chain] at hallowed
  have hfirst := (List.nodup_cons.mp h.distinct).1
  refine ⟨about_order h, ?_, ?_, ?_, proves_order h⟩
  · rw [hballot, List.length_cons, List.length_append, List.length_map]
    rcases hend with hend | hend
    · omega
    · -- otherwise the whole pool stands on the line or was added
      have hcover : pool ⊆ order.line ++ added := by
        intro name hname
        by_cases hon : name ∈ order.chain
        · refine List.mem_append_left _ ?_
          simp only [BringUp.chain, BringUp.line, List.mem_cons, List.mem_append,
            List.not_mem_nil, or_false] at hon ⊢
          tauto
        · rcases List.mem_append.mp (hend name hname (by simpa using hon)) with hm | hm
          · exact List.mem_append_left _ (List.mem_of_mem_tail (hbehind name hm))
          · exact List.mem_append_right _ hm
      have hcount := (hpool.subperm hcover).length_le
      rw [List.length_append] at hcount
      have hroom := h.room
      omega
  · rw [hballot, List.nodup_cons, List.nodup_append]
    refine ⟨fun hm => ?_, hnodup, haddedNodup, fun name hname other hother he => ?_⟩
    · rcases List.mem_append.mp hm with hm | hm
      · exact hfirst (hbehind _ hm)
      · exact hgold _ hm rfl
    · exact (hnew other hother).2.2 (he ▸ hname)
  · rw [hballot, List.forall_mem_cons, List.forall_mem_append]
    exact ⟨h.inPool _ List.mem_cons_self,
      fun name hname => h.inPool _ (List.mem_of_mem_tail (hbehind name hname)),
      fun name hname => (hnew name hname).1⟩

end Proof

end OpenCodifier.Itemgen
