import OpenCodifier.Itemgen.Soundness
set_option autoImplicit false

namespace OpenCodifier.Itemgen

open Sampling
open Neighbours (windows)
open RelationalSolver (Needs Root Starter Proves reports healthyReports)

def RootCauseDraw.others (draw : RootCauseDraw) : List String :=
  draw.standalone :: draw.unrelated ::
    match draw.pair with
    | some (ballot, noise) => [ballot, noise]
    | none => []

/-- What every draw of a root cause item keeps: the chain starts at the gold and has two symptoms
next to it, further symptoms are on the chain, and no name stands for two entities. -/
structure RootCauseDraw.Fits (pool : List String) (draw : RootCauseDraw) : Prop where
  chain : ∃ first second far kept, draw.chain = draw.gold :: first :: second :: far ∧
    draw.symptoms = first :: second :: kept ∧ kept.Sublist far
  distinct : (draw.chain ++ draw.others).Nodup
  inPool : ∀ name ∈ draw.chain ++ draw.others, name ∈ pool

section Draws

theorem yields_wantsPair (domain : Domain) :
    Yields (wantsPair domain) fun wantPair => wantPair = true → 7 ≤ domain.names.length := by
  rw [wantsPair]
  split
  · rename_i h7
    exact (Draw.yields_percent 55).imp fun _ _ _ => h7
  · exact yields_pure (by simp)

theorem yields_healthyPair {wantPair : Bool} {rest : List String}
    (h : rest.length = if wantPair then 4 else 2) :
    ∃ standalone unrelated tail, rest = standalone :: unrelated :: tail ∧
      Yields (healthyPair wantPair rest) fun pair => tail =
        match pair with
        | some (ballot, noise) => [ballot, noise]
        | none => [] := by
  cases wantPair with
  | true =>
    match rest, h with
    | [standalone, unrelated, ballot, noise], _ =>
      refine ⟨standalone, unrelated, [ballot, noise], rfl, ?_⟩
      refine (Draw.yields_index (show 2 < 4 by omega)).bind fun x hx => ?_
      refine (Draw.yields_index (show 3 < 4 by omega)).bind fun y hy => ?_
      subst hx hy
      exact yields_pure rfl
  | false =>
    match rest, h with
    | [standalone, unrelated], _ => exact ⟨standalone, unrelated, [], rfl, yields_pure rfl⟩

/-- No draw of a root cause item faults, and each fits the pool. -/
theorem yields_rootCause {domain : Domain} (hn : domain.names.Nodup)
    (h5 : 5 ≤ domain.names.length) (withOrder : Bool) :
    Yields (rootCause domain withOrder) fun sampled => ∃ draw : RootCauseDraw,
      draw.Fits domain.names ∧ sampled = ⟨rootCauseFacts draw withOrder, draw.gold,
        rootCauseDistractors draw, .rootCauseChain, domain, 0⟩ := by
  refine (yields_wantsPair domain).bind fun wantPair hwant => ?_
  obtain ⟨headroom, hheadroom⟩ : ∃ headroom, headroom = if wantPair then 4 else 2 := ⟨_, rfl⟩
  have hroom : headroom + 3 ≤ domain.names.length := by
    rw [hheadroom]
    split
    · rename_i hw
      have h7 := hwant hw
      omega
    · omega
  simp only [← hheadroom]
  refine (Draw.yields_sub (show headroom ≤ domain.names.length by omega)).bind fun room hr => ?_
  subst hr
  refine (Draw.yields_sub (show 2 ≤ min (domain.names.length - headroom) 5 by omega)).bind
    fun lengths hl => ?_
  refine (Draw.yields_below (show 0 < lengths by omega)).bind fun extra hextra => ?_
  have hlen : 3 + extra + headroom ≤ domain.names.length := by omega
  refine (yields_takeNames hn hlen).bind fun names hnames => ?_
  obtain ⟨hcount, hnodup, hpool⟩ := hnames
  refine (Draw.yields_splitAt (show 3 + extra ≤ names.length by omega)).bind fun parts hparts => ?_
  subst hparts
  obtain ⟨gold, first, second, far, hchain⟩ :=
    exists_three (show 3 ≤ (names.take (3 + extra)).length by rw [List.length_take]; omega)
  obtain ⟨standalone, unrelated, tail, hrest, hpair⟩ := @yields_healthyPair wantPair
    (names.drop (3 + extra)) (by rw [List.length_drop, hcount, ← hheadroom]; omega)
  have hnames : names = gold :: first :: second :: far ++ standalone :: unrelated :: tail := by
    rw [← hchain, ← hrest, List.take_append_drop]
  simp only [hchain, hrest] at hpair ⊢
  refine (Draw.yields_index (Nat.succ_pos _)).bind fun g hg => ?_
  refine (Draw.yields_slice (show 1 ≤ 3 by omega) (by simp)).bind fun near hnear => ?_
  refine (Draw.yields_keepSome 60 _).bind fun kept hkept => ?_
  refine (Draw.yields_index (Nat.succ_pos _)).bind fun s hs => ?_
  refine (Draw.yields_index (show 1 < tail.length + 2 by omega)).bind fun u hu => ?_
  refine hpair.bind fun pair htail => ?_
  subst hg hnear hs hu
  refine yields_pure ⟨⟨_, _, _, _, _, _⟩, ⟨⟨first, second, far, kept, rfl, rfl, hkept⟩, ?_, ?_⟩, rfl⟩
  · rw [hnames, htail] at hnodup
    exact hnodup
  · rw [hnames, htail] at hpool
    exact hpool

end Draws

section Stated

variable {draw : RootCauseDraw} {withOrder : Bool}

theorem needs_rootCause {a b : String} :
    Needs (rootCauseFacts draw withOrder) a b ↔ (b, a) ∈ windows draw.chain := by
  rw [Needs, rootCauseFacts]
  cases withOrder <;> rcases draw.pair with _ | ⟨ballot, noise⟩ <;> simp

theorem order_rootCause {a b : String} :
    .restoresAfter a b ∈ rootCauseFacts draw withOrder ↔
      withOrder = true ∧ (b, a) ∈ windows draw.chain := by
  rw [rootCauseFacts]
  cases withOrder <;> rcases draw.pair with _ | ⟨ballot, noise⟩ <;> simp

theorem down_rootCause {x : String} :
    .health x .down ∈ rootCauseFacts draw withOrder ↔
      x = draw.gold ∨ x ∈ draw.symptoms ∨ x = draw.standalone := by
  rw [rootCauseFacts]
  cases withOrder <;> rcases draw.pair with _ | ⟨ballot, noise⟩ <;> simp

theorem healthy_rootCause (draw : RootCauseDraw) (withOrder : Bool) :
    (rootCauseFacts draw withOrder).flatMap healthyReports =
      match draw.pair with
      | some (ballot, noise) => [(ballot, 1), (noise, 1)]
      | none => [] := by
  have hchain : ∀ pairs : List (String × String), (pairs.flatMap fun pair =>
      RelationalFact.dependsOn pair.2 pair.1 :: (if withOrder then
        [RelationalFact.restoresAfter pair.2 pair.1] else [])).flatMap healthyReports = [] := by
    intro pairs
    rw [List.flatMap_eq_nil_iff]
    intro fact hfact
    obtain ⟨pair, -, hfact⟩ := List.mem_flatMap.mp hfact
    cases withOrder with
    | true =>
      simp only [if_true, List.mem_cons, List.not_mem_nil, or_false] at hfact
      rcases hfact with rfl | rfl <;> rfl
    | false =>
      simp only [Bool.false_eq_true, if_false, List.mem_cons, List.not_mem_nil, or_false] at hfact
      exact hfact ▸ rfl
  have hsymptoms : (draw.symptoms.map fun symptom =>
      RelationalFact.health symptom .down).flatMap healthyReports = [] := by
    rw [List.flatMap_eq_nil_iff]
    intro fact hfact
    obtain ⟨symptom, -, rfl⟩ := List.mem_map.mp hfact
    rfl
  rw [rootCauseFacts]
  simp only [List.flatMap_append, hchain, hsymptoms]
  rcases draw.pair with _ | ⟨ballot, noise⟩ <;> rfl

end Stated

section Proof

variable {pool : List String} {draw : RootCauseDraw} {withOrder : Bool}

theorem RootCauseDraw.Fits.symptom_mem (h : draw.Fits pool) {x : String} (hx : x ∈ draw.symptoms) :
    x ∈ draw.chain.tail := by
  obtain ⟨first, second, far, kept, hchain, hsymptoms, hsub⟩ := h.chain
  rw [hchain, List.tail_cons]
  rw [hsymptoms] at hx
  exact (hsub.cons_cons second).cons_cons first |>.subset hx

theorem RootCauseDraw.Fits.chain_eq (h : draw.Fits pool) :
    ∃ first rest, draw.chain = draw.gold :: first :: rest := by
  obtain ⟨first, second, far, kept, hchain, -⟩ := h.chain
  exact ⟨first, second :: far, hchain⟩

theorem RootCauseDraw.Fits.chain_nodup (h : draw.Fits pool) : draw.chain.Nodup :=
  (List.nodup_append.mp h.distinct).1

theorem RootCauseDraw.Fits.other_notMem (h : draw.Fits pool) {x : String}
    (hx : x ∈ draw.others) : x ∉ draw.chain :=
  fun hm => (List.nodup_append.mp h.distinct).2.2 x hm x hx rfl

/-- The gold is the only root: symptoms lead back to it, and nothing needs the standalone
failure. -/
theorem root_rootCause (h : draw.Fits pool) {x : String} :
    Root (rootCauseFacts draw withOrder) x ↔ x = draw.gold := by
  obtain ⟨first, rest, hchain⟩ := h.chain_eq
  have hnodup := h.chain_nodup
  have hneeds : Needs (rootCauseFacts draw withOrder) =
      fun a b => (b, a) ∈ windows draw.chain := by
    funext a b
    exact propext needs_rootCause
  rw [Root, down_rootCause, hneeds]
  constructor
  · rintro ⟨hdown, ⟨a, ha⟩, hleads⟩
    rcases hdown with hx | hx | hx
    · exact hx
    · have htail := h.symptom_mem hx
      rw [hchain] at hleads htail hnodup
      by_contra hne
      refine hleads draw.gold (Neighbours.leads_back _ htail) (Ne.symm hne) ?_
      exact down_rootCause.mpr (Or.inl rfl)
    · have hout := h.other_notMem (show x ∈ draw.others from hx ▸ List.mem_cons_self)
      exact absurd (Neighbours.mem_of_window ha).1 hout
  · rintro rfl
    rw [hchain] at hnodup ⊢
    refine ⟨Or.inl rfl, ⟨first, List.mem_cons_self⟩, fun y hy _ => ?_⟩
    obtain ⟨z, hz, -⟩ := Relation.TransGen.head'_iff.mp hy
    exact absurd hz (Neighbours.first_notMem hnodup)

theorem starter_rootCause (h : draw.Fits pool) {x : String} :
    Starter (rootCauseFacts draw true) x ↔ x = draw.gold := by
  obtain ⟨first, rest, hchain⟩ := h.chain_eq
  have hnodup := h.chain_nodup
  simp only [Starter, order_rootCause, true_and]
  rw [hchain] at hnodup ⊢
  exact Neighbours.starts_iff hnodup

theorem healthiest_rootCause (h : draw.Fits pool) :
    RelationalSolver.healthiestWinner (rootCauseFacts draw withOrder) = none := by
  have hentries := healthy_rootCause draw withOrder
  have hothers := (List.nodup_append.mp h.distinct).2.1
  rw [RootCauseDraw.others] at hothers
  cases hpair : draw.pair with
  | none =>
    refine RelationalSolver.healthiestWinner_eq_none fun x => ?_
    rw [reports, hentries, hpair]
    rfl
  | some pair =>
    obtain ⟨ballot, noise⟩ := pair
    rw [hpair] at hentries hothers
    have hnodup : (((rootCauseFacts draw withOrder).flatMap healthyReports).map
        Prod.fst).Nodup := by
      rw [hentries]
      exact hothers.of_cons.of_cons
    have hne : ballot ≠ noise := by
      rintro rfl
      simp at hothers
    have hballot : reports (rootCauseFacts draw withOrder) ballot = 1 :=
      @RelationalSolver.reports_of_mem _ (ballot, 1) hnodup (by simp [hentries])
    have hnoise : reports (rootCauseFacts draw withOrder) noise = 1 :=
      @RelationalSolver.reports_of_mem _ (noise, 1) hnodup (by simp [hentries])
    refine RelationalSolver.healthiestWinner_eq_none_of_tie hne (hballot.trans hnoise.symm)
      fun x => ?_
    have hlt : reports (rootCauseFacts draw withOrder) x < 2 := by
      refine RelationalSolver.reports_lt_of_entries hnodup two_pos ?_
      rw [hentries]
      simp
    omega

theorem ballot_rootCause (h : draw.Fits pool) :
    ∃ names : List String, names.Sublist (draw.chain ++ draw.others) ∧ 5 ≤ names.length ∧
      (draw.gold :: (rootCauseDistractors draw).map Distractor.name).Perm names := by
  obtain ⟨first, second, far, kept, hchain, hsymptoms, -⟩ := h.chain
  rw [rootCauseDistractors, topUp_full _ _ _ (by simp [hsymptoms]), hsymptoms, hchain,
    RootCauseDraw.others]
  have hfar := List.nil_sublist far
  rcases draw.pair with _ | ⟨ballot, noise⟩
  · refine ⟨[draw.gold, first, second] ++ [draw.standalone, draw.unrelated], ?_, by simp, by simp⟩
    exact ((((hfar.cons_cons second).cons_cons first).cons_cons draw.gold).append (.refl _))
  · refine ⟨[draw.gold, first, second] ++ [draw.standalone, draw.unrelated, ballot], ?_, by simp,
      ?_⟩
    · refine (((hfar.cons_cons second).cons_cons first).cons_cons draw.gold).append ?_
      exact (((List.nil_sublist [noise]).cons_cons ballot).cons_cons draw.unrelated).cons_cons
        draw.standalone
    · refine ((((List.Perm.swap _ _ []).cons draw.standalone).cons second).cons first).cons draw.gold

/-- The names that the facts are about: all but the unrelated one. -/
def RootCauseDraw.mentioned (draw : RootCauseDraw) : List String :=
  draw.chain ++ draw.standalone ::
    match draw.pair with
    | some (ballot, noise) => [ballot, noise]
    | none => []

theorem about_mentioned_rootCause (h : draw.Fits pool) :
    ∀ fact ∈ rootCauseFacts draw withOrder, About draw.mentioned fact := by
  have hin : ∀ x ∈ draw.chain, x ∈ draw.mentioned := fun x hx => List.mem_append_left _ hx
  have hgold : draw.gold ∈ draw.chain := by
    obtain ⟨first, rest, hchain⟩ := h.chain_eq
    exact hchain ▸ List.mem_cons_self
  have hwindow : ∀ pair ∈ windows draw.chain, pair.1 ∈ draw.mentioned ∧ pair.2 ∈ draw.mentioned :=
    fun pair hpair => ⟨hin _ (Neighbours.mem_of_window hpair).1,
      hin _ (List.mem_of_mem_tail (Neighbours.mem_of_window hpair).2)⟩
  simp only [rootCauseFacts, List.forall_mem_append]
  refine ⟨⟨⟨⟨?_, ?_⟩, ?_⟩, ?_⟩, ?_⟩
  · intro fact hfact
    obtain ⟨pair, hpair, hfact⟩ := List.mem_flatMap.mp hfact
    have hboth := (hwindow pair hpair).symm
    cases withOrder with
    | true =>
      simp only [if_true, List.mem_cons, List.not_mem_nil, or_false] at hfact
      rcases hfact with rfl | rfl <;> exact hboth
    | false =>
      simp only [Bool.false_eq_true, if_false, List.mem_cons, List.not_mem_nil, or_false] at hfact
      exact hfact ▸ hboth
  · simpa [About] using hin _ hgold
  · intro fact hfact
    obtain ⟨symptom, hsymptom, rfl⟩ := List.mem_map.mp hfact
    exact hin _ (List.mem_of_mem_tail (h.symptom_mem hsymptom))
  · simp [About, RootCauseDraw.mentioned]
  · cases hpair : draw.pair with
    | none => simp
    | some pair => simp [About, RootCauseDraw.mentioned, hpair]

theorem about_rootCause (h : draw.Fits pool) :
    ∀ fact ∈ rootCauseFacts draw withOrder, About pool fact := by
  intro fact hfact
  refine (about_mentioned_rootCause h fact hfact).mono fun x hx => h.inPool x ?_
  rw [RootCauseDraw.mentioned, List.mem_append, List.mem_cons] at hx
  rw [RootCauseDraw.others, List.mem_append, List.mem_cons, List.mem_cons]
  exact hx.imp_right (Or.imp_right Or.inr)

/-- The root cause operator proves the gold, the order facts agree, and the reports tie. -/
theorem proves_rootCause (h : draw.Fits pool) :
    Proves (rootCauseFacts draw withOrder) draw.gold := by
  have hroot : RelationalSolver.rootCauseWinner (rootCauseFacts draw withOrder) =
      some draw.gold := RelationalSolver.rootCauseWinner_eq_some.mpr fun x => root_rootCause h
  refine RelationalSolver.proves_of_agreeing (undated (about_rootCause h)) (Or.inr hroot)
    (Or.inl (healthiest_rootCause h)) ?_ (by rw [hroot]; exact List.mem_cons_self)
  cases withOrder with
  | true =>
    exact Or.inr (RelationalSolver.firstRestoredWinner_eq_some.mpr fun x => starter_rootCause h)
  | false =>
    left
    refine RelationalSolver.firstRestoredWinner_eq_none fun later earlier hm => ?_
    exact absurd (order_rootCause.mp hm).1 (by decide)

theorem sound_rootCause (h : draw.Fits pool) (family : Family) (domain : Domain)
    (phrasing : Nat) :
    Sound pool ⟨rootCauseFacts draw withOrder, draw.gold, rootCauseDistractors draw, family,
      domain, phrasing⟩ := by
  obtain ⟨names, hsub, hlen, hperm⟩ := ballot_rootCause h
  exact ⟨about_rootCause h, by rw [Sampled.ballot, hperm.length_eq]; exact hlen,
    hperm.nodup_iff.mpr (hsub.nodup h.distinct),
    fun name hname => h.inPool name (hsub.subset (hperm.mem_iff.mp hname)),
    proves_rootCause h⟩

end Proof

end OpenCodifier.Itemgen
