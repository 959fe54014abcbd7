import OpenCodifier.Itemgen.Kinds
import OpenCodifier.Itemgen.Verify
set_option autoImplicit false

namespace OpenCodifier.Itemgen

open Sampling
open Facts (extract isName)
open Neighbours (windows)
open RelationalSolver (Needs Root Proves reports healthyReports)

section Corruption

/-- A single healthy statement about another entity. -/
def healthySingle (gold : String) : RelationalFact → Bool
  | .health entity .healthy => entity ≠ gold
  | _ => false

def dependentOn (gold : String) : RelationalFact → Option String
  | .dependsOn dependent dependency => if dependency = gold then some dependent else none
  | _ => none

def restore (gold : String) : RelationalFact → RelationalFact
  | .health entity .down => if entity = gold then .health gold .healthy else .health entity .down
  | other => other

/-- Why a candidate of the base is wrong for the twin. -/
def relabel (facts : List RelationalFact) (oldGold gold : String) (d : Distractor) : Distractor :=
  if d.name = oldGold then { d with kind := .healthyPeer }
  else if d.kind = .symptom && !facts.contains (.dependsOn d.name gold) then
    { d with kind := .standaloneFailure }
  else d

/-- The minimal-pair twin of a root cause item: the root is healthy, and the gold moves to the node
above it. -/
def corruptToPair (base : Sampled) : Option Sampled :=
  if base.family ≠ .rootCauseChain then none
  else if !base.facts.any (healthySingle base.gold) then none
  else
    (base.facts.findSome? (dependentOn base.gold)).bind fun child =>
      if !base.facts.contains (.health child .down) then none
      else
        let facts := base.facts.map (restore base.gold)
        let distractors := (base.distractors.filter fun d => d.name ≠ child).map
          (relabel facts base.gold child)
        some { base with
          facts, gold := child, distractors := distractors ++ [⟨base.gold, .healthyPeer⟩] }

end Corruption

section Shape

variable {pool : List String} {draw : RootCauseDraw}

def chainFacts (draw : RootCauseDraw) : List RelationalFact :=
  (windows draw.chain).map fun pair => .dependsOn pair.2 pair.1

def otherReports (draw : RootCauseDraw) : List RelationalFact :=
  (draw.symptoms.map fun symptom => .health symptom .down) ++ [.health draw.standalone .down] ++
    match draw.pair with
    | some (ballot, noise) => [.health ballot .healthy, .health noise .healthy]
    | none => []

theorem rootCauseFacts_eq (draw : RootCauseDraw) : rootCauseFacts draw false =
    chainFacts draw ++ .health draw.gold .down :: otherReports draw := by
  rw [rootCauseFacts, chainFacts, otherReports]
  rcases draw.pair with _ | ⟨ballot, noise⟩ <;> simp [List.map_eq_flatMap]

def twinFacts (draw : RootCauseDraw) : List RelationalFact :=
  chainFacts draw ++ .health draw.gold .healthy :: otherReports draw

theorem RootCauseDraw.Fits.gold_notMem (h : draw.Fits pool) :
    draw.gold ∉ draw.symptoms ∧ draw.gold ≠ draw.standalone := by
  obtain ⟨first, rest, hchain⟩ := h.chain_eq
  have hnodup := h.chain_nodup
  rw [hchain] at hnodup
  refine ⟨fun hm => ?_, fun he => ?_⟩
  · have htail := h.symptom_mem hm
    rw [hchain] at htail
    exact (List.nodup_cons.mp hnodup).1 htail
  · refine h.other_notMem (show draw.standalone ∈ draw.others from List.mem_cons_self) ?_
    rw [← he, hchain]
    exact List.mem_cons_self

theorem restore_of_ne {gold : String} {fact : RelationalFact} (h : fact ≠ .health gold .down) :
    restore gold fact = fact := by
  cases fact with
  | health entity status =>
    cases status with
    | down => exact if_neg fun he : entity = gold => h (by rw [he])
    | healthy => rfl
    | degraded => rfl
  | _ => rfl

theorem map_restore (h : draw.Fits pool) :
    (rootCauseFacts draw false).map (restore draw.gold) = twinFacts draw := by
  obtain ⟨hsymptoms, hstandalone⟩ := h.gold_notMem
  have hkeep : ∀ facts : List RelationalFact, .health draw.gold .down ∉ facts →
      facts.map (restore draw.gold) = facts := by
    intro facts hnot
    calc
      facts.map (restore draw.gold) = facts.map id :=
        List.map_congr_left fun fact hfact => restore_of_ne fun he => hnot (he ▸ hfact)
      _ = facts := List.map_id facts
  have hchain : RelationalFact.health draw.gold .down ∉ chainFacts draw := by simp [chainFacts]
  have hothers : RelationalFact.health draw.gold .down ∉ otherReports draw := by
    rw [otherReports]
    rcases draw.pair with _ | ⟨ballot, noise⟩ <;> simp [hsymptoms, hstandalone]
  rw [rootCauseFacts_eq, twinFacts, List.map_append, List.map_cons, hkeep _ hchain, hkeep _ hothers,
    restore, if_pos rfl]

end Shape

section Stated

variable {pool : List String} {draw : RootCauseDraw}

theorem needs_twin {a b : String} :
    .dependsOn a b ∈ twinFacts draw ↔ (b, a) ∈ windows draw.chain := by
  rw [twinFacts, chainFacts, otherReports]
  rcases draw.pair with _ | ⟨ballot, noise⟩ <;> simp

theorem order_twin (a b : String) : .restoresAfter a b ∉ twinFacts draw := by
  rw [twinFacts, chainFacts, otherReports]
  rcases draw.pair with _ | ⟨ballot, noise⟩ <;> simp

theorem down_twin {x : String} :
    .health x .down ∈ twinFacts draw ↔ x ∈ draw.symptoms ∨ x = draw.standalone := by
  rw [twinFacts, chainFacts, otherReports]
  rcases draw.pair with _ | ⟨ballot, noise⟩ <;> simp

theorem mem_twinFacts {fact : RelationalFact} (hfact : fact ∈ twinFacts draw) :
    fact = .health draw.gold .healthy ∨ fact ∈ rootCauseFacts draw false := by
  rw [twinFacts, List.mem_append, List.mem_cons] at hfact
  rw [rootCauseFacts_eq, List.mem_append, List.mem_cons]
  tauto

theorem about_twin (h : draw.Fits pool) :
    ∀ fact ∈ twinFacts draw, About draw.mentioned fact := by
  intro fact hfact
  rcases mem_twinFacts hfact with rfl | hbase
  · have hdown : RelationalFact.health draw.gold .down ∈ rootCauseFacts draw false :=
      down_rootCause.mpr (Or.inl rfl)
    exact (about_mentioned_rootCause h _ hdown : draw.gold ∈ draw.mentioned)
  · exact about_mentioned_rootCause h fact hbase

theorem healthy_twin (draw : RootCauseDraw) : (twinFacts draw).flatMap healthyReports =
    (draw.gold, 1) :: (rootCauseFacts draw false).flatMap healthyReports := by
  have hchain : (chainFacts draw).flatMap healthyReports = [] := by
    rw [List.flatMap_eq_nil_iff]
    intro fact hfact
    obtain ⟨pair, -, rfl⟩ := List.mem_map.mp hfact
    rfl
  simp [twinFacts, rootCauseFacts_eq, hchain, healthyReports]

/-- The node above the old gold is the only root now. -/
theorem root_twin (h : draw.Fits pool) {first second : String} {far : List String}
    (hchain : draw.chain = draw.gold :: first :: second :: far) {x : String} :
    Root (twinFacts draw) x ↔ x = first := by
  obtain ⟨hgold, hstandalone⟩ := h.gold_notMem
  have hnodup := h.chain_nodup
  have hfirst : first ∈ draw.symptoms := by
    obtain ⟨first', second', far', kept, hchain', hsymptoms, -⟩ := h.chain
    rw [hchain] at hchain'
    cases hchain'
    simp [hsymptoms]
  have hneeds : Needs (twinFacts draw) = fun a b => (b, a) ∈ windows draw.chain := by
    funext a b
    exact propext needs_twin
  rw [Root, hneeds, down_twin]
  rw [hchain] at hnodup
  constructor
  · rintro ⟨hdown, ⟨a, ha⟩, hleads⟩
    rcases hdown with hx | hx
    · have htail := h.symptom_mem hx
      rw [hchain, List.tail_cons, List.mem_cons] at htail
      rcases htail with hx | hx
      · exact hx
      · by_contra hne
        have hback : Relation.TransGen (fun a b => (b, a) ∈ windows draw.chain) x first := by
          refine Relation.TransGen.mono (fun _ _ hm => ?_) x first (Neighbours.leads_back first hx)
          rw [hchain]
          exact List.mem_cons_of_mem _ hm
        exact hleads first hback (Ne.symm hne) (down_twin.mpr (Or.inl hfirst))
    · have hout := h.other_notMem (show x ∈ draw.others from hx ▸ List.mem_cons_self)
      exact absurd (Neighbours.mem_of_window ha).1 hout
  · rintro rfl
    refine ⟨Or.inl hfirst, ⟨second, ?_⟩, fun y hy _ => ?_⟩
    · rw [hchain]
      exact List.mem_cons_of_mem _ List.mem_cons_self
    · -- the only step back from the new gold leads to the old one, where the chain starts
      rw [hchain] at hy
      obtain ⟨z, hz, hrest⟩ := Relation.TransGen.head'_iff.mp hy
      have hzgold := Neighbours.before_second hnodup hz
      rw [hzgold] at hrest
      rcases Relation.ReflTransGen.cases_head hrest with he | ⟨w, hw, -⟩
      · rw [← he, down_twin]
        exact fun hm => hm.elim hgold hstandalone
      · exact absurd hw (Neighbours.first_notMem hnodup)

theorem healthiest_twin (h : draw.Fits pool) {ballot noise : String}
    (hpair : draw.pair = some (ballot, noise)) :
    RelationalSolver.healthiestWinner (twinFacts draw) = none := by
  have hentries : (twinFacts draw).flatMap healthyReports =
      [(draw.gold, 1), (ballot, 1), (noise, 1)] := by
    rw [healthy_twin, healthy_rootCause, hpair]
  have hdistinct : [draw.gold, ballot, noise].Nodup := by
    obtain ⟨first, rest, hchain⟩ := h.chain_eq
    have hsub : [draw.gold, ballot, noise].Sublist (draw.chain ++ draw.others) := by
      rw [hchain, RootCauseDraw.others, hpair]
      change ([draw.gold] ++ [ballot, noise]).Sublist _
      refine List.Sublist.append ((List.nil_sublist _).cons_cons draw.gold) ?_
      exact ((List.Sublist.refl _).cons draw.unrelated).cons draw.standalone
    exact hsub.nodup h.distinct
  have hnodup : (((twinFacts draw).flatMap healthyReports).map Prod.fst).Nodup := by
    rw [hentries]
    exact hdistinct
  have hreports : ∀ entry ∈ [(draw.gold, 1), (ballot, 1), (noise, 1)],
      reports (twinFacts draw) entry.1 = entry.2 := fun entry hentry =>
    RelationalSolver.reports_of_mem hnodup (hentries ▸ hentry)
  have hballot := hreports (ballot, 1) (by simp)
  have hnoise := hreports (noise, 1) (by simp)
  refine RelationalSolver.healthiestWinner_eq_none_of_tie (a := ballot) (b := noise) ?_
    (hballot.trans hnoise.symm) fun x => ?_
  · rintro rfl
    simp at hdistinct
  · have hlt : reports (twinFacts draw) x < 2 := by
      refine RelationalSolver.reports_lt_of_entries hnodup two_pos ?_
      rw [hentries]
      simp
    dsimp only at hballot
    omega

theorem proves_twin (h : draw.Fits pool) {first second : String} {far : List String}
    (hchain : draw.chain = draw.gold :: first :: second :: far) {ballot noise : String}
    (hpair : draw.pair = some (ballot, noise)) : Proves (twinFacts draw) first := by
  have hroot : RelationalSolver.rootCauseWinner (twinFacts draw) = some first :=
    RelationalSolver.rootCauseWinner_eq_some.mpr fun x => root_twin h hchain
  refine RelationalSolver.proves_of_agreeing (undated (about_twin h)) (Or.inr hroot)
    (Or.inl (healthiest_twin h hpair)) (Or.inl ?_) (by rw [hroot]; exact List.mem_cons_self)
  exact RelationalSolver.firstRestoredWinner_eq_none fun later earlier => order_twin later earlier

end Stated

section Twin

variable {pool : List String} {draw : RootCauseDraw} {domain : Domain} {phrasing : Nat}

def baseOf (draw : RootCauseDraw) (domain : Domain) (phrasing : Nat) : Sampled :=
  ⟨rootCauseFacts draw false, draw.gold, rootCauseDistractors draw, .rootCauseChain, domain,
    phrasing⟩

def twinDistractors (draw : RootCauseDraw) (first : String) : List Distractor :=
  (((rootCauseDistractors draw).filter fun d => d.name ≠ first).map
    (relabel (twinFacts draw) draw.gold first)) ++ [⟨draw.gold, .healthyPeer⟩]

theorem corruptToPair_baseOf (h : draw.Fits pool) {first second : String} {far : List String}
    (hchain : draw.chain = draw.gold :: first :: second :: far) {twin : Sampled}
    (htwin : corruptToPair (baseOf draw domain phrasing) = some twin) :
    draw.pair.isSome = true ∧
      twin = ⟨twinFacts draw, first, twinDistractors draw first, .rootCauseChain, domain,
        phrasing⟩ := by
  rw [corruptToPair, if_neg (by simp [baseOf])] at htwin
  split at htwin
  · cases htwin
  rename_i hsingle
  have hchild : (baseOf draw domain phrasing).facts.findSome?
      (dependentOn (baseOf draw domain phrasing).gold) = some first := by
    simp [baseOf, rootCauseFacts_eq, chainFacts, hchain, Neighbours.windows_cons_cons, dependentOn]
  rw [hchild, Option.bind_some] at htwin
  split at htwin
  · cases htwin
  cases htwin
  refine ⟨?_, ?_⟩
  · by_contra hnone
    rw [Option.not_isSome_iff_eq_none] at hnone
    refine hsingle ?_
    simp [baseOf, rootCauseFacts_eq, chainFacts, otherReports, hnone, healthySingle]
  · simp only [baseOf, map_restore h, twinDistractors]

theorem relabel_name (facts : List RelationalFact) (oldGold gold : String) (d : Distractor) :
    (relabel facts oldGold gold d).name = d.name := by
  rw [relabel]
  split
  · rfl
  · split <;> rfl

theorem RootCauseDraw.Fits.symptoms_eq (h : draw.Fits pool) {first second : String}
    {far : List String} (hchain : draw.chain = draw.gold :: first :: second :: far) :
    ∃ kept, draw.symptoms = first :: second :: kept := by
  obtain ⟨first', second', far', kept, hchain', hsymptoms, -⟩ := h.chain
  rw [hchain] at hchain'
  cases hchain'
  exact ⟨kept, hsymptoms⟩

theorem distractors_baseOf (h : draw.Fits pool) {first second : String} {far : List String}
    (hchain : draw.chain = draw.gold :: first :: second :: far) {ballot noise : String}
    (hpair : draw.pair = some (ballot, noise)) :
    rootCauseDistractors draw = [⟨first, .symptom⟩, ⟨second, .symptom⟩,
      ⟨draw.standalone, .standaloneFailure⟩, ⟨ballot, .healthyPeer⟩, ⟨draw.unrelated, .unrelated⟩] := by
  obtain ⟨kept, hsymptoms⟩ := h.symptoms_eq hchain
  rw [rootCauseDistractors, topUp_full _ _ _ (by simp [hsymptoms]), hsymptoms, hpair]
  rfl

theorem ballot_twin (h : draw.Fits pool) {first second : String} {far : List String}
    (hchain : draw.chain = draw.gold :: first :: second :: far) {ballot noise : String}
    (hpair : draw.pair = some (ballot, noise)) :
    (first :: (twinDistractors draw first).map Distractor.name).Perm
      (draw.gold :: (rootCauseDistractors draw).map Distractor.name) := by
  have hnames : (twinDistractors draw first).map Distractor.name =
      ((rootCauseDistractors draw).map Distractor.name).filter (· ≠ first) ++ [draw.gold] := by
    rw [twinDistractors, List.map_append, List.map_map, List.filter_map]
    refine congrArg (· ++ [draw.gold]) (List.map_congr_left fun d _ => ?_)
    exact relabel_name _ _ _ d
  obtain ⟨names, hsub, -, hperm⟩ := ballot_rootCause h
  have hnodup := (List.nodup_cons.mp (hperm.nodup_iff.mpr (hsub.nodup h.distinct))).2
  have hmem : first ∈ (rootCauseDistractors draw).map Distractor.name := by
    rw [distractors_baseOf h hchain hpair]
    exact List.mem_cons_self
  have herase : ((rootCauseDistractors draw).map Distractor.name).filter (· ≠ first) =
      ((rootCauseDistractors draw).map Distractor.name).erase first := by
    rw [hnodup.erase_eq_filter]
    exact List.filter_congr fun name _ => by rw [Bool.eq_iff_iff]; simp
  rw [hnames, herase, ← List.cons_append]
  calc
    (first :: ((rootCauseDistractors draw).map Distractor.name).erase first ++ [draw.gold]).Perm
        (draw.gold :: (first :: ((rootCauseDistractors draw).map Distractor.name).erase first)) :=
      List.perm_append_singleton _ _
    List.Perm _ (draw.gold :: (rootCauseDistractors draw).map Distractor.name) :=
      (List.perm_cons_erase hmem).symm.cons draw.gold

theorem twinDistractors_eq (h : draw.Fits pool) {first second : String} {far : List String}
    (hchain : draw.chain = draw.gold :: first :: second :: far) {ballot noise : String}
    (hpair : draw.pair = some (ballot, noise)) :
    twinDistractors draw first = [⟨second, .symptom⟩, ⟨draw.standalone, .standaloneFailure⟩,
      ⟨ballot, .healthyPeer⟩, ⟨draw.unrelated, .unrelated⟩, ⟨draw.gold, .healthyPeer⟩] := by
  have hnodup := h.chain_nodup
  rw [hchain] at hnodup
  simp only [List.nodup_cons, List.mem_cons, not_or] at hnodup
  have hgold : ∀ x ∈ draw.others, x ≠ draw.gold := by
    rintro x hx rfl
    exact h.other_notMem hx (by rw [hchain]; exact List.mem_cons_self)
  have hfirst : ∀ x ∈ draw.others, x ≠ first := by
    rintro x hx rfl
    exact h.other_notMem hx (by rw [hchain]; exact List.mem_cons_of_mem _ List.mem_cons_self)
  have hhangs : RelationalFact.dependsOn second first ∈ twinFacts draw := by
    rw [needs_twin, hchain]
    exact List.mem_cons_of_mem _ List.mem_cons_self
  rw [RootCauseDraw.others, hpair] at hgold hfirst
  simp only [List.forall_mem_cons] at hgold hfirst
  obtain ⟨hgoldStandalone, hgoldUnrelated, hgoldBallot, -⟩ := hgold
  obtain ⟨hfirstStandalone, hfirstUnrelated, hfirstBallot, -⟩ := hfirst
  have hsecondGold : second ≠ draw.gold := fun he => hnodup.1.2.1 he.symm
  have hsecondFirst : second ≠ first := fun he => hnodup.2.1.1 he.symm
  rw [twinDistractors, distractors_baseOf h hchain hpair]
  simp [relabel, hhangs, hgoldStandalone, hgoldUnrelated, hgoldBallot, hfirstStandalone,
    hfirstUnrelated, hfirstBallot, hsecondGold, hsecondFirst]

theorem kinds_twin (h : draw.Fits pool) {first second : String} {far : List String}
    (hchain : draw.chain = draw.gold :: first :: second :: far) {ballot noise : String}
    (hpair : draw.pair = some (ballot, noise)) :
    ∀ d ∈ twinDistractors draw first, d.kind.TrueOf (twinFacts draw) first d.name := by
  obtain ⟨kept, hsymptoms⟩ := h.symptoms_eq hchain
  have hdown : ∀ x, x ∈ draw.symptoms ∨ x = draw.standalone →
      RelationalFact.health x .down ∈ twinFacts draw := fun x => down_twin.mpr
  have hbase := kinds_rootCause h false
  rw [distractors_baseOf h hchain hpair] at hbase
  simp only [List.forall_mem_cons, List.not_mem_nil, false_imp_iff, implies_true, and_true] at hbase
  obtain ⟨-, -, hstandalone, -, hunrelated⟩ := hbase
  rw [twinDistractors_eq h hchain hpair]
  simp only [List.forall_mem_cons, List.not_mem_nil, false_imp_iff, implies_true, and_true]
  refine ⟨?_, ?_, ?_, ?_, ?_⟩
  · refine ⟨hdown second (by simp [hsymptoms]), first, ?_, hdown first (by simp [hsymptoms])⟩
    rw [needs_twin, hchain]
    exact List.mem_cons_of_mem _ List.mem_cons_self
  · refine ⟨hdown _ (Or.inr rfl), fun dependent hm => hstandalone.2 dependent ?_⟩
    exact needs_rootCause.mpr (needs_twin.mp hm)
  · simp [DistractorKind.TrueOf, twinFacts, otherReports, hpair]
  · intro fact hfact hm
    rcases mem_twinFacts hfact with rfl | hbase
    · have hne := h.other_notMem (show draw.unrelated ∈ draw.others by simp [RootCauseDraw.others])
      rw [entitiesOf, List.mem_singleton] at hm
      rw [hm, hchain] at hne
      exact hne List.mem_cons_self
    · exact hunrelated fact hbase hm
  · simp [DistractorKind.TrueOf, twinFacts]

theorem sound_twin (h : draw.Fits pool) {first second : String} {far : List String}
    (hchain : draw.chain = draw.gold :: first :: second :: far) {ballot noise : String}
    (hpair : draw.pair = some (ballot, noise)) (domain : Domain) (phrasing : Nat) :
    Sound pool ⟨twinFacts draw, first, twinDistractors draw first, .rootCauseChain, domain,
      phrasing⟩ := by
  have hballot := ballot_twin h hchain hpair
  have hbase := @sound_rootCause pool draw false h .rootCauseChain domain phrasing
  refine ⟨fun fact hfact => ?_, ?_, ?_, ?_, proves_twin h hchain hpair⟩
  · rcases mem_twinFacts hfact with rfl | hm
    · exact (hbase.inPool _ List.mem_cons_self : draw.gold ∈ pool)
    · exact hbase.about fact hm
  · exact hballot.length_eq ▸ hbase.slots
  · exact hballot.nodup_iff.mpr hbase.distinct
  · exact fun name hname => hbase.inPool name (hballot.mem_iff.mp hname)

end Twin

theorem sample_ok {score : ScoreFamily} {domains : List Domain} {family : Family} {rng rng' : Rng}
    {sampled : Sampled} (h : sample score domains family rng = .ok (sampled, rng')) :
    ∃ domain ∈ domains, ∃ phrasing < (family.phrasings score.questions).length, ∃ start after drawn,
      family.sampler score domain start = .ok (drawn, after) ∧
        sampled = { drawn with family, domain, phrasing } := by
  obtain ⟨domain, rng₁, hpick, h⟩ := run_bind_ok.mp h
  obtain ⟨phrasing, rng₂, hphrasing, h⟩ := run_bind_ok.mp h
  obtain ⟨drawn, rng₃, hdrawn, h⟩ := run_bind_ok.mp h
  cases h
  obtain ⟨hpos, rfl, -⟩ := Draw.below_ok.mp hphrasing
  obtain ⟨i, rng₄, -, hindex⟩ := run_bind_ok.mp hpick
  exact ⟨domain, List.mem_of_getElem? (Draw.index_ok.mp hindex).1, _, Nat.mod_lt _ hpos, rng₂, _,
    drawn, hdrawn, rfl⟩

section Law

variable [RustStd]

/-- The twin of an item differs from it in one fact, the old gold's report, and in nothing else but
the gold: their ballots have the same candidates. Its new gold depends on the old one, its labels
are true, and the solver gives the new gold all mass, so that no rendering of it is rejected. -/
theorem corruptToPair_lawful (hlaws : BlankLaws) (score : ScoreFamily) {domains : List Domain}
    (hn : ∀ domain ∈ domains, domain.names.Nodup) {rng rng' : Rng} {base twin : Sampled}
    (hbase : sample score domains .rootCauseChain rng = .ok (base, rng'))
    (htwin : corruptToPair base = some twin) :
    twin.facts.length = base.facts.length ∧
    (∃ i, base.facts[i]? = some (.health base.gold .down) ∧
      twin.facts = base.facts.set i (.health base.gold .healthy)) ∧
    twin.ballot.Perm base.ballot ∧ twin.ballot.Nodup ∧
    .dependsOn twin.gold base.gold ∈ twin.facts ∧
    questionText score twin = questionText score base ∧
    twin.KindsTrue ∧
    (∀ (inner : Classifier) (question : ChoiceQuestion) (state : State),
      RelationalSolver.candidateIds question = twin.ballot →
      (extract state.text).Perm twin.facts →
      ∃ d, RelationalSolver.decide inner state (.choice question) = .ok d ∧
        d.entries = question.candidates.map fun c =>
          ⟨c.id.text, if c.id.text = twin.gold then 1 else 0⟩) ∧
    ((∀ name ∈ twin.domain.names, isName name = true) → ∀ drawn : Rng,
      ∃ text drawn', stateText twin.facts drawn = .ok (text, drawn') ∧
        verifyItem score twin text = .ok ()) := by
  obtain ⟨domain, hdomain, phrasing, hphrasing, start, after, drawn, hrun, rfl⟩ := sample_ok hbase
  have hnodup := hn domain hdomain
  obtain ⟨draw, h, rfl⟩ :=
    (yields_rootCause hnodup (rootCause_room hrun) false).of_run hrun
  obtain ⟨first, second, far, kept, hchain, -⟩ := h.chain
  obtain ⟨hsome, rfl⟩ := @corruptToPair_baseOf _ _ domain phrasing h _ _ _ hchain _ htwin
  obtain ⟨⟨ballot, noise⟩, hpair⟩ := Option.isSome_iff_exists.mp hsome
  have hsound := sound_twin h hchain hpair domain phrasing
  refine ⟨?_, ⟨(chainFacts draw).length, ?_, ?_⟩, ballot_twin h hchain hpair, hsound.distinct, ?_,
    rfl, kinds_twin h hchain hpair, fun inner question state hids hfacts =>
      decide_proved (hsound.proves_perm hfacts) (hids ▸ List.mem_cons_self),
    fun hnames drawn => renders_ok hlaws score hsound hnames
      (questionText_some score (show Family.rootCauseChain ∈ families by decide) hphrasing) drawn⟩
  · simp [rootCauseFacts_eq, twinFacts]
  · simp [rootCauseFacts_eq]
  · simp [rootCauseFacts_eq, twinFacts]
  · rw [needs_twin, hchain]
    exact List.mem_cons_self

end Law

section Samples

attribute [local instance] plainStd

def modules : Domain :=
  ⟨"module", "module", ["parser", "lexer", "runtime", "linker", "driver", "codec", "serial", "fsm"]⟩

def driverDown : Sampled :=
  ⟨[.dependsOn "fsm" "driver", .dependsOn "codec" "fsm", .health "driver" .down,
      .health "fsm" .down, .health "codec" .down, .health "linker" .down,
      .health "serial" .healthy, .health "runtime" .healthy], "driver",
    [⟨"fsm", .symptom⟩, ⟨"codec", .symptom⟩, ⟨"linker", .standaloneFailure⟩,
      ⟨"serial", .healthyPeer⟩, ⟨"parser", .unrelated⟩], .rootCauseChain, modules, 2⟩

/-- Its twin, whose driver is healthy. -/
def fsmDown : Sampled :=
  ⟨[.dependsOn "fsm" "driver", .dependsOn "codec" "fsm", .health "driver" .healthy,
      .health "fsm" .down, .health "codec" .down, .health "linker" .down,
      .health "serial" .healthy, .health "runtime" .healthy], "fsm",
    [⟨"codec", .symptom⟩, ⟨"linker", .standaloneFailure⟩, ⟨"serial", .healthyPeer⟩,
      ⟨"parser", .unrelated⟩, ⟨"driver", .healthyPeer⟩], .rootCauseChain, modules, 2⟩

/-- The third stream of the generator's domains has a twin. -/
theorem corruptToPair_lawful_modules :
    (BlankLaws ∧ (∀ domain ∈ domains, domain.names.Nodup) ∧
      sample ⟨[], fun _ => throw .outOfRange⟩ domains .rootCauseChain ⟨2⟩ =
        .ok (driverDown, ⟨0xcc623af8783354e9⟩) ∧
      corruptToPair driverDown = some fsmDown) ∧
    fsmDown.ballot.Perm driverDown.ballot ∧ fsmDown.KindsTrue ∧
    ∃ text drawn', stateText fsmDown.facts ⟨7⟩ = .ok (text, drawn') ∧
      verifyItem ⟨[], fun _ => throw .outOfRange⟩ fsmDown text = .ok () := by
  have hnodup : ∀ domain ∈ domains, domain.names.Nodup := fun domain h => (domains_pooled domain h).1
  have hbase : sample ⟨[], fun _ => throw .outOfRange⟩ domains .rootCauseChain ⟨2⟩ =
      .ok (driverDown, ⟨0xcc623af8783354e9⟩) := by decide +kernel
  have htwin : corruptToPair driverDown = some fsmDown := by decide +kernel
  obtain ⟨-, -, hballot, -, -, -, hkinds, -, hverified⟩ := corruptToPair_lawful plain_blankLaws
    ⟨[], fun _ => throw .outOfRange⟩ hnodup hbase htwin
  exact ⟨⟨plain_blankLaws, hnodup, hbase, htwin⟩, hballot, hkinds,
    hverified (domains_pooled modules (by decide)).2.2 ⟨7⟩⟩

end Samples

end OpenCodifier.Itemgen
