import OpenCodifier.Itemgen.FirstRestored
import OpenCodifier.Itemgen.Healthiest
import OpenCodifier.Itemgen.RootCause
set_option autoImplicit false

namespace OpenCodifier.Itemgen

open Sampling
open Neighbours (windows)
open RelationalSolver (Needs reports healthyReports)

section Meaning

def entitiesOf : RelationalFact → List String
  | .dependsOn dependent dependency => [dependent, dependency]
  | .health entity _ => [entity]
  | .healthList entity _ => [entity]
  | .restoresAfter later earlier => [later, earlier]
  | .deadline entity _ => [entity]
  | .event entity _ => [entity]

def reportedBy (name : String) : RelationalFact → List Health
  | .health entity status => if entity = name then [status] else []
  | .healthList entity statuses => if entity = name then statuses else []
  | _ => []

def statusesOf (facts : List RelationalFact) (name : String) : List Health :=
  facts.flatMap (reportedBy name)

/-- What each kind says of a candidate, as it is documented. -/
def DistractorKind.TrueOf (facts : List RelationalFact) (gold name : String) :
    DistractorKind → Prop
  | .symptom => .health name .down ∈ facts ∧
      ∃ dependency, .dependsOn name dependency ∈ facts ∧ .health dependency .down ∈ facts
  | .standaloneFailure => .health name .down ∈ facts ∧
      ∀ dependent, .dependsOn dependent name ∉ facts
  | .healthyPeer => .health name .healthy ∈ facts
  | .unrelated => ∀ fact ∈ facts, name ∉ entitiesOf fact
  | .runnerUp => (statusesOf facts name).count .healthy + 1 = (statusesOf facts gold).count .healthy
  | .degradedHeavy => statusesOf facts name ≠ [] ∧ .healthy ∉ statusesOf facts name
  | .zeroReport => statusesOf facts name = []
  | .waiter => (∃ earlier, .restoresAfter name earlier ∈ facts) ∧
      ∃ later, .restoresAfter later name ∈ facts
  | .lastInOrder => (∃ earlier, .restoresAfter name earlier ∈ facts) ∧
      ∀ later, .restoresAfter later name ∉ facts

/-- Every distractor is wrong for the reason it is labelled with. -/
def Sampled.KindsTrue (sampled : Sampled) : Prop :=
  ∀ d ∈ sampled.distractors, d.kind.TrueOf sampled.facts sampled.gold d.name

end Meaning

section Reports

variable {facts : List RelationalFact} {pool : List String} {name : String}

theorem count_reportedBy (fact : RelationalFact) :
    (reportedBy name fact).count .healthy = Tally.share (healthyReports fact) name := by
  cases fact with
  | health entity status =>
    by_cases he : entity = name
    · cases status <;> simp [reportedBy, healthyReports, Tally.share, he]
    · cases status <;> simp [reportedBy, healthyReports, Tally.share, he]
  | healthList entity statuses =>
    by_cases he : entity = name <;> simp [reportedBy, healthyReports, Tally.share, he]
  | dependsOn a b => rfl
  | restoresAfter a b => rfl
  | deadline a t => rfl
  | event a t => rfl

theorem count_statusesOf (facts : List RelationalFact) (name : String) :
    (statusesOf facts name).count .healthy = reports facts name := by
  induction facts with
  | nil => rfl
  | cons fact facts ih =>
    rw [statusesOf, List.flatMap_cons, List.count_append, ← statusesOf, ih, count_reportedBy,
      reports, reports, List.flatMap_cons, Tally.share_append]

theorem entitiesOf_about {fact : RelationalFact} (h : About pool fact) :
    ∀ x ∈ entitiesOf fact, x ∈ pool := by
  cases fact with
  | deadline x t => exact h.elim
  | event x t => exact h.elim
  | health x s => simpa [entitiesOf, About] using h
  | healthList x s => simpa [entitiesOf] using h.1
  | dependsOn x y => simpa [entitiesOf, About] using h
  | restoresAfter x y => simpa [entitiesOf, About] using h

theorem reportedBy_eq_nil {fact : RelationalFact} (h : name ∉ entitiesOf fact) :
    reportedBy name fact = [] := by
  cases fact <;> simp_all [entitiesOf, reportedBy, eq_comm]

theorem statusesOf_eq_nil (h : ∀ fact ∈ facts, About pool fact) (hname : name ∉ pool) :
    statusesOf facts name = [] := by
  rw [statusesOf, List.flatMap_eq_nil_iff]
  intro fact hfact
  exact reportedBy_eq_nil fun hm => hname (entitiesOf_about (h fact hfact) name hm)

end Reports

section Families

variable {pool : List String}

theorem kinds_rootCause {draw : RootCauseDraw} (h : draw.Fits pool) (withOrder : Bool) :
    ∀ d ∈ rootCauseDistractors draw,
      d.kind.TrueOf (rootCauseFacts draw withOrder) draw.gold d.name := by
  obtain ⟨first, second, far, kept, hchain, hsymptoms, -⟩ := h.chain
  have hdown : ∀ x, x = draw.gold ∨ x ∈ draw.symptoms ∨ x = draw.standalone →
      RelationalFact.health x .down ∈ rootCauseFacts draw withOrder := fun x => down_rootCause.mpr
  have hneeds : ∀ a b, RelationalFact.dependsOn a b ∈ rootCauseFacts draw withOrder ↔
      (b, a) ∈ windows draw.chain := fun a b => needs_rootCause
  have hstandalone := h.other_notMem (show draw.standalone ∈ draw.others from List.mem_cons_self)
  have hunrelated : draw.unrelated ∉ draw.mentioned := by
    have hnodup := h.distinct
    rw [RootCauseDraw.others] at hnodup
    rw [RootCauseDraw.mentioned]
    simp only [List.nodup_append, List.nodup_cons, List.mem_cons, List.mem_append] at hnodup ⊢
    obtain ⟨-, ⟨hne, hout, -⟩, hchain⟩ := hnodup
    rintro (hm | hm | hm)
    · exact hchain _ hm _ (Or.inr (Or.inl rfl)) rfl
    · exact hne (Or.inl hm.symm)
    · exact hout hm
  rw [rootCauseDistractors, topUp_full _ _ _ (by simp [hsymptoms]), hsymptoms]
  simp only [List.take_succ_cons, List.take_zero, List.map_cons, List.map_nil, List.forall_mem_append,
    List.forall_mem_cons, List.not_mem_nil, false_imp_iff, implies_true, and_true]
  refine ⟨⟨⟨⟨?_, ?_⟩, ?_⟩, ?_⟩, ?_⟩
  · refine ⟨hdown first (by simp [hsymptoms]), draw.gold, ?_, hdown _ (Or.inl rfl)⟩
    rw [hneeds, hchain]
    exact List.mem_cons_self
  · refine ⟨hdown second (by simp [hsymptoms]), first, ?_, hdown first (by simp [hsymptoms])⟩
    rw [hneeds, hchain]
    exact List.mem_cons_of_mem _ List.mem_cons_self
  · refine ⟨hdown _ (Or.inr (Or.inr rfl)), fun dependent hm => hstandalone ?_⟩
    exact (Neighbours.mem_of_window ((hneeds _ _).mp hm)).1
  · cases hpair : draw.pair with
    | none => simp
    | some pair => simp [DistractorKind.TrueOf, rootCauseFacts, hpair]
  · intro fact hfact hm
    exact hunrelated (entitiesOf_about (about_mentioned_rootCause h fact hfact) _ hm)

theorem kinds_board {board : HealthBoard} (h : board.Fits pool) :
    (∀ d ∈ board.distractors, d.kind.TrueOf board.facts board.winner d.name) ↔ board.best = 2 := by
  have hbest := h.best
  have hentries := h.entries
  have hreports : ∀ entry : String × Nat, entry ∈ board.counted ++ [(board.heavy, 0)] →
      (statusesOf board.facts entry.1).count .healthy = entry.2 := by
    intro entry hentry
    rw [count_statusesOf]
    exact RelationalSolver.reports_of_mem h.keys_nodup (hentries ▸ hentry)
  have hcounted : ∀ entry ∈ [(board.winner, board.best), (board.runner, board.best - 1),
      (board.third, board.best - 2)], entry.2 ≠ 0 →
      (statusesOf board.facts entry.1).count .healthy = entry.2 := by
    intro entry hentry hne
    exact hreports entry (List.mem_append_left _ (List.mem_filter.mpr ⟨hentry, by simpa using hne⟩))
  have hwinner := hcounted (board.winner, board.best) (by simp) (show board.best ≠ 0 by omega)
  have hrunner := hcounted (board.runner, board.best - 1) (by simp) (show board.best - 1 ≠ 0 by omega)
  have hheavy := hreports (board.heavy, 0) (by simp)
  have hdistinct := h.distinct
  dsimp only at hwinner hrunner hheavy
  have hsilent : statusesOf board.facts board.silent = [] := by
    refine statusesOf_eq_nil (about_mentioned_board h) fun hm => ?_
    have hin := HealthBoard.mentioned_mem hm
    have hout := (List.nodup_append.mp (show ([board.winner, board.runner, board.third, board.heavy] ++
      [board.silent]).Nodup from hdistinct)).2.2
    exact hout _ hin _ (List.mem_singleton_self _) rfl
  have hheavyStated : statusesOf board.facts board.heavy ≠ [] := by
    rw [statusesOf, HealthBoard.facts, List.flatMap_append]
    simp [reportedBy, h.heavy.1]
  simp only [HealthBoard.distractors, List.forall_mem_cons]
  constructor
  · rintro ⟨-, hthird, -⟩
    by_contra hne
    have hcount := hcounted (board.third, board.best - 2) (by simp)
      (show board.best - 2 ≠ 0 by omega)
    dsimp only at hcount
    rw [if_pos (by omega), DistractorKind.TrueOf, hcount, hwinner] at hthird
    omega
  · intro htwo
    refine ⟨?_, ?_, ⟨hheavyStated, List.count_eq_zero.mp hheavy⟩, hsilent, by simp⟩
    · rw [DistractorKind.TrueOf, hrunner, hwinner]
      omega
    · rw [if_neg (by omega)]
      refine statusesOf_eq_nil (about_mentioned_board h) fun hm => ?_
      rw [HealthBoard.mentioned, HealthBoard.counted, htwo] at hm
      simp [HealthBoard.names] at hdistinct hm
      tauto

theorem kinds_order {order : BringUp} (h : order.Fits pool) :
    ¬ ∀ d ∈ order.distractors pool, d.kind.TrueOf order.facts order.gold d.name := by
  intro htrue
  obtain ⟨added, hadded, -⟩ := topUp_spec (fun name => !order.chain.contains name) pool
    order.waiters (1 + order.waiters.length)
  have hside : (⟨order.side, .waiter⟩ : Distractor) ∈ order.distractors pool := by
    rw [BringUp.distractors, hadded]
    exact List.mem_append_left _ (by simp [BringUp.waiters])
  obtain ⟨-, later, hlater⟩ := htrue _ hside
  have hline : order.line = (order.gold :: order.second :: (order.middle ++ [order.last])) ++
      [order.side] := by simp [BringUp.line]
  have hdistinct := h.distinct
  rw [restores_order, hline] at hlater
  rw [hline] at hdistinct
  exact Neighbours.last_notMem hdistinct hlater

end Families

section Rooms

variable {domain : Domain} {rng rng' : Rng} {sampled : Sampled}

theorem rootCause_room {withOrder : Bool}
    (h : rootCause domain withOrder rng = .ok (sampled, rng')) : 5 ≤ domain.names.length := by
  obtain ⟨wantPair, rng₁, hwant, h⟩ := run_bind_ok.mp h
  have hpair := (yields_wantsPair domain).of_run hwant
  obtain ⟨room, rng₂, hroom, h⟩ := run_bind_ok.mp h
  obtain ⟨lengths, rng₃, hlengths, h⟩ := run_bind_ok.mp h
  obtain ⟨extra, rng₄, hextra, -⟩ := run_bind_ok.mp h
  have hpos := (Draw.below_ok.mp hextra).1
  obtain ⟨-, hlengths, -⟩ := Draw.sub_ok.mp hlengths
  obtain ⟨-, hroom, -⟩ := Draw.sub_ok.mp hroom
  cases wantPair with
  | true =>
    have h7 := hpair rfl
    omega
  | false =>
    rw [if_neg Bool.false_ne_true] at hroom
    omega

theorem firstRestored_room (h : firstRestored domain rng = .ok (sampled, rng')) :
    5 ≤ domain.names.length := by
  obtain ⟨room, rng₁, hroom, h⟩ := run_bind_ok.mp h
  obtain ⟨lengths, rng₂, hlengths, h⟩ := run_bind_ok.mp h
  obtain ⟨extra, rng₃, hextra, -⟩ := run_bind_ok.mp h
  have hpos := (Draw.below_ok.mp hextra).1
  obtain ⟨-, hlengths, -⟩ := Draw.sub_ok.mp hlengths
  obtain ⟨-, hroom, -⟩ := Draw.sub_ok.mp hroom
  omega

theorem takeNames_ok {count : Nat} {names : List String}
    (h : takeNames domain count rng = .ok (names, rng')) :
    names.length ≤ domain.names.length ∧ rng' = rng.after (domain.names.length - 1) := by
  obtain ⟨pool, rng₁, hpool, h⟩ := run_bind_ok.mp h
  cases h
  have hperm := (Draw.yields_shuffle domain.names).of_run hpool
  refine ⟨?_, Draw.shuffle_ok hpool⟩
  rw [List.length_take, hperm.length_eq]
  omega

theorem boardOf_room {names : List String} {more : Nat}
    (h : boardOf domain names more rng = .ok (sampled, rng')) : 5 ≤ names.length := by
  obtain ⟨second, rng₁, -, h⟩ := run_bind_ok.mp h
  obtain ⟨winner, rng₂, -, h⟩ := run_bind_ok.mp h
  obtain ⟨runner, rng₃, -, h⟩ := run_bind_ok.mp h
  obtain ⟨third, rng₄, -, h⟩ := run_bind_ok.mp h
  obtain ⟨heavy, rng₅, -, h⟩ := run_bind_ok.mp h
  obtain ⟨silent, rng₆, hsilent, -⟩ := run_bind_ok.mp h
  obtain ⟨hlt, -⟩ := List.getElem?_eq_some_iff.mp (Draw.index_ok.mp hsilent).1
  omega

theorem healthiest_ok (hn : domain.names.Nodup)
    (h : healthiest domain rng = .ok (sampled, rng')) :
    ∃ board : HealthBoard, board.Fits domain.names ∧
      board.best = 2 + (rng.draw (domain.names.length - 1)).toNat % 3 ∧
      sampled = ⟨board.facts, board.winner, board.distractors, .healthiestBoard, domain, 0⟩ := by
  rw [healthiest_eq] at h
  obtain ⟨names, rng₁, hnames, h⟩ := run_bind_ok.mp h
  obtain ⟨more, rng₂, hmore, h⟩ := run_bind_ok.mp h
  obtain ⟨hle, rfl⟩ := takeNames_ok hnames
  obtain ⟨-, rfl, -⟩ := Draw.below_ok.mp hmore
  have h5 : 5 ≤ domain.names.length := (boardOf_room h).trans hle
  obtain ⟨hlen, hnodup, hpool⟩ := (yields_takeNames hn h5).of_run hnames
  exact (yields_boardOf (Nat.mod_lt _ (by omega)) hlen hnodup hpool).of_run h

end Rooms

/-- The labels of an item are true exactly when it is a root cause item, or a board whose winner
has two healthy reports; the side waiter of a bring-up order is always mislabelled. -/
theorem kindsTrue_iff (score : ScoreFamily) {domain : Domain} (hn : domain.names.Nodup)
    {family : Family} (hfamily : family ∈ families) {rng rng' : Rng} {sampled : Sampled}
    (h : family.sampler score domain rng = .ok (sampled, rng')) :
    sampled.KindsTrue ↔ family = .rootCauseChain ∨ family = .rootCauseAgreeing ∨
      family = .healthiestBoard ∧ 3 ∣ (rng.draw (domain.names.length - 1)).toNat := by
  have hroot : ∀ withOrder, rootCause domain withOrder rng = .ok (sampled, rng') →
      sampled.KindsTrue := by
    intro withOrder hrun
    obtain ⟨draw, hfits, rfl⟩ := (yields_rootCause hn (rootCause_room hrun) withOrder).of_run hrun
    exact kinds_rootCause hfits withOrder
  simp only [families, List.mem_cons, List.not_mem_nil, or_false] at hfamily
  rcases hfamily with rfl | rfl | rfl | rfl
  · exact iff_of_true (hroot false h) (Or.inl rfl)
  · exact iff_of_true (hroot true h) (Or.inr (Or.inl rfl))
  · obtain ⟨board, hfits, hbest, rfl⟩ := healthiest_ok hn h
    rw [Sampled.KindsTrue, kinds_board hfits, hbest, Nat.dvd_iff_mod_eq_zero]
    simp
  · obtain ⟨order, hfits, rfl⟩ := (yields_firstRestored hn (firstRestored_room h)).of_run h
    exact iff_of_false (kinds_order hfits) (by simp)

section Samples

def regions : Domain := ⟨"region", "region", ["north", "south", "east", "west", "central", "coast"]⟩

def northAhead : Sampled :=
  ⟨[.healthList "north" [.healthy, .healthy, .healthy, .healthy],
      .healthList "south" [.healthy, .healthy, .healthy],
      .healthList "west" [.healthy, .healthy, .degraded],
      .healthList "east" [.degraded, .down, .degraded]], "north",
    [⟨"south", .runnerUp⟩, ⟨"west", .runnerUp⟩, ⟨"east", .degradedHeavy⟩,
      ⟨"central", .zeroReport⟩], .healthiestBoard, regions, 0⟩

def eastFirst : Sampled :=
  ⟨[.restoresAfter "west" "east", .restoresAfter "south" "west", .restoresAfter "coast" "south",
      .restoresAfter "central" "coast"], "east",
    [⟨"west", .waiter⟩, ⟨"coast", .lastInOrder⟩, ⟨"central", .waiter⟩, ⟨"south", .waiter⟩],
    .firstRestoredChain, regions, 0⟩

theorem healthiest_regions : healthiest regions ⟨1⟩ = .ok (northAhead, ⟨0xfa8cfc37711c2dba⟩) := by
  decide +kernel

/-- The board of the second stream, whose third place is no runner-up. -/
theorem kindsTrue_iff_regions : regions.names.Nodup ∧ Family.healthiestBoard ∈ families ∧
    Family.sampler ⟨[], fun _ => throw .outOfRange⟩ regions .healthiestBoard ⟨1⟩ =
      .ok (northAhead, ⟨0xfa8cfc37711c2dba⟩) ∧ ¬ northAhead.KindsTrue := by
  have hn : regions.names.Nodup := by decide
  refine ⟨hn, by decide, healthiest_regions, fun htrue => ?_⟩
  have hlabels := kindsTrue_iff ⟨[], fun _ => throw .outOfRange⟩ hn
    (show Family.healthiestBoard ∈ families by decide) healthiest_regions
  exact absurd (hlabels.mp htrue) (by decide +kernel)

/-- The last node of the order gates the side waiter, and the side waiter gates nothing. -/
theorem regions_mislabelled : firstRestored regions ⟨0⟩ = .ok (eastFirst, ⟨0xb54cda58fbbee87e⟩) ∧
    ¬ eastFirst.KindsTrue := by
  refine ⟨by decide +kernel, fun htrue => ?_⟩
  obtain ⟨-, later, hlater⟩ := htrue ⟨"central", .waiter⟩ (by decide)
  have hgates : ∀ fact ∈ eastFirst.facts, ∀ later, fact ≠ .restoresAfter later "central" := by
    simp [eastFirst]
  exact hgates _ hlater later rfl

end Samples

end OpenCodifier.Itemgen
