import OpenCodifier.Itemgen.Kinds
set_option autoImplicit false

namespace OpenCodifier.Itemgen

open Sampling

section Rubric

def healthLevel (healthy degraded down : Nat) : Nat :=
  let total := healthy + degraded + down
  if total < 2 * down then 0
  else if 0 < down && total ≤ 2 * (degraded + down) then 1
  else if 0 < down || healthy < degraded then 2
  else 3

def bump (counts : Nat × Nat × Nat) : Health → Nat × Nat × Nat
  | .healthy => (counts.1 + 1, counts.2.1, counts.2.2)
  | .degraded => (counts.1, counts.2.1 + 1, counts.2.2)
  | .down => (counts.1, counts.2.1, counts.2.2 + 1)

def countFact (counts : Nat × Nat × Nat) : RelationalFact → Nat × Nat × Nat
  | .health _ status => bump counts status
  | .healthList _ statuses => statuses.foldl bump counts
  | _ => counts

def countStatuses (facts : List RelationalFact) : Nat × Nat × Nat := facts.foldl countFact (0, 0, 0)

/-- Whether nothing is down at the second level. -/
def nothingDown (total : Nat) : Draw Bool :=
  if 3 ≤ total then Draw.percent 50 else pure false

def countsForLevel (level total : Nat) : Draw (Nat × Nat × Nat) :=
  match level with
  | 0 => do
    let room ← Draw.sub total (total / 2 + 1)
    let more ← Draw.below (room + 1)
    let x := total / 2 + 1 + more
    let rest ← Draw.sub total x
    let d ← Draw.below (rest + 1)
    let h ← Draw.sub rest d
    pure (h, d, x)
  | 1 => do
    let more ← Draw.below (total / 2)
    let x := 1 + more
    let minD ← Draw.sub ((total + 1) / 2) x
    let left ← Draw.sub total x
    let room ← Draw.sub left minD
    let extra ← Draw.below (room + 1)
    let d := minD + extra
    let h ← Draw.sub left d
    pure (h, d, x)
  | 2 => do
    let degradedLeads ← nothingDown total
    if degradedLeads then
      let room ← Draw.sub total (total / 2 + 1)
      let more ← Draw.below (room + 1)
      let d := total / 2 + 1 + more
      let h ← Draw.sub total d
      pure (h, d, 0)
    else
      let under ← Draw.sub total 1
      let more ← Draw.below (under / 2)
      let x := 1 + more
      let maxD ← Draw.sub (under / 2) x
      let d ← Draw.below (maxD + 1)
      let left ← Draw.sub total x
      let h ← Draw.sub left d
      pure (h, d, x)
  | _ => do
    let room ← Draw.sub total ((total + 1) / 2)
    let more ← Draw.below (room + 1)
    let h := (total + 1) / 2 + more
    let d ← Draw.sub total h
    pure (h, d, 0)

end Rubric

section Dealing

variable {α : Type}

/-- Where the dealing stands: what each entity has, the next status and the pass. -/
structure Deal (α : Type) where
  slots : List (List α)
  next : Nat
  pass : Nat

def dealFirst (statuses : List α) (entities : Nat) : Draw (Deal α) := do
  let slots ← (List.range entities).mapM fun index => do
    let status ← Draw.index statuses index
    pure [status]
  pure ⟨slots, entities, 0⟩

/-- The next statuses go to the slots in turn until none is left; only the first two passes
deal. -/
def dealSlots (statuses : List α) (pass : Nat) : List (List α) → Nat → List (List α) × Nat
  | [], next => ([], next)
  | slot :: slots, next =>
    match statuses[next]? with
    | none => (slot :: slots, next)
    | some status =>
      if pass < 2 then
        let dealt := dealSlots statuses pass slots (next + 1)
        ((slot ++ [status]) :: dealt.1, dealt.2)
      else
        let dealt := dealSlots statuses pass slots next
        (slot :: dealt.1, dealt.2)

/-- Passes while statuses are left; none when so many do not end. -/
def dealRest (statuses : List α) : Nat → Deal α → Option (Deal α)
  | 0, _ => none
  | fuel + 1, deal =>
    if deal.next < statuses.length then
      let dealt := dealSlots statuses deal.pass deal.slots deal.next
      dealRest statuses fuel ⟨dealt.1, dealt.2, deal.pass + 1⟩
    else some deal

end Dealing

section Board

structure ScoreDraw where
  entities : List String
  level : Nat
  statuses : List Health

/-- The second level needs four reports. -/
def boardTotal (level total : Nat) : Nat := if level = 2 && total < 4 then 4 else total

def statusesFor (counts : Nat × Nat × Nat) : List Health :=
  List.replicate counts.1 .healthy ++ List.replicate counts.2.1 .degraded ++
    List.replicate counts.2.2 .down

def scoreDraw (domain : Domain) : Draw ScoreDraw := do
  let more ← Draw.below 4
  let entities ← takeNames domain (2 + more)
  let perEntity := entities.length
  let extra ← Draw.below (2 * perEntity + 1)
  let level ← Draw.below 4
  let counts ← countsForLevel level (boardTotal level (perEntity + extra))
  let statuses ← Draw.shuffle (statusesFor counts)
  pure ⟨entities, level, statuses⟩

def boardFact (entity : String) : List Health → RelationalFact
  | [status] => .health entity status
  | statuses => .healthList entity statuses

def scoreItem (domain : Domain) (draw : ScoreDraw) (deal : Deal Health) : Sampled :=
  ⟨(draw.entities.zip deal.slots).map fun e => boardFact e.1 e.2, toString draw.level, [],
    .scoreBoard, domain, 0⟩

/-- A health board whose gold is the level of its reports; none when the dealing does not end within
so many passes. -/
def scoreBoard (fuel : Nat) (domain : Domain) : Draw (Option Sampled) := do
  let draw ← scoreDraw domain
  let deal ← dealFirst draw.statuses draw.entities.length
  pure ((dealRest draw.statuses fuel deal).map (scoreItem domain draw))

end Board

section Levels

def Realizes (level total : Nat) (counts : Nat × Nat × Nat) : Prop :=
  counts.1 + counts.2.1 + counts.2.2 = total ∧ healthLevel counts.1 counts.2.1 counts.2.2 = level

def Feasible (level total : Nat) : Prop :=
  level < 4 ∧ 1 ≤ total ∧ (level = 1 → 2 ≤ total) ∧ (level = 2 → 4 ≤ total)

theorem healthLevel_eq_zero {h d x : Nat} (hx : h + d + x < 2 * x) : healthLevel h d x = 0 := by
  rw [healthLevel, if_pos hx]

theorem healthLevel_eq_one {h d x : Nat} (hpos : 0 < x) (hx : 2 * x ≤ h + d + x)
    (hd : h + d + x ≤ 2 * (d + x)) : healthLevel h d x = 1 := by
  rw [healthLevel, if_neg (by omega), if_pos (by simp [hpos, hd])]

theorem healthLevel_eq_two {h d x : Nat} (hx : 2 * x ≤ h + d + x)
    (hd : (0 < x ∧ 2 * (d + x) < h + d + x) ∨ (x = 0 ∧ h < d)) : healthLevel h d x = 2 := by
  rw [healthLevel, if_neg (by omega), if_neg (by simp; omega), if_pos (by simp; omega)]

theorem healthLevel_eq_three {h d : Nat} (hd : d ≤ h) : healthLevel h d 0 = 3 := by
  rw [healthLevel, if_neg (by omega), if_neg (by simp), if_neg (by simp; omega)]

/-- No draw of report counts faults, and they realize their level. -/
theorem yields_countsForLevel {level total : Nat} (h : Feasible level total) :
    Yields (countsForLevel level total) (Realizes level total) := by
  obtain ⟨hlevel, hpos, hone, htwo⟩ := h
  match level, hlevel with
  | 0, _ =>
    refine (Draw.yields_sub (show total / 2 + 1 ≤ total by omega)).bind fun room hroom => ?_
    refine (Draw.yields_below (Nat.succ_pos room)).bind fun more hmore => ?_
    refine (Draw.yields_sub (show total / 2 + 1 + more ≤ total by omega)).bind fun rest hrest => ?_
    refine (Draw.yields_below (Nat.succ_pos rest)).bind fun d hd => ?_
    refine (Draw.yields_sub (show d ≤ rest by omega)).bind fun h hh => ?_
    exact yields_pure ⟨by dsimp only; omega, healthLevel_eq_zero (by dsimp only; omega)⟩
  | 1, _ =>
    have htotal := hone rfl
    refine (Draw.yields_below (show 0 < total / 2 by omega)).bind fun more hmore => ?_
    refine (Draw.yields_sub (show 1 + more ≤ (total + 1) / 2 by omega)).bind fun minD hminD => ?_
    refine (Draw.yields_sub (show 1 + more ≤ total by omega)).bind fun left hleft => ?_
    refine (Draw.yields_sub (show minD ≤ left by omega)).bind fun room hroom => ?_
    refine (Draw.yields_below (Nat.succ_pos room)).bind fun extra hextra => ?_
    refine (Draw.yields_sub (show minD + extra ≤ left by omega)).bind fun h hh => ?_
    exact yields_pure ⟨by dsimp only; omega, healthLevel_eq_one (by dsimp only; omega)
      (by dsimp only; omega) (by dsimp only; omega)⟩
  | 2, _ =>
    have htotal := htwo rfl
    have hcoin : Yields (nothingDown total) fun _ => True := by
      rw [nothingDown, if_pos (by omega)]
      exact Draw.yields_percent 50
    refine hcoin.bind fun degradedLeads _ => ?_
    cases degradedLeads with
    | true =>
      refine (Draw.yields_sub (show total / 2 + 1 ≤ total by omega)).bind fun room hroom => ?_
      refine (Draw.yields_below (Nat.succ_pos room)).bind fun more hmore => ?_
      refine (Draw.yields_sub (show total / 2 + 1 + more ≤ total by omega)).bind fun h hh => ?_
      exact yields_pure ⟨by dsimp only; omega, healthLevel_eq_two (by dsimp only; omega)
        (Or.inr ⟨rfl, by dsimp only; omega⟩)⟩
    | false =>
      refine (Draw.yields_sub (show 1 ≤ total by omega)).bind fun under hunder => ?_
      refine (Draw.yields_below (show 0 < under / 2 by omega)).bind fun more hmore => ?_
      refine (Draw.yields_sub (show 1 + more ≤ under / 2 by omega)).bind fun maxD hmaxD => ?_
      refine (Draw.yields_below (Nat.succ_pos maxD)).bind fun d hd => ?_
      refine (Draw.yields_sub (show 1 + more ≤ total by omega)).bind fun left hleft => ?_
      refine (Draw.yields_sub (show d ≤ left by omega)).bind fun h hh => ?_
      exact yields_pure ⟨by dsimp only; omega, healthLevel_eq_two (by dsimp only; omega)
        (Or.inl ⟨by dsimp only; omega, by dsimp only; omega⟩)⟩
  | 3, _ =>
    refine (Draw.yields_sub (show (total + 1) / 2 ≤ total by omega)).bind fun room hroom => ?_
    refine (Draw.yields_below (Nat.succ_pos room)).bind fun more hmore => ?_
    refine (Draw.yields_sub (show (total + 1) / 2 + more ≤ total by omega)).bind fun d hd => ?_
    exact yields_pure ⟨by dsimp only; omega, healthLevel_eq_three (by dsimp only; omega)⟩

end Levels

section Passes

variable {α : Type} {statuses : List α} {entities : Nat} {deal final : Deal α}

/-- A pass hands out the next statuses: none is lost, and no slot gets two. -/
theorem dealSlots_spec {pass : Nat} (hpass : pass < 2) (slots : List (List α)) {next : Nat}
    (hnext : next ≤ statuses.length) :
    (dealSlots statuses pass slots next).2 = min (next + slots.length) statuses.length ∧
      ((dealSlots statuses pass slots next).1.flatten ++
        statuses.drop (dealSlots statuses pass slots next).2).Perm
          (slots.flatten ++ statuses.drop next) ∧
      List.Forall₂ (fun slot dealt => slot.length ≤ dealt.length ∧ dealt.length ≤ slot.length + 1)
        slots (dealSlots statuses pass slots next).1 := by
  induction slots generalizing next with
  | nil =>
    refine ⟨?_, .refl _, .nil⟩
    rw [dealSlots, List.length_nil]
    omega
  | cons slot slots ih =>
    rw [dealSlots]
    cases hstatus : statuses[next]? with
    | none =>
      rw [List.getElem?_eq_none_iff] at hstatus
      refine ⟨?_, .refl _, List.forall₂_same.mpr fun s _ => ⟨le_rfl, Nat.le_succ _⟩⟩
      dsimp only
      rw [List.length_cons]
      omega
    | some status =>
      obtain ⟨hlt, hget⟩ := List.getElem?_eq_some_iff.mp hstatus
      obtain ⟨hcount, hperm, hsizes⟩ := ih (show next + 1 ≤ statuses.length by omega)
      simp only [if_pos hpass]
      refine ⟨?_, ?_, .cons ?_ hsizes⟩
      · rw [hcount, List.length_cons]
        omega
      · rw [List.flatten_cons, List.flatten_cons, List.drop_eq_getElem_cons hlt, hget,
          List.append_assoc, List.append_assoc, List.append_assoc, List.singleton_append]
        exact ((hperm.cons status).trans List.perm_middle.symm).append_left slot
      · rw [List.length_append, List.length_singleton]
        omega

/-- What the dealing keeps: nothing is lost or dealt twice, and every slot has a status more than
passes were made, or fewer when the statuses ran out. -/
structure Dealt (statuses : List α) (entities : Nat) (deal : Deal α) : Prop where
  pass : deal.pass ≤ 2
  slots : deal.slots.length = entities
  next : deal.next = min ((deal.pass + 1) * entities) statuses.length
  kept : (deal.slots.flatten ++ statuses.drop deal.next).Perm statuses
  sizes : ∀ slot ∈ deal.slots, 1 ≤ slot.length ∧ slot.length ≤ deal.pass + 1

theorem Dealt.pass_lt (h : Dealt statuses entities deal) (hfew : statuses.length ≤ 3 * entities)
    (hleft : deal.next < statuses.length) : deal.pass < 2 := by
  rcases Nat.lt_or_ge deal.pass 2 with hlt | hge
  · exact hlt
  · have hnext := h.next
    rw [Nat.le_antisymm h.pass hge] at hnext
    omega

theorem Dealt.turn (h : Dealt statuses entities deal) (hfew : statuses.length ≤ 3 * entities)
    (hleft : deal.next < statuses.length) :
    Dealt statuses entities ⟨(dealSlots statuses deal.pass deal.slots deal.next).1,
      (dealSlots statuses deal.pass deal.slots deal.next).2, deal.pass + 1⟩ := by
  have hpass := h.pass_lt hfew hleft
  obtain ⟨hcount, hperm, hsizes⟩ := dealSlots_spec hpass deal.slots hleft.le
  refine ⟨hpass, hsizes.length_eq ▸ h.slots, ?_, hperm.trans h.kept, fun dealt hdealt => ?_⟩
  · have hnext := h.next
    rw [Nat.succ_mul] at hnext
    dsimp only
    rw [hcount, h.slots, Nat.succ_mul, Nat.succ_mul]
    omega
  · obtain ⟨i, hi, rfl⟩ := List.mem_iff_getElem.mp hdealt
    have hslot := h.sizes _ (List.getElem_mem (hsizes.length_eq ▸ hi))
    have hgrown := (List.forall₂_iff_get.mp hsizes).2 i (hsizes.length_eq ▸ hi) hi
    simp only [List.get_eq_getElem] at hgrown
    dsimp only
    omega

/-- Three turns are enough: two passes, and the test that ends the loop. -/
theorem dealRest_ends (hfew : statuses.length ≤ 3 * entities) (fuel : Nat)
    (h : Dealt statuses entities deal) (hfuel : 3 ≤ fuel + deal.pass) :
    ∃ final, dealRest statuses fuel deal = some final ∧ Dealt statuses entities final ∧
      final.next = statuses.length := by
  induction fuel generalizing deal with
  | zero =>
    have hpass := h.pass
    omega
  | succ fuel ih =>
    rw [dealRest]
    split
    · rename_i hleft
      exact ih (h.turn hfew hleft) (by dsimp only; omega)
    · rename_i hdone
      have hnext := h.next
      exact ⟨deal, rfl, h, by omega⟩

theorem dealRest_more {fuel : Nat} (more : Nat) (h : dealRest statuses fuel deal = some final) :
    dealRest statuses (fuel + more) deal = some final := by
  induction fuel generalizing deal with
  | zero => cases h
  | succ fuel ih =>
    rw [dealRest] at h
    rw [Nat.add_right_comm, dealRest]
    split
    · rename_i hleft
      rw [if_pos hleft] at h
      exact ih h
    · rename_i hdone
      rw [if_neg hdone] at h
      exact h

theorem yields_dealFirst (hmany : entities ≤ statuses.length) :
    Yields (dealFirst statuses entities) (Dealt statuses entities) := by
  have hone : ∀ i ∈ List.range entities, Yields (do
      let status ← Draw.index statuses i
      pure [status]) fun slot => statuses[i]?.toList = slot ∧ slot.length = 1 := by
    intro i hi
    have hlt := (List.mem_range.mp hi).trans_le hmany
    refine (Draw.yields_index hlt).bind fun status hstatus => yields_pure ⟨?_, rfl⟩
    rw [List.getElem?_eq_getElem hlt, hstatus]
    rfl
  refine (yields_mapM _ hone).bind fun slots hslots => yields_pure ?_
  have hlength : slots.length = entities := by rw [← hslots.length_eq, List.length_range]
  have hslots' : (List.range entities).map (fun i => statuses[i]?.toList) = slots := by
    rw [← List.forall₂_eq_eq_eq, List.forall₂_map_left_iff]
    exact hslots.imp fun _ _ h => h.1
  have hflatten : ∀ n, ((List.range n).map fun i => statuses[i]?.toList).flatten =
      statuses.take n := by
    intro n
    induction n with
    | zero => rfl
    | succ n ih =>
      rw [List.range_succ, List.map_append, List.flatten_append, ih, List.take_add_one]
      simp
  refine ⟨Nat.zero_le 2, hlength, by dsimp only; omega, ?_, fun slot hslot => ?_⟩
  · dsimp only
    rw [← hslots', hflatten, List.take_append_drop]
  · obtain ⟨i, hi, rfl⟩ := List.mem_iff_getElem.mp hslot
    have hsize := (List.forall₂_iff_get.mp hslots).2 i (hslots.length_eq ▸ hi) hi
    simp only [List.get_eq_getElem] at hsize
    dsimp only
    omega

end Passes

section Boards

variable {domain : Domain}

structure ScoreDraw.Fits (pool : List String) (draw : ScoreDraw) : Prop where
  distinct : draw.entities.Nodup
  inPool : ∀ name ∈ draw.entities, name ∈ pool
  one : draw.entities.length ≤ draw.statuses.length
  three : draw.statuses.length ≤ 3 * draw.entities.length
  level : ∃ counts, Realizes draw.level draw.statuses.length counts ∧
    draw.statuses.Perm (statusesFor counts)

theorem feasible_boardTotal {level entities drawn : Nat} (hlevel : level < 4) (htwo : 2 ≤ entities)
    (hlow : entities ≤ drawn) (hhigh : drawn ≤ 3 * entities) :
    Feasible level (boardTotal level drawn) ∧ entities ≤ boardTotal level drawn ∧
      boardTotal level drawn ≤ 3 * entities := by
  rw [boardTotal, Feasible]
  split
  · rename_i hfew
    simp only [Bool.and_eq_true, decide_eq_true_eq] at hfew
    omega
  · rename_i henough
    simp only [Bool.and_eq_true, decide_eq_true_eq] at henough
    omega

theorem length_statusesFor (counts : Nat × Nat × Nat) :
    (statusesFor counts).length = counts.1 + counts.2.1 + counts.2.2 := by
  simp [statusesFor, Nat.add_assoc]

theorem yields_scoreDraw (hn : domain.names.Nodup) (h5 : 5 ≤ domain.names.length) :
    Yields (scoreDraw domain) (ScoreDraw.Fits domain.names) := by
  refine (Draw.yields_below (show 0 < 4 by omega)).bind fun more hmore => ?_
  refine (yields_takeNames hn (show 2 + more ≤ domain.names.length by omega)).bind
    fun entities hentities => ?_
  obtain ⟨hlength, hdistinct, hpool⟩ := hentities
  refine (Draw.yields_below (Nat.succ_pos (2 * entities.length))).bind fun extra hextra => ?_
  refine (Draw.yields_below (show 0 < 4 by omega)).bind fun level hlevel => ?_
  obtain ⟨hfeasible, hone, hthree⟩ := feasible_boardTotal hlevel (show 2 ≤ entities.length by omega)
    (show entities.length ≤ entities.length + extra by omega) (by omega)
  refine (yields_countsForLevel hfeasible).bind fun counts hcounts => ?_
  refine (Draw.yields_shuffle (statusesFor counts)).bind fun statuses hperm => yields_pure ?_
  have htotal : statuses.length = boardTotal level (entities.length + extra) := by
    rw [hperm.length_eq, length_statusesFor, hcounts.1]
  exact ⟨hdistinct, hpool, htotal ▸ hone, htotal ▸ hthree, counts, htotal ▸ hcounts, hperm⟩

theorem reportedBy_boardFact (name entity : String) (slot : List Health) :
    reportedBy name (boardFact entity slot) = if entity = name then slot else [] := by
  unfold boardFact
  split <;> rfl

theorem statusesOf_board {entities : List String} {slots : List (List Health)}
    (hdistinct : entities.Nodup) (hlength : slots.length = entities.length) :
    entities.map (statusesOf ((entities.zip slots).map fun e => boardFact e.1 e.2)) = slots := by
  induction entities generalizing slots with
  | nil => exact (List.length_eq_zero_iff.mp hlength).symm
  | cons entity entities ih =>
    obtain ⟨slot, slots, rfl⟩ := List.exists_cons_of_length_eq_add_one hlength
    rw [List.nodup_cons] at hdistinct
    have hrest := ih hdistinct.2 (Nat.succ.inj hlength)
    have hnone : statusesOf ((entities.zip slots).map fun e => boardFact e.1 e.2) entity = [] := by
      rw [statusesOf, List.flatMap_eq_nil_iff]
      intro fact hfact
      obtain ⟨e, he, rfl⟩ := List.mem_map.mp hfact
      rw [reportedBy_boardFact, if_neg]
      rintro rfl
      exact hdistinct.1 (List.of_mem_zip he).1
    rw [List.map_cons, List.zip_cons_cons, List.map_cons, statusesOf, List.flatMap_cons,
      ← statusesOf, hnone, reportedBy_boardFact, if_pos rfl, List.append_nil]
    refine congrArg (slot :: ·) (Eq.trans (List.map_congr_left fun name hname => ?_) hrest)
    rw [statusesOf, List.flatMap_cons, reportedBy_boardFact, if_neg, List.nil_append, ← statusesOf]
    rintro rfl
    exact hdistinct.1 hname

theorem foldl_bump (statuses : List Health) (counts : Nat × Nat × Nat) :
    statuses.foldl bump counts = (counts.1 + statuses.count .healthy,
      counts.2.1 + statuses.count .degraded, counts.2.2 + statuses.count .down) := by
  induction statuses generalizing counts with
  | nil => rfl
  | cons status statuses ih =>
    rw [List.foldl_cons, ih]
    cases status <;> simp [bump] <;> omega

theorem countFact_boardFact (counts : Nat × Nat × Nat) (entity : String) (slot : List Health) :
    countFact counts (boardFact entity slot) = slot.foldl bump counts := by
  unfold boardFact
  split <;> rfl

theorem countStatuses_board {entities : List String} {slots : List (List Health)}
    (hlength : slots.length = entities.length) :
    countStatuses ((entities.zip slots).map fun e => boardFact e.1 e.2) =
      slots.flatten.foldl bump (0, 0, 0) := by
  have hslots : (entities.zip slots).map Prod.snd = slots := List.map_snd_zip (by omega)
  calc
    countStatuses ((entities.zip slots).map fun e => boardFact e.1 e.2)
        = (entities.zip slots).foldl (fun counts e => e.2.foldl bump counts) (0, 0, 0) := by
          simp only [countStatuses, List.foldl_map, countFact_boardFact]
    _ = ((entities.zip slots).map Prod.snd).foldl (fun counts slot => slot.foldl bump counts)
        (0, 0, 0) := by rw [List.foldl_map]
    _ = slots.flatten.foldl bump (0, 0, 0) := by rw [hslots, List.foldl_flatten]

theorem count_statusesFor {statuses : List Health} {counts : Nat × Nat × Nat}
    (h : statuses.Perm (statusesFor counts)) : statuses.foldl bump (0, 0, 0) = counts := by
  rw [foldl_bump, h.count_eq, h.count_eq, h.count_eq]
  simp [statusesFor, List.count_replicate]

end Boards

/-- A score item is drawn without a fault from every pool of at least five different names, and the
dealing ends. The counts of its level have the total asked for and are of the level; each entity
gets between one and three of the statuses, which are all dealt, each once; and the gold is the
level of what the facts report. -/
theorem scoreBoard_lawful {domain : Domain} (hn : domain.names.Nodup)
    (h5 : 5 ≤ domain.names.length) :
    (∀ level entities drawn, level < 4 → 2 ≤ entities → entities ≤ 5 → entities ≤ drawn →
      drawn ≤ 3 * entities →
      Yields (countsForLevel level (boardTotal level drawn))
        (Realizes level (boardTotal level drawn))) ∧
    ∀ rng, ∃ draw drawn sampled rng', scoreDraw domain rng = .ok (draw, drawn) ∧
      (∀ fuel, 3 ≤ fuel → scoreBoard fuel domain rng = .ok (some sampled, rng')) ∧
      draw.entities.Nodup ∧ (∀ name ∈ draw.entities, name ∈ domain.names) ∧
      sampled.facts.length = draw.entities.length ∧
      (∀ name ∈ draw.entities, 1 ≤ (statusesOf sampled.facts name).length ∧
        (statusesOf sampled.facts name).length ≤ 3) ∧
      (draw.entities.flatMap (statusesOf sampled.facts)).Perm draw.statuses ∧
      ∃ h d x, countStatuses sampled.facts = (h, d, x) ∧
        sampled.gold = toString (healthLevel h d x) := by
  refine ⟨fun level entities drawn hlevel htwo _ hlow hhigh =>
    yields_countsForLevel (feasible_boardTotal hlevel htwo hlow hhigh).1, fun rng => ?_⟩
  obtain ⟨draw, drawn, hdraw, hfits⟩ := yields_scoreDraw hn h5 rng
  obtain ⟨deal, rng', hdeal, hdealt⟩ := @yields_dealFirst _ draw.statuses _ hfits.one drawn
  obtain ⟨final, hfinal, hend, hall⟩ := dealRest_ends hfits.three 3 hdealt (Nat.le_add_right 3 _)
  have hstated := statusesOf_board hfits.distinct hend.slots
  have hkept : final.slots.flatten.Perm draw.statuses := by
    have hkept := hend.kept
    rwa [hall, List.drop_length, List.append_nil] at hkept
  obtain ⟨counts, ⟨-, hlevel⟩, hcounts⟩ := hfits.level
  refine ⟨draw, drawn, scoreItem domain draw final, rng', hdraw, fun fuel hfuel => ?_,
    hfits.distinct, hfits.inPool, ?_, fun name hname => ?_, ?_, counts.1, counts.2.1, counts.2.2, ?_,
    congrArg toString hlevel.symm⟩
  · obtain ⟨more, rfl⟩ := Nat.exists_eq_add_of_le hfuel
    rw [scoreBoard, run_bind hdraw, run_bind hdeal, dealRest_more more hfinal]
    rfl
  · simp [scoreItem, hend.slots]
  · have hslot : statusesOf (scoreItem domain draw final).facts name ∈ final.slots := by
      rw [← hstated]
      exact List.mem_map_of_mem hname
    have hsize := hend.sizes _ hslot
    have hpass := hend.pass
    omega
  · rw [List.flatMap_def]
    exact (congrArg List.flatten hstated).symm ▸ hkept
  · exact (countStatuses_board hend.slots).trans (count_statusesFor (hkept.trans hcounts))

theorem scoreBoard_lawful_regions : regions.names.Nodup ∧ 5 ≤ regions.names.length ∧
    ∃ sampled rng', scoreBoard 3 regions ⟨0⟩ = .ok (some sampled, rng') := by
  have hn : regions.names.Nodup := by decide
  have h5 : 5 ≤ regions.names.length := by decide
  obtain ⟨-, hboard⟩ := scoreBoard_lawful hn h5
  obtain ⟨draw, drawn, sampled, rng', -, hrun, -⟩ := hboard ⟨0⟩
  exact ⟨hn, h5, sampled, rng', hrun 3 le_rfl⟩

end OpenCodifier.Itemgen
