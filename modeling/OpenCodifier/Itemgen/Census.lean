import OpenCodifier.Itemgen.Generate
set_option autoImplicit false

namespace OpenCodifier.Itemgen

open Sampling

section Ids

/-- The part of an id behind its last dash. -/
def lastPart (id : String) : List Char := (id.toList.reverse.takeWhile (· ≠ '-')).reverse

/-- Whether an id is that of a twin, and the index of its slot. -/
def slotKey (id : String) : Bool × Nat :=
  ((lastPart id).head? = some 'p', Nat.ofDigitChars 10 ((lastPart id).filter Char.isDigit) 0)

theorem lastPart_append {front part : List Char} (h : '-' ∉ part) :
    lastPart (String.ofList (front ++ '-' :: part)) = part := by
  have hall : ∀ c ∈ part.reverse, (decide (c ≠ '-')) = true := by
    intro c hc
    rw [List.mem_reverse] at hc
    exact decide_eq_true fun he => h (he ▸ hc)
  rw [lastPart, String.toList_ofList, List.reverse_append, List.reverse_cons, List.append_assoc,
    List.takeWhile_append_of_pos hall]
  simp

theorem dash_notMem_padded (width n : Nat) : '-' ∉ padded width n := by
  intro h
  exact absurd (isDigit_of_mem_padded h) (by decide)

theorem number_padded (width n : Nat) :
    Nat.ofDigitChars 10 ((padded width n).filter Char.isDigit) 0 = n := by
  rw [List.filter_eq_self.mpr fun c hc => isDigit_of_mem_padded hc, ofDigitChars_padded]

theorem slotKey_recordIdOf (family : Family) (domain : Domain) (index : Nat) :
    slotKey (recordIdOf family domain index) = (false, index) := by
  have hid : recordIdOf family domain index =
      String.ofList (("ig-" ++ family.code ++ "-" ++ domain.code).toList ++
        '-' :: padded 6 index) := by
    refine String.toList_injective ?_
    simp [recordIdOf, String.toList_append]
  have hhead : (padded 6 index).head? ≠ some 'p' := fun h =>
    absurd (isDigit_of_mem_padded (List.mem_of_mem_head? h)) (by decide)
  rw [slotKey, hid, lastPart_append (dash_notMem_padded 6 index), number_padded,
    decide_eq_false hhead]

theorem slotKey_twinIdOf (recordId : String) (index : Nat) :
    slotKey (twinIdOf recordId index) = (true, index) := by
  have hid : twinIdOf recordId index =
      String.ofList (recordId.toList ++ '-' :: ('p' :: padded 6 index)) := by
    refine String.toList_injective ?_
    simp [twinIdOf, String.toList_append]
  have hdash : '-' ∉ 'p' :: padded 6 index := by
    simp [dash_notMem_padded]
  have hfilter : ('p' :: padded 6 index).filter Char.isDigit =
      (padded 6 index).filter Char.isDigit := rfl
  rw [slotKey, hid, lastPart_append hdash, hfilter, number_padded]
  rfl

variable [RustStd] {fuel : Nat} {guard : Option SuiteGuard} {config : GenConfig}

theorem SlotRecords.keys {index : Nat} {records : List Emitted}
    (h : SlotRecords fuel guard config index records) :
    (records.map fun e => slotKey e.recordId).Nodup ∧
      ∀ e ∈ records, (slotKey e.recordId).2 = index := by
  obtain ⟨base, hbase, hrecords⟩ := h
  have hkey : slotKey base.recordId = (false, index) := by
    rw [hbase.recordId, slotKey_recordIdOf]
  rcases hrecords with rfl | ⟨twin, htwin, rfl⟩
  · simp [hkey]
  · have htwinKey : slotKey twin.recordId = (true, index) := by
      rw [htwin.recordId, slotKey_twinIdOf]
    simp [hkey, htwinKey]

/-- No two records of a run have one id. -/
theorem nodup_recordIds {slots : List (List Emitted)}
    (h : ∀ i records, slots[i]? = some records → SlotRecords fuel guard config i records) :
    (slots.flatten.map Emitted.recordId).Nodup := by
  refine List.Nodup.of_map slotKey ?_
  rw [List.map_map, List.map_flatten, List.nodup_flatten]
  constructor
  · intro keys hkeys
    obtain ⟨records, hrecords, rfl⟩ := List.mem_map.mp hkeys
    obtain ⟨i, hi⟩ := List.mem_iff_getElem?.mp hrecords
    exact (h i records hi).keys.1
  · rw [List.pairwise_map, List.pairwise_iff_getElem]
    intro i j hi hj hij key hleft hright
    obtain ⟨e, he, rfl⟩ := List.mem_map.mp hleft
    obtain ⟨e', he', hkey⟩ := List.mem_map.mp hright
    have hfirst := (h i _ (List.getElem?_eq_getElem hi)).keys.2 e he
    have hsecond := (h j _ (List.getElem?_eq_getElem hj)).keys.2 e' he'
    have hsame : slotKey e'.recordId = slotKey e.recordId := hkey
    rw [hsame, hfirst] at hsecond
    omega

/-- Whatever the suite is, and also when a slot fails: the records emitted are those of the slots
up to the one that fails, in order, one for each slot and its minimal-pair twin or none, each under
an id of its own, kept from the suite and accepted by the verifier of its family. Three passes deal
any board, and its record then has the gold of its item for a label, as every other record has. -/
theorem generate_safe {turn : GenRun × Option Unverifiable}
    (h : generate fuel guard config = .ok turn) :
    ∃ slots : List (List Emitted), turn.1.emitted = slots.flatten ∧
      (∀ i records, slots[i]? = some records → SlotRecords fuel guard config i records) ∧
      (turn.1.emitted.map Emitted.recordId).Nodup ∧
      (3 ≤ fuel → ∀ e ∈ turn.1.emitted, Filed e.record e.recordId e.item) ∧
      match turn.2 with
      | none => slots.length = config.n
      | some failure => failure.index = slots.length ∧ slots.length < config.n := by
  obtain ⟨slots, hemitted, hslots, hlength⟩ := generateFrom_ok h
  have hrecords : ∀ i records, slots[i]? = some records →
      SlotRecords fuel guard config i records := by
    intro i records hi
    have hslot := hslots i records hi
    rwa [Nat.zero_add] at hslot
  rw [show ({} : GenRun).emitted = [] from rfl, List.nil_append] at hemitted
  refine ⟨slots, hemitted, hrecords, hemitted ▸ nodup_recordIds hrecords, fun hfuel e he => ?_, ?_⟩
  · rw [hemitted] at he
    obtain ⟨records, hmem, he⟩ := List.mem_flatten.mp he
    obtain ⟨i, hi⟩ := List.mem_iff_getElem?.mp hmem
    exact (hrecords i records hi).filed hfuel e he
  cases hturn : turn.2 with
  | none =>
    rw [hturn] at hlength
    exact hlength
  | some failure =>
    rw [hturn] at hlength
    exact ⟨hlength.1.trans (Nat.zero_add _), hlength.2⟩

end Ids

section Sample

attribute [local instance] plainStd

theorem plain_generates (config : GenConfig) : ∃ turn, generate 3 none config = .ok turn := by
  have hstart : Unrefused none ({} : GenRun).stats := ⟨rfl, rfl, fun _ => rfl⟩
  obtain ⟨turn, hrun, -⟩ := generateFrom_unrefused config plain_blankLaws (le_refl 3)
    config.n 0 hstart
  exact ⟨turn, hrun⟩

def spanned : SuiteGuard := ⟨[], [11746566203097535519, 14397876975360256847, 17093993400104948435,
  3740819885490499272, 13243800090556824743, 3226491683089199837, 6101240624146033808,
  16992286731727420770, 1915613077910647173]⟩

def boards : GenConfig := ⟨3, 11138, 5, [.scoreBoard], 0⟩

def ended (turn : GenRun × Option Unverifiable) : Nat × Option Nat :=
  (turn.1.emitted.length, turn.2.map Unverifiable.index)

/-- A run over pairs without a suite, and one over boards whose second slot fails: each of the
attempts at it has a span of the suite. -/
theorem generate_safe_suite :
    (∃ turn, generate 3 none ⟨600, 7, 5, [.rootCauseChain, .scoreBoard], 2⟩ = .ok turn ∧
      (turn.1.emitted.map Emitted.recordId).Nodup) ∧
    ∃ turn base, generate 3 (some spanned) boards = .ok turn ∧
      turn.2.map Unverifiable.index = some 1 ∧ turn.1.emitted = [base] ∧
      BaseRecord 3 (some spanned) boards 0 base ∧ Filed base.record base.recordId base.item := by
  obtain ⟨paired, hpaired⟩ := plain_generates ⟨600, 7, 5, [.rootCauseChain, .scoreBoard], 2⟩
  obtain ⟨-, -, -, hdistinct, -⟩ := generate_safe hpaired
  refine ⟨⟨paired, hpaired, hdistinct⟩, ?_⟩
  have hended : (generate 3 (some spanned) boards).toOption.map ended = some (1, some 1) := by
    decide +kernel
  obtain ⟨turn, hrun⟩ : ∃ turn, generate 3 (some spanned) boards = .ok turn := by
    cases h : generate 3 (some spanned) boards with
    | ok turn => exact ⟨turn, rfl⟩
    | error fault =>
      rw [h] at hended
      cases hended
  rw [hrun] at hended
  have hemitted : turn.1.emitted.length = 1 := congrArg Prod.fst (Option.some.inj hended)
  have hfailed : turn.2.map Unverifiable.index = some 1 :=
    congrArg Prod.snd (Option.some.inj hended)
  obtain ⟨slots, hslots, hrecords, -, hfiled, hlength⟩ := generate_safe hrun
  obtain ⟨failure, hturn, hindex⟩ := Option.map_eq_some_iff.mp hfailed
  rw [hturn] at hlength
  obtain ⟨records, rfl⟩ := List.length_eq_one_iff.mp (hlength.1.symm.trans hindex)
  rw [List.flatten_singleton] at hslots
  obtain ⟨base, hbase, hone | ⟨twin, -, htwo⟩⟩ := hrecords 0 records rfl
  · have hemitted : turn.1.emitted = [base] := hslots.trans hone
    exact ⟨turn, base, hrun, hfailed, hemitted, hbase,
      hfiled (le_refl 3) base (hemitted ▸ List.mem_singleton_self base)⟩
  · rw [hslots, htwo] at hemitted
    cases hemitted

end Sample

section Tallies

variable [RustStd]

/-- A choice item counts for its distractors and the probes, a score item for its level. -/
def Emitted.isChoice (e : Emitted) : Bool := e.item.sampled.family ≠ .scoreBoard

def Emitted.isOf (e : Emitted) (family : String) : Bool := e.item.sampled.family.name = family

/-- How many records of a family have a choice item that is solved, of how many. -/
def rateOf (records : List Emitted) (solved : Emitted → Bool) (family : String) : Nat × Nat :=
  (records.countP fun e => e.isChoice && e.isOf family && solved e,
    records.countP fun e => e.isChoice && e.isOf family)

/-- The tallies count what they say of the records. -/
structure Census (records : List Emitted) (stats : GenStats) : Prop where
  probe : stats.probe = records.countP Emitted.probe
  train : stats.train = records.countP fun e => !e.probe
  families : ∀ k, (stats.families.get? k).getD 0 = records.countP fun e => e.isOf k
  domains : ∀ k, (stats.domains.get? k).getD 0 =
    records.countP fun e => e.item.sampled.domain.code = k
  phrasings : ∀ k question, (((stats.phrasings.get? k).getD OrdMap.empty).get? question).getD 0 =
    records.countP fun e => e.isOf k && e.item.question = question
  distractors : ∀ k, (stats.distractors.get? k).getD 0 =
    ((records.filter Emitted.isChoice).flatMap fun e => e.item.sampled.distractors).countP
      fun d => d.kind.name = k
  lexical : ∀ k, (stats.lexical.get? k).getD 0 = rateOf records (fun e => lexicalProbe e.item) k
  mentions : ∀ k, (stats.mentions.get? k).getD 0 =
    rateOf records (fun e => mentionProbe e.item.sampled e.item.text) k
  scoreLevels : ∀ k, (stats.scoreLevels.get? k).getD 0 =
    records.countP fun e => !e.isChoice && e.item.sampled.gold = k

theorem census_nil : Census [] {} where
  probe := rfl
  train := rfl
  families _ := rfl
  domains _ := rfl
  phrasings _ _ := rfl
  distractors _ := rfl
  lexical _ := rfl
  mentions _ := rfl
  scoreLevels _ := rfl

theorem Census.retried {records : List Emitted} {stats : GenStats} (h : Census records stats)
    (rejected collisions pairs pairsRejected : Nat) :
    Census records { stats with rejected, collisions, pairs, pairsRejected } where
  probe := h.probe
  train := h.train
  families := h.families
  domains := h.domains
  phrasings := h.phrasings
  distractors := h.distractors
  lexical := h.lexical
  mentions := h.mentions
  scoreLevels := h.scoreLevels

omit [RustStd] in
theorem countP_snoc {α : Type} (p : α → Bool) (l : List α) (a : α) :
    (l ++ [a]).countP p = l.countP p + if p a then 1 else 0 := by
  rw [List.countP_append, List.countP_singleton]

omit [RustStd] in
theorem rateOf_snoc (records : List Emitted) (solved : Emitted → Bool) (e : Emitted) (k : String) :
    rateOf (records ++ [e]) solved k = rateOf records solved k +
      if e.isChoice && e.isOf k then (if solved e then 1 else 0, 1) else 0 := by
  rw [rateOf, rateOf, countP_snoc, countP_snoc]
  cases e.isChoice && e.isOf k with
  | true => rfl
  | false => rfl

omit [RustStd] in
theorem getD_addRate (rates : OrdMap String (Nat × Nat)) (family : String) (solved : Bool)
    (k : String) : ((addRate rates family solved).get? k).getD 0 = (rates.get? k).getD 0 +
      if family = k then (if solved then 1 else 0, 1) else 0 := Tally.getD_add rates _ k

section Fields

variable (stats : GenStats) (e : Emitted)

theorem count_files : (stats.count e).probe = stats.probe + (if e.probe then 1 else 0) ∧
    (stats.count e).train = stats.train + if e.probe then 0 else 1 := by
  unfold GenStats.count
  dsimp only
  split <;> split <;> exact ⟨rfl, rfl⟩

theorem count_groups : (stats.count e).families =
      Tally.add stats.families (e.item.sampled.family.name, 1) ∧
    (stats.count e).domains = Tally.add stats.domains (e.item.sampled.domain.code, 1) ∧
    (stats.count e).phrasings = stats.phrasings.insert e.item.sampled.family.name
      (Tally.add ((stats.phrasings.get? e.item.sampled.family.name).getD OrdMap.empty)
        (e.item.question, 1)) := by
  unfold GenStats.count
  dsimp only
  split <;> split <;> exact ⟨rfl, rfl, rfl⟩

theorem count_choice (h : e.isChoice = true) : (stats.count e).scoreLevels = stats.scoreLevels ∧
    (stats.count e).distractors = (e.item.sampled.distractors.map fun d =>
      (d.kind.name, 1)).foldl Tally.add stats.distractors ∧
    (stats.count e).lexical =
      addRate stats.lexical e.item.sampled.family.name (lexicalProbe e.item) ∧
    (stats.count e).mentions = addRate stats.mentions e.item.sampled.family.name
      (mentionProbe e.item.sampled e.item.text) := by
  have hf : e.item.sampled.family ≠ .scoreBoard := of_decide_eq_true h
  unfold GenStats.count
  dsimp only
  rw [if_neg hf]
  split <;> exact ⟨rfl, rfl, rfl, rfl⟩

theorem count_score (h : e.isChoice = false) :
    (stats.count e).scoreLevels = Tally.add stats.scoreLevels (e.item.sampled.gold, 1) ∧
    (stats.count e).distractors = stats.distractors ∧ (stats.count e).lexical = stats.lexical ∧
    (stats.count e).mentions = stats.mentions := by
  have hf : e.item.sampled.family = .scoreBoard := not_not.mp (of_decide_eq_false h)
  unfold GenStats.count
  dsimp only
  rw [if_pos hf]
  split <;> exact ⟨rfl, rfl, rfl, rfl⟩

end Fields

theorem Census.count {records : List Emitted} {stats : GenStats} (h : Census records stats)
    (e : Emitted) : Census (records ++ [e]) (stats.count e) where
  probe := by rw [(count_files stats e).1, countP_snoc, h.probe]
  train := by
    rw [(count_files stats e).2, countP_snoc, h.train]
    cases e.probe <;> rfl
  families k := by
    rw [(count_groups stats e).1, Tally.getD_add, countP_snoc, h.families]
    simp [Emitted.isOf]
  domains k := by
    rw [(count_groups stats e).2.1, Tally.getD_add, countP_snoc, h.domains]
    simp
  phrasings k question := by
    rw [(count_groups stats e).2.2, OrdMap.get?_insert, countP_snoc, ← h.phrasings]
    by_cases hk : k = e.item.sampled.family.name
    · rw [if_pos hk, Option.getD_some, Tally.getD_add, ← hk]
      simp [Emitted.isOf, hk]
    · rw [if_neg hk]
      simp [Emitted.isOf, Ne.symm hk]
  distractors k := by
    cases hc : e.isChoice with
    | true =>
      rw [(count_choice stats e hc).2.1, Tally.getD_foldl_add, Tally.share_ones, h.distractors]
      simp [hc, List.filter_append]
    | false =>
      rw [(count_score stats e hc).2.1, h.distractors]
      simp [hc, List.filter_append]
  lexical k := by
    cases hc : e.isChoice with
    | true =>
      rw [(count_choice stats e hc).2.2.1, getD_addRate, rateOf_snoc, h.lexical, hc]
      simp [Emitted.isOf]
    | false =>
      rw [(count_score stats e hc).2.2.1, rateOf_snoc, h.lexical, hc]
      rfl
  mentions k := by
    cases hc : e.isChoice with
    | true =>
      rw [(count_choice stats e hc).2.2.2, getD_addRate, rateOf_snoc, h.mentions, hc]
      simp [Emitted.isOf]
    | false =>
      rw [(count_score stats e hc).2.2.2, rateOf_snoc, h.mentions, hc]
      rfl
  scoreLevels k := by
    cases hc : e.isChoice with
    | true =>
      rw [(count_choice stats e hc).1, countP_snoc, h.scoreLevels]
      simp [hc]
    | false =>
      rw [(count_score stats e hc).1, Tally.getD_add, countP_snoc, h.scoreLevels]
      simp [hc]

theorem count_pairs (stats : GenStats) (e : Emitted) : (stats.count e).pairs = stats.pairs := by
  unfold GenStats.count
  dsimp only
  split <;> split <;> rfl

def Emitted.isTwin (e : Emitted) : Bool := (slotKey e.recordId).1

structure Counted (run : GenRun) : Prop where
  census : Census run.emitted run.stats
  pairs : run.stats.pairs = run.emitted.countP Emitted.isTwin

theorem Counted.retried {run : GenRun} (h : Counted run) (rejected collisions pairsRejected : Nat) :
    Counted { run with stats := { run.stats with rejected, collisions, pairsRejected } } :=
  ⟨h.census.retried rejected collisions run.stats.pairs pairsRejected, h.pairs⟩

theorem Counted.emit {run : GenRun} (h : Counted run) {e : Emitted} (he : e.isTwin = false) :
    Counted (run.emit e) := by
  refine ⟨h.census.count e, ?_⟩
  rw [GenRun.emit, count_pairs, countP_snoc, he]
  exact h.pairs

theorem Counted.emitTwin {run : GenRun} (h : Counted run) {e : Emitted} (he : e.isTwin = true) :
    Counted { run.emit e with
      stats := { (run.emit e).stats with pairs := (run.emit e).stats.pairs + 1 } } := by
  refine ⟨(h.census.count e).retried _ _ _ _, ?_⟩
  change (run.stats.count e).pairs + 1 = (run.emitted ++ [e]).countP Emitted.isTwin
  rw [count_pairs, countP_snoc, he, h.pairs]
  rfl

variable {fuel : Nat} {guard : Option SuiteGuard} {config : GenConfig}

theorem Counted.twinSlot {run run' : GenRun} (h : Counted run) {index : Nat} {base : Emitted}
    (hrun : twinSlot fuel guard config run index base = .ok run') : Counted run' := by
  unfold Itemgen.twinSlot at hrun
  split at hrun
  · cases hrun
    exact h
  · obtain ⟨tries, -, hrun⟩ := Result.bind_ok.mp hrun
    dsimp only at hrun
    split at hrun
    · cases hrun
      exact h.retried _ _ _
    · cases hrun
      exact (h.retried _ _ _).emitTwin (congrArg Prod.fst (slotKey_twinIdOf _ _))

theorem Counted.slot {run : GenRun} (h : Counted run) {index : Nat}
    {turn : GenRun × Option Unverifiable}
    (hrun : slot fuel guard config run index = .ok turn) : Counted turn.1 := by
  obtain ⟨tries, -, hrun⟩ := Result.bind_ok.mp hrun
  dsimp only at hrun
  split at hrun
  · cases hrun
    exact h.retried _ _ _
  · obtain ⟨run', htwin, hrun⟩ := Result.bind_ok.mp hrun
    cases hrun
    refine Counted.twinSlot ?_ htwin
    exact (h.retried _ _ _).emit (congrArg Prod.fst (slotKey_recordIdOf _ _ _))

theorem Counted.generateFrom {left index : Nat} {run : GenRun} (h : Counted run)
    {turn : GenRun × Option Unverifiable}
    (hrun : generateFrom fuel guard config left index run = .ok turn) : Counted turn.1 := by
  induction left generalizing index run with
  | zero =>
    cases hrun
    exact h
  | succ left ih =>
    obtain ⟨next, hslot, hrun⟩ := Result.bind_ok.mp hrun
    have hnext := h.slot hslot
    split at hrun
    · cases hrun
      exact hnext
    · exact ih hnext hrun

theorem length_slots {slots : List (List Emitted)}
    (h : ∀ records ∈ slots, ∃ index, SlotRecords fuel guard config index records) :
    slots.flatten.length = slots.length + slots.flatten.countP Emitted.isTwin := by
  induction slots with
  | nil => rfl
  | cons records slots ih =>
    rw [List.forall_mem_cons] at h
    obtain ⟨⟨index, base, hbase, hrecords⟩, hrest⟩ := h
    have hkey : base.isTwin = false := by
      rw [Emitted.isTwin, hbase.recordId, slotKey_recordIdOf]
    have hone : records.length = 1 + records.countP Emitted.isTwin := by
      rcases hrecords with rfl | ⟨twin, htwin, rfl⟩
      · simp [hkey]
      · have htwinKey : twin.isTwin = true := by
          rw [Emitted.isTwin, htwin.recordId, slotKey_twinIdOf]
        simp [hkey, htwinKey]
    rw [List.flatten_cons, List.length_append, List.countP_append, ih hrest, hone, List.length_cons]
    omega

/-- The tallies of a run are those of the records it emitted: the two files, the census of the
families, domains, phrasings, distractors and levels, and what the probes solve of each family. A
run that does not fail emits one record for each slot, and one more for each minimal pair. -/
theorem generate_census {turn : GenRun × Option Unverifiable}
    (h : generate fuel guard config = .ok turn) :
    Census turn.1.emitted turn.1.stats ∧
      turn.1.stats.train + turn.1.stats.probe = turn.1.emitted.length ∧
      (turn.2 = none → turn.1.emitted.length = config.n + turn.1.stats.pairs) := by
  have hstart : Counted {} := ⟨census_nil, rfl⟩
  have hcounted : Counted turn.1 := hstart.generateFrom h
  refine ⟨hcounted.census, ?_, fun hnone => ?_⟩
  · rw [hcounted.census.train, hcounted.census.probe, List.length_eq_countP_add_countP Emitted.probe,
      Nat.add_comm]
    simp
  · obtain ⟨slots, hemitted, hslots, hlength⟩ := generateFrom_ok h
    rw [hnone] at hlength
    rw [show ({} : GenRun).emitted = [] from rfl, List.nil_append] at hemitted
    have hall : ∀ records ∈ slots, ∃ index, SlotRecords fuel guard config index records := by
      intro records hrecords
      obtain ⟨i, hi⟩ := List.mem_iff_getElem?.mp hrecords
      exact ⟨_, hslots i records hi⟩
    rw [hcounted.pairs, hemitted, length_slots hall]
    change slots.length = config.n at hlength
    rw [hlength]

end Tallies

section Sample

attribute [local instance] plainStd

theorem generate_census_pairs :
    ∃ turn, generate 3 none ⟨600, 7, 5, [.rootCauseChain, .scoreBoard], 2⟩ = .ok turn ∧
      turn.1.stats.train + turn.1.stats.probe = turn.1.emitted.length := by
  obtain ⟨turn, hrun⟩ := plain_generates ⟨600, 7, 5, [.rootCauseChain, .scoreBoard], 2⟩
  exact ⟨turn, hrun, (generate_census hrun).2.1⟩

end Sample

end OpenCodifier.Itemgen
