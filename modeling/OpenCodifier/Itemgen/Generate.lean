import OpenCodifier.Itemgen.Pairs
import OpenCodifier.Itemgen.ScoreBoard
import OpenCodifier.Itemgen.SuiteGuard
set_option autoImplicit false

namespace OpenCodifier.Itemgen

open Sampling
open Json (Value)
open Facts (extract isName)

section Vocabulary

def scoreQuestions : List String :=
  ["Rate the overall operational health of the \x7bnoun\x7d fleet on the reported scale. " ++
    "Level rubric over all reports: critical means more than half of all reports are down; " ++
    "poor means some reports are down, not a majority, and at least half of all reports " ++
    "are failing or degraded; mixed means failures are present but healthy is the largest " ++
    "share, or nothing is down and degraded outnumbers healthy; healthy means nothing is " ++
    "down and healthy reports are at least as many as degraded.",
    "Score the fleet state of the \x7bnoun\x7d set using the given levels. Count every report on " ++
    "the board: critical if more than half of all reports are down; poor if downs are " ++
    "present without being a majority while failing-or-degraded reports reach half of all " ++
    "reports; mixed if failures exist yet healthy reports lead, or if nothing is down and " ++
    "degraded leads; healthy if nothing is down and healthy reports equal or outnumber " ++
    "degraded ones."]

def scoreLevels : List String :=
  ["critical: more than half of all reports are down",
    "poor: downs present, not a majority, with at least half of all reports failing or degraded",
    "mixed: failures present but healthy leads, or nothing down with degraded leading",
    "healthy: nothing down and healthy reports at least equal degraded"]

namespace Family

def name : Family → String
  | rootCauseChain => "RootCauseChain"
  | rootCauseAgreeing => "RootCauseAgreeing"
  | healthiestBoard => "HealthiestBoard"
  | firstRestoredChain => "FirstRestoredChain"
  | scoreBoard => "ScoreBoard"

def code : Family → String
  | rootCauseChain => "rcc"
  | rootCauseAgreeing => "rca"
  | healthiestBoard => "hb"
  | firstRestoredChain => "frc"
  | scoreBoard => "sb"

def sourceTag : Family → String
  | rootCauseChain => "itemgen/root-cause-chain"
  | rootCauseAgreeing => "itemgen/root-cause-agreeing"
  | healthiestBoard => "itemgen/healthiest-board"
  | firstRestoredChain => "itemgen/first-restored-chain"
  | scoreBoard => "itemgen/score-board"

def questionKey : Family → String
  | rootCauseChain => "root_cause"
  | rootCauseAgreeing => "root_cause"
  | healthiestBoard => "healthiest"
  | firstRestoredChain => "first_restored"
  | scoreBoard => "health_score"

end Family

def DistractorKind.name : DistractorKind → String
  | symptom => "symptom"
  | standaloneFailure => "standalone_failure"
  | healthyPeer => "healthy_peer"
  | unrelated => "unrelated"
  | runnerUp => "runner_up"
  | degradedHeavy => "degraded_heavy"
  | zeroReport => "zero_report"
  | waiter => "waiter"
  | lastInOrder => "last_in_order"

/-- The score family of the generator; so many passes deal a board's statuses. -/
def scoreFamily (fuel : Nat) : ScoreFamily where
  questions := scoreQuestions
  scoreBoard domain := do
    let board ← Itemgen.scoreBoard fuel domain
    board.elim (throw .outOfRange) pure

end Vocabulary

section Records

/-- An item as it is rendered: the drawn facts, the text that states them and the question. -/
structure Item where
  sampled : Sampled
  text : String
  question : String

/-- The record of an item. The gold of a score item is the level of its facts. -/
def corpusRecord (item : Item) (recordId : String) : Value :=
  let family := item.sampled.family
  let counts := countStatuses item.sampled.facts
  let level := toString (healthLevel counts.1 counts.2.1 counts.2.2)
  let kind := if family = .scoreBoard then "score" else "choice"
  let criteria := if family = .scoreBoard then .array (scoreLevels.map .str)
    else .object (item.sampled.ballot.foldl (fun criteria name =>
      criteria.insert name (.str (item.sampled.domain.noun ++ " " ++ name))) OrdMap.empty)
  let label := if family = .scoreBoard then level else item.sampled.gold
  let question : Value := .struct [("type", some (.str kind)),
    ("instructions", some (.str item.question)), ("criteria", some criteria)]
  let target : Value := .struct [("type", some (.str kind)), ("label", some (.str label))]
  .struct [("record_id", some (.str recordId)), ("source", some (.str family.sourceTag)),
    ("request", some (.struct [("state", some (.str item.text)),
      ("questions", some (.struct [(family.questionKey, some question)]))])),
    ("target", some (.struct [(family.questionKey, some target)]))]

def memberAt (record : Value) (path : List String) : Option Value := path.foldlM Value.get? record

def Sampled.Leveled (sampled : Sampled) : Prop :=
  sampled.family = .scoreBoard → ∃ h d x, countStatuses sampled.facts = (h, d, x) ∧
    sampled.gold = toString (healthLevel h d x)

/-- A record carries its id, the text of its item and, for its question, the gold as the label. -/
structure Filed (record : Value) (recordId : String) (item : Item) : Prop where
  recordId : memberAt record ["record_id"] = some (.str recordId)
  text : memberAt record ["request", "state"] = some (.str item.text)
  label : memberAt record ["target", item.sampled.family.questionKey, "label"] =
    some (.str item.sampled.gold)

theorem corpusRecord_filed {item : Item} (hleveled : item.sampled.Leveled) (recordId : String) :
    Filed (corpusRecord item recordId) recordId item := by
  have hlabel : (if item.sampled.family = .scoreBoard then
      toString (healthLevel (countStatuses item.sampled.facts).1
        (countStatuses item.sampled.facts).2.1 (countStatuses item.sampled.facts).2.2)
      else item.sampled.gold) = item.sampled.gold := by
    split
    · rename_i hscore
      obtain ⟨h, d, x, hcounts, hgold⟩ := hleveled hscore
      rw [hcounts, hgold]
    · rfl
  constructor
  · simp [memberAt, corpusRecord, Value.get?_struct]
  · simp [memberAt, corpusRecord, Value.get?_struct]
  · simpa [memberAt, corpusRecord, Value.get?_struct] using congrArg Value.str hlabel

def recordIdOf (family : Family) (domain : Domain) (index : Nat) : String :=
  "ig-" ++ family.code ++ "-" ++ domain.code ++ "-" ++ String.ofList (padded 6 index)

def twinIdOf (recordId : String) (index : Nat) : String :=
  recordId ++ "-p" ++ String.ofList (padded 6 index)

end Records

section Probes

variable [RustStd]

inductive ScoreRejection where
  | roundTrip (text : String)
  | diverged (label : String) (extracted : Nat × Nat × Nat) (level : Nat)

def verifyScoreItem (sampled : Sampled) (text : String) : Except ScoreRejection Unit :=
  let extracted := extract text
  if canonicalSentences extracted ≠ canonicalSentences sampled.facts then .error (.roundTrip text)
  else
    let counts := countStatuses extracted
    let level := healthLevel counts.1 counts.2.1 counts.2.2
    if toString level ≠ sampled.gold then .error (.diverged sampled.gold counts level) else .ok ()

def lexicalProbe (item : Item) : Bool :=
  let picked := do
    let candidates ← (item.sampled.ballot.mapM fun name =>
      Candidate.new name (item.sampled.domain.noun ++ " " ++ name)).toOption
    let question ← (ChoiceQuestion.new "q" item.question candidates).toOption
    let distribution ← ((LexicalClassifier.classifier "builtin-lexical-v2").decide
      (State.fromText item.text) (.choice question)).toOption
    some distribution.top.key
  picked = some item.sampled.gold

inductive Refusal where
  | choice (rejection : Rejection)
  | score (rejection : ScoreRejection)

def verify (score : ScoreFamily) (family : Family) (sampled : Sampled) (text : String) :
    Except Refusal Unit :=
  if family = .scoreBoard then (verifyScoreItem sampled text).mapError .score
  else (verifyItem score sampled text).mapError .choice

end Probes

section Run

structure GenConfig where
  n : Nat
  seed : BitVec 64
  probeEvery : Nat
  families : List Family
  pairEvery : Nat

/-- The families in their rotation; the choice families when none are asked for. -/
def GenConfig.rotation (config : GenConfig) : List Family :=
  if config.families = [] then Itemgen.families else config.families

def GenConfig.familyAt (config : GenConfig) (index : Nat) : Family :=
  config.rotation.getD (index % config.rotation.length) .rootCauseChain

def GenConfig.isProbe (config : GenConfig) (index : Nat) : Bool :=
  0 < config.probeEvery && index % config.probeEvery = 0

def GenConfig.isPaired (config : GenConfig) (index : Nat) : Bool :=
  config.familyAt index = .rootCauseChain && 0 < config.pairEvery && index % config.pairEvery = 0

structure GenStats where
  families : OrdMap String Nat := OrdMap.empty
  domains : OrdMap String Nat := OrdMap.empty
  phrasings : OrdMap String (OrdMap String Nat) := OrdMap.empty
  distractors : OrdMap String Nat := OrdMap.empty
  lexical : OrdMap String (Nat × Nat) := OrdMap.empty
  mentions : OrdMap String (Nat × Nat) := OrdMap.empty
  rejected : Nat := 0
  collisions : Nat := 0
  train : Nat := 0
  probe : Nat := 0
  scoreLevels : OrdMap String Nat := OrdMap.empty
  pairs : Nat := 0
  pairsRejected : Nat := 0

structure Emitted where
  probe : Bool
  recordId : String
  item : Item

def Emitted.record (e : Emitted) : Value := corpusRecord e.item e.recordId

/-- An item slot that exhausts its retries, with the last refusal, if there was one. -/
structure Unverifiable where
  family : Family
  index : Nat
  lastError : Option Refusal

structure GenRun where
  emitted : List Emitted := []
  stats : GenStats := {}

inductive Attempted where
  | collided
  | refused (reason : Refusal)
  | accepted (item : Item)

/-- The attempts at a slot: how many collided, how many were refused and why the last, and the item
of the one that was accepted. -/
structure Tries where
  collisions : Nat
  refused : Nat
  lastError : Option Refusal
  accepted : Option Item

def firstAccepted (attempt : Nat → Except Fault Attempted) : Nat → Nat → Except Fault Tries
  | 0, _ => .ok ⟨0, 0, none, none⟩
  | left + 1, number => do
    match ← attempt number with
    | .accepted item => pure ⟨0, 0, none, some item⟩
    | .collided => do
      let later ← firstAccepted attempt left (number + 1)
      pure { later with collisions := later.collisions + 1 }
    | .refused reason => do
      let later ← firstAccepted attempt left (number + 1)
      pure { later with
        refused := later.refused + 1, lastError := later.lastError.or (some reason) }

variable [RustStd] (fuel : Nat) (guard : Option SuiteGuard)

/-- Render a drawn item, keep it from the suite, and verify it. -/
def attemptItem (family : Family) (draw : Draw Sampled) (rng : Rng) : Except Fault Attempted := do
  let (sampled, rng) ← draw rng
  let (text, _) ← stateText sampled.facts rng
  let question ← (questionText (scoreFamily fuel) sampled).elim (.error .outOfRange) .ok
  if guard.any fun guard => guard.collides text question then pure .collided
  else
    match verify (scoreFamily fuel) family sampled text with
    | .ok () => pure (.accepted ⟨sampled, text, question⟩)
    | .error reason => pure (.refused reason)

def seededRng (seed : BitVec 64) (index offset : Nat) : Rng :=
  ⟨itemSeed seed index + BitVec.ofNat 64 offset⟩

def attemptBase (config : GenConfig) (index attempt : Nat) : Except Fault Attempted :=
  let family := config.familyAt index
  attemptItem fuel guard family (sample (scoreFamily fuel) domains family)
    (seededRng config.seed index attempt)

def attemptTwin (config : GenConfig) (index : Nat) (twin : Sampled) (attempt : Nat) :
    Except Fault Attempted :=
  attemptItem fuel guard .rootCauseChain (pure twin)
    (seededRng config.seed index (twinOffset + attempt))

def addRate (rates : OrdMap String (Nat × Nat)) (family : String) (solved : Bool) :
    OrdMap String (Nat × Nat) :=
  Tally.add rates (family, (if solved then 1 else 0, 1))

def GenStats.count (stats : GenStats) (e : Emitted) : GenStats :=
  let sampled := e.item.sampled
  let family := sampled.family.name
  let stats := { stats with
    families := Tally.add stats.families (family, 1)
    domains := Tally.add stats.domains (sampled.domain.code, 1)
    phrasings := stats.phrasings.insert family
      (Tally.add ((stats.phrasings.get? family).getD OrdMap.empty) (e.item.question, 1)) }
  let stats := if sampled.family = .scoreBoard then
      { stats with scoreLevels := Tally.add stats.scoreLevels (sampled.gold, 1) }
    else
      { stats with
        distractors := (sampled.distractors.map fun d => (d.kind.name, 1)).foldl Tally.add
          stats.distractors
        lexical := addRate stats.lexical family (lexicalProbe e.item)
        mentions := addRate stats.mentions family (mentionProbe sampled e.item.text) }
  if e.probe then { stats with probe := stats.probe + 1 }
  else { stats with train := stats.train + 1 }

def GenRun.emit (run : GenRun) (e : Emitted) : GenRun := ⟨run.emitted ++ [e], run.stats.count e⟩

/-- The twin of a slot, tried when the slot is paired and its item has one. -/
def twinSlot (config : GenConfig) (run : GenRun) (index : Nat) (base : Emitted) :
    Except Fault GenRun :=
  match if config.isPaired index then corruptToPair base.item.sampled else none with
  | none => pure run
  | some twin => do
    let tries ← firstAccepted (attemptTwin fuel guard config index twin) maxAttempts 0
    let run := { run with stats := { run.stats with
      collisions := run.stats.collisions + tries.collisions
      pairsRejected := run.stats.pairsRejected + tries.refused } }
    match tries.accepted with
    | none => pure run
    | some item =>
      let run := run.emit ⟨base.probe, twinIdOf base.recordId index, item⟩
      pure { run with stats := { run.stats with pairs := run.stats.pairs + 1 } }

def slot (config : GenConfig) (run : GenRun) (index : Nat) :
    Except Fault (GenRun × Option Unverifiable) := do
  let family := config.familyAt index
  let tries ← firstAccepted (attemptBase fuel guard config index) maxAttempts 0
  let run := { run with stats := { run.stats with
    collisions := run.stats.collisions + tries.collisions
    rejected := run.stats.rejected + tries.refused } }
  match tries.accepted with
  | none => pure (run, some ⟨family, index, tries.lastError⟩)
  | some item => do
    let base : Emitted := ⟨config.isProbe index, recordIdOf family item.sampled.domain index, item⟩
    let run ← twinSlot fuel guard config (run.emit base) index base
    pure (run, none)

def generateFrom (config : GenConfig) : Nat → Nat → GenRun →
    Except Fault (GenRun × Option Unverifiable)
  | 0, _, run => .ok (run, none)
  | left + 1, index, run => do
    let turn ← slot fuel guard config run index
    match turn.2 with
    | some failure => pure (turn.1, some failure)
    | none => generateFrom config left (index + 1) turn.1

def generate (config : GenConfig) : Except Fault (GenRun × Option Unverifiable) :=
  generateFrom fuel guard config config.n 0 {}

end Run

section Verdicts

theorem countFact_comm (counts : Nat × Nat × Nat) (a b : RelationalFact) :
    countFact (countFact counts a) b = countFact (countFact counts b) a := by
  have hreports : ∀ fact, ∃ statuses : List Health,
      ∀ counts, countFact counts fact = statuses.foldl bump counts := by
    intro fact
    cases fact with
    | health x status => exact ⟨[status], fun _ => rfl⟩
    | healthList x statuses => exact ⟨statuses, fun _ => rfl⟩
    | dependsOn x y => exact ⟨[], fun _ => rfl⟩
    | restoresAfter x y => exact ⟨[], fun _ => rfl⟩
    | deadline x t => exact ⟨[], fun _ => rfl⟩
    | event x t => exact ⟨[], fun _ => rfl⟩
  obtain ⟨left, hleft⟩ := hreports a
  obtain ⟨right, hright⟩ := hreports b
  rw [hleft, hright, hright, hleft]
  simp only [foldl_bump, Prod.mk.injEq]
  omega

theorem countStatuses_perm {order facts : List RelationalFact} (h : order.Perm facts) :
    countStatuses order = countStatuses facts :=
  h.foldl_eq' (fun a _ b _ counts => countFact_comm counts a b) _

theorem wellFormed_boardFact {entity : String} {slot : List Health} (h : isName entity = true)
    (hslot : slot ≠ []) : WellFormed (boardFact entity slot) := by
  unfold boardFact
  split
  · exact h
  · exact ⟨h, hslot⟩

theorem corruptToPair_leveled {base twin : Sampled} (h : corruptToPair base = some twin) :
    twin.Leveled := by
  intro hscore
  unfold corruptToPair at h
  split at h
  · cases h
  · rename_i hfamily
    split at h
    · cases h
    · obtain ⟨child, -, h⟩ := Option.bind_eq_some_iff.mp h
      split at h
      · cases h
      · cases h
        rw [not_not.mp hfamily] at hscore
        cases hscore

theorem yields_scoreBoard {domain : Domain} {fuel : Nat} (hn : domain.names.Nodup)
    (h5 : 5 ≤ domain.names.length) (hnames : ∀ name ∈ domain.names, isName name = true)
    (hfuel : 3 ≤ fuel) :
    Yields ((scoreFamily fuel).scoreBoard domain) fun sampled =>
      (∀ fact ∈ sampled.facts, WellFormed fact) ∧
        ∃ h d x, countStatuses sampled.facts = (h, d, x) ∧
          sampled.gold = toString (healthLevel h d x) := by
  have hboard : Yields (scoreBoard fuel domain) fun board => ∃ sampled, board = some sampled ∧
      (∀ fact ∈ sampled.facts, WellFormed fact) ∧
        ∃ h d x, countStatuses sampled.facts = (h, d, x) ∧
          sampled.gold = toString (healthLevel h d x) := by
    refine (yields_scoreDraw hn h5).bind fun draw hfits => ?_
    refine (yields_dealFirst hfits.one).bind fun deal hdealt => yields_pure ?_
    obtain ⟨final, hfinal, hend, hall⟩ := dealRest_ends hfits.three fuel hdealt (by omega)
    rw [hfinal]
    refine ⟨scoreItem domain draw final, rfl, fun fact hfact => ?_, ?_⟩
    · obtain ⟨e, he, rfl⟩ := List.mem_map.mp hfact
      obtain ⟨hentity, hslot⟩ := List.of_mem_zip he
      refine wellFormed_boardFact (hnames _ (hfits.inPool _ hentity)) ?_
      exact List.ne_nil_of_length_pos (hend.sizes _ hslot).1
    · have hkept : final.slots.flatten.Perm draw.statuses := by
        have hkept := hend.kept
        rwa [hall, List.drop_length, List.append_nil] at hkept
      obtain ⟨counts, ⟨-, hlevel⟩, hcounts⟩ := hfits.level
      exact ⟨counts.1, counts.2.1, counts.2.2,
        (countStatuses_board hend.slots).trans (count_statusesFor (hkept.trans hcounts)),
        congrArg toString hlevel.symm⟩
  refine hboard.bind fun board hsampled => ?_
  obtain ⟨sampled, rfl, hfacts⟩ := hsampled
  exact yields_pure hfacts

theorem sample_leveled {fuel : Nat} (hfuel : 3 ≤ fuel) {family : Family} {rng rng' : Rng}
    {sampled : Sampled} (h : sample (scoreFamily fuel) domains family rng = .ok (sampled, rng')) :
    sampled.Leveled := by
  obtain ⟨domain, hdomain, phrasing, -, start, after, drawn, hrun, rfl⟩ := sample_ok h
  intro hscore
  have hscore : family = .scoreBoard := hscore
  subst hscore
  obtain ⟨hnodup, hsix, hnames⟩ := domains_pooled domain hdomain
  exact ((yields_scoreBoard hnodup (by omega) hnames hfuel).of_run hrun).2

theorem mem_families {family : Family} (h : family ≠ .scoreBoard) : family ∈ families := by
  cases family with
  | scoreBoard => exact absurd rfl h
  | rootCauseChain | rootCauseAgreeing | healthiestBoard | firstRestoredChain => decide

theorem phrased_some {score : ScoreFamily} {sampled : Sampled}
    (h : sampled.phrasing < (sampled.family.phrasings score.questions).length) :
    ∃ question, questionText score sampled = some question := by
  rw [questionText, List.getElem?_eq_getElem h]
  exact ⟨_, rfl⟩

variable [RustStd] {fuel : Nat}

/-- From every generator the item is rendered, and no rendering of it is refused. -/
def Verified (fuel : Nat) (family : Family) (sampled : Sampled) : Prop :=
  (∃ question, questionText (scoreFamily fuel) sampled = some question) ∧
    ∀ rng, ∃ text rng', stateText sampled.facts rng = .ok (text, rng') ∧
      verify (scoreFamily fuel) family sampled text = .ok ()

theorem verifyScoreItem_ok {sampled : Sampled} {text : String} {h d x : Nat}
    (hcounts : countStatuses sampled.facts = (h, d, x))
    (hgold : sampled.gold = toString (healthLevel h d x))
    (htext : (extract text).Perm sampled.facts) : verifyScoreItem sampled text = .ok () := by
  have hextracted : countStatuses (extract text) = (h, d, x) :=
    (countStatuses_perm htext).trans hcounts
  rw [verifyScoreItem, if_neg (not_not.mpr (canonicalSentences_perm htext)), hextracted,
    if_neg (not_not.mpr hgold.symm)]

theorem verified_score (hlaws : BlankLaws) {sampled : Sampled} {h d x : Nat}
    (hphrased : ∃ question, questionText (scoreFamily fuel) sampled = some question)
    (hfacts : ∀ fact ∈ sampled.facts, WellFormed fact)
    (hcounts : countStatuses sampled.facts = (h, d, x))
    (hgold : sampled.gold = toString (healthLevel h d x)) : Verified fuel .scoreBoard sampled := by
  refine ⟨hphrased, fun rng => ?_⟩
  obtain ⟨-, -, order, text, rng', -, -, hperm, htext, hextract⟩ := stateText_order hlaws hfacts rng
  refine ⟨text, rng', htext, ?_⟩
  rw [verify, if_pos rfl, verifyScoreItem_ok hcounts hgold (hextract ▸ hperm)]
  rfl

theorem verified_choice (hlaws : BlankLaws) {pool : List String} {sampled : Sampled}
    {family : Family} (hfamily : family ≠ .scoreBoard) (hsound : Sound pool sampled)
    (hnames : ∀ name ∈ pool, isName name = true)
    (hphrased : ∃ phrased, questionText (scoreFamily fuel) sampled = some phrased ∧ phrased ≠ "") :
    Verified fuel family sampled := by
  refine ⟨hphrased.imp fun _ h => h.1, fun rng => ?_⟩
  obtain ⟨text, rng', htext, hverified⟩ := renders_ok hlaws (scoreFamily fuel) hsound hnames
    hphrased rng
  refine ⟨text, rng', htext, ?_⟩
  rw [verify, if_neg hfamily, hverified]
  rfl

/-- Whatever is drawn over the domains of the generator is verified. -/
theorem yields_verified (hlaws : BlankLaws) (hfuel : 3 ≤ fuel) (family : Family) :
    Yields (sample (scoreFamily fuel) domains family) (Verified fuel family) := by
  refine (Draw.yields_pick (show domains ≠ [] by decide)).bind fun domain hdomain => ?_
  obtain ⟨hnodup, hsix, hnames⟩ := domains_pooled domain hdomain
  have hphrasings : 0 < (family.phrasings scoreQuestions).length := by
    cases family <;> exact Nat.succ_pos _
  refine (Draw.yields_below hphrasings).bind fun phrasing hphrasing => ?_
  by_cases hscore : family = .scoreBoard
  · subst hscore
    refine (yields_scoreBoard hnodup (by omega) hnames hfuel).bind fun sampled hboard => ?_
    obtain ⟨hfacts, h, d, x, hcounts, hgold⟩ := hboard
    exact yields_pure (verified_score hlaws (phrased_some hphrasing) hfacts hcounts hgold)
  · have hfamily := mem_families hscore
    refine (yields_sampler (scoreFamily fuel) hnodup (by omega) hfamily).bind
      fun sampled hsound => yields_pure ?_
    exact verified_choice hlaws hscore (hsound family domain phrasing) hnames
      (questionText_some _ hfamily hphrasing)

theorem verified_twin (hlaws : BlankLaws) {rng rng' : Rng} {base twin : Sampled}
    (hbase : sample (scoreFamily fuel) domains .rootCauseChain rng = .ok (base, rng'))
    (htwin : corruptToPair base = some twin) : Verified fuel .rootCauseChain twin := by
  obtain ⟨domain, hdomain, phrasing, hphrasing, start, after, drawn, hrun, rfl⟩ := sample_ok hbase
  obtain ⟨hnodup, -, hnames⟩ := domains_pooled domain hdomain
  obtain ⟨draw, h, rfl⟩ := (yields_rootCause hnodup (rootCause_room hrun) false).of_run hrun
  obtain ⟨first, second, far, kept, hchain, -⟩ := h.chain
  obtain ⟨hsome, rfl⟩ := @corruptToPair_baseOf _ _ domain phrasing h _ _ _ hchain _ htwin
  obtain ⟨⟨ballot, noise⟩, hpair⟩ := Option.isSome_iff_exists.mp hsome
  have hchoice : Family.rootCauseChain ≠ .scoreBoard := by decide
  exact verified_choice hlaws hchoice (sound_twin h hchain hpair domain phrasing) hnames
    (questionText_some _ (mem_families hchoice) hphrasing)

end Verdicts

section Slots

variable [RustStd] {fuel : Nat} {guard : Option SuiteGuard} {config : GenConfig}

/-- The item is kept from the suite, and the verifier of its family accepts it. -/
structure Passed (fuel : Nat) (guard : Option SuiteGuard) (family : Family) (item : Item) :
    Prop where
  phrased : questionText (scoreFamily fuel) item.sampled = some item.question
  apart : ∀ g ∈ guard, g.collides item.text item.question = false
  verified : verify (scoreFamily fuel) family item.sampled item.text = .ok ()

omit [RustStd] in
theorem firstAccepted_ok {attempt : Nat → Except Fault Attempted} {left number : Nat}
    {tries : Tries} (h : firstAccepted attempt left number = .ok tries) {item : Item}
    (hitem : tries.accepted = some item) : ∃ k, attempt k = .ok (.accepted item) := by
  induction left generalizing number tries with
  | zero =>
    cases h
    cases hitem
  | succ left ih =>
    obtain ⟨attempted, hattempt, h⟩ := Result.bind_ok.mp h
    cases attempted with
    | accepted first =>
      cases h
      cases hitem
      exact ⟨number, hattempt⟩
    | collided =>
      obtain ⟨later, hlater, h⟩ := Result.bind_ok.mp h
      cases h
      exact ih hlater hitem
    | refused reason =>
      obtain ⟨later, hlater, h⟩ := Result.bind_ok.mp h
      cases h
      exact ih hlater hitem

theorem attemptItem_ok {family : Family} {draw : Draw Sampled} {rng : Rng} {item : Item}
    (h : attemptItem fuel guard family draw rng = .ok (.accepted item)) :
    (∃ rng', draw rng = .ok (item.sampled, rng')) ∧ Passed fuel guard family item := by
  obtain ⟨⟨sampled, rng'⟩, hdraw, h⟩ := Result.bind_ok.mp h
  obtain ⟨⟨text, rng''⟩, -, h⟩ := Result.bind_ok.mp h
  obtain ⟨question, hquestion, h⟩ := Result.bind_ok.mp h
  split at h
  · cases h
  · rename_i hapart
    split at h
    · rename_i hverified
      cases h
      refine ⟨⟨rng', hdraw⟩, ?_, fun g hg => ?_, hverified⟩
      · cases hq : questionText (scoreFamily fuel) sampled with
        | none =>
          rw [hq] at hquestion
          cases hquestion
        | some phrased =>
          rw [hq] at hquestion
          cases hquestion
          rfl
      · have hguard : guard = some g := hg
        rw [hguard] at hapart
        exact Bool.eq_false_iff.mpr hapart
    · cases h

/-- The record of a slot: of the family of the slot, under its id, in the file of the slot. -/
structure BaseRecord (fuel : Nat) (guard : Option SuiteGuard) (config : GenConfig) (index : Nat)
    (e : Emitted) : Prop where
  family : e.item.sampled.family = config.familyAt index
  domain : e.item.sampled.domain ∈ domains
  recordId : e.recordId = recordIdOf (config.familyAt index) e.item.sampled.domain index
  probe : e.probe = config.isProbe index
  passed : Passed fuel guard (config.familyAt index) e.item
  leveled : 3 ≤ fuel → e.item.sampled.Leveled

structure TwinRecord (fuel : Nat) (guard : Option SuiteGuard) (config : GenConfig) (index : Nat)
    (base e : Emitted) : Prop where
  paired : config.isPaired index = true
  twin : corruptToPair base.item.sampled = some e.item.sampled
  recordId : e.recordId = twinIdOf base.recordId index
  probe : e.probe = base.probe
  passed : Passed fuel guard .rootCauseChain e.item

/-- What a slot emits: its record, and the twin of it or none. -/
def SlotRecords (fuel : Nat) (guard : Option SuiteGuard) (config : GenConfig) (index : Nat)
    (records : List Emitted) : Prop :=
  ∃ base, BaseRecord fuel guard config index base ∧ (records = [base] ∨
    ∃ twin, TwinRecord fuel guard config index base twin ∧ records = [base, twin])

theorem SlotRecords.filed (hfuel : 3 ≤ fuel) {index : Nat} {records : List Emitted}
    (h : SlotRecords fuel guard config index records) :
    ∀ e ∈ records, Filed e.record e.recordId e.item := by
  obtain ⟨base, hbase, hrecords⟩ := h
  have hfirst : Filed base.record base.recordId base.item :=
    corpusRecord_filed (hbase.leveled hfuel) base.recordId
  rcases hrecords with rfl | ⟨twin, htwin, rfl⟩
  · simpa using hfirst
  · have hsecond : Filed twin.record twin.recordId twin.item :=
      corpusRecord_filed (corruptToPair_leveled htwin.twin) twin.recordId
    simpa using ⟨hfirst, hsecond⟩

theorem attemptBase_ok {index attempt : Nat} {item : Item}
    (h : attemptBase fuel guard config index attempt = .ok (.accepted item)) :
    BaseRecord fuel guard config index ⟨config.isProbe index,
      recordIdOf (config.familyAt index) item.sampled.domain index, item⟩ := by
  obtain ⟨⟨rng', hsample⟩, hpassed⟩ := attemptItem_ok h
  obtain ⟨domain, hdomain, phrasing, -, start, after, drawn, -, hsampled⟩ := sample_ok hsample
  refine ⟨?_, ?_, rfl, rfl, hpassed, fun hfuel => sample_leveled hfuel hsample⟩
  · exact congrArg Sampled.family hsampled
  · change item.sampled.domain ∈ domains
    rw [hsampled]
    exact hdomain

theorem twinSlot_ok {run run' : GenRun} {index : Nat} {base : Emitted}
    (h : twinSlot fuel guard config run index base = .ok run') :
    run'.emitted = run.emitted ∨ ∃ twin, TwinRecord fuel guard config index base twin ∧
      run'.emitted = run.emitted ++ [twin] := by
  unfold twinSlot at h
  split at h
  · cases h
    exact .inl rfl
  · rename_i twin htwin
    obtain ⟨tries, htries, h⟩ := Result.bind_ok.mp h
    dsimp only at h
    split at h
    · cases h
      exact .inl rfl
    · rename_i item hitem
      cases h
      obtain ⟨attempt, hattempt⟩ := firstAccepted_ok htries hitem
      obtain ⟨⟨rng', hdrawn⟩, hpassed⟩ := attemptItem_ok hattempt
      have hsampled : twin = item.sampled := congrArg Prod.fst (Except.ok.inj hdrawn)
      split at htwin
      · rename_i hpaired
        rw [hsampled] at htwin
        exact .inr ⟨⟨base.probe, twinIdOf base.recordId index, item⟩,
          ⟨hpaired, htwin, rfl, rfl, hpassed⟩, rfl⟩
      · cases htwin

/-- A slot emits its records, or the run fails there and nothing is emitted. -/
theorem slot_ok {run : GenRun} {index : Nat} {turn : GenRun × Option Unverifiable}
    (h : slot fuel guard config run index = .ok turn) :
    (∃ failure, turn.2 = some failure ∧ failure.index = index ∧
        turn.1.emitted = run.emitted) ∨
      turn.2 = none ∧ ∃ records, SlotRecords fuel guard config index records ∧
        turn.1.emitted = run.emitted ++ records := by
  obtain ⟨tries, htries, h⟩ := Result.bind_ok.mp h
  dsimp only at h
  split at h
  · cases h
    exact .inl ⟨_, rfl, rfl, rfl⟩
  · rename_i item hitem
    obtain ⟨run', htwin, h⟩ := Result.bind_ok.mp h
    cases h
    obtain ⟨attempt, hattempt⟩ := firstAccepted_ok htries hitem
    have hbase := attemptBase_ok hattempt
    refine .inr ⟨rfl, ?_⟩
    rcases twinSlot_ok htwin with hnone | ⟨twin, hrecord, hemitted⟩
    · exact ⟨_, ⟨_, hbase, .inl rfl⟩, hnone⟩
    · refine ⟨_, ⟨_, hbase, .inr ⟨twin, hrecord, rfl⟩⟩, ?_⟩
      rw [hemitted, GenRun.emit, List.append_assoc]
      rfl

/-- A run emits the records of its slots in order, from one on, up to the slot that fails. -/
theorem generateFrom_ok {left index : Nat} {run : GenRun} {turn : GenRun × Option Unverifiable}
    (h : generateFrom fuel guard config left index run = .ok turn) :
    ∃ slots : List (List Emitted), turn.1.emitted = run.emitted ++ slots.flatten ∧
      (∀ i records, slots[i]? = some records →
        SlotRecords fuel guard config (index + i) records) ∧
      match turn.2 with
      | none => slots.length = left
      | some failure => failure.index = index + slots.length ∧ slots.length < left := by
  induction left generalizing index run with
  | zero =>
    cases h
    exact ⟨[], (List.append_nil _).symm, by simp, rfl⟩
  | succ left ih =>
    obtain ⟨next, hslot, h⟩ := Result.bind_ok.mp h
    rcases slot_ok hslot with ⟨failure, hfailed, hindex, hemitted⟩ |
      ⟨hnone, records, hrecords, hemitted⟩
    · rw [hfailed] at h
      cases h
      exact ⟨[], by simp [hemitted], by simp, by simp [hindex]⟩
    · rw [hnone] at h
      obtain ⟨slots, hrest, hslots, hlength⟩ := ih h
      refine ⟨records :: slots, ?_, fun i later hlater => ?_, ?_⟩
      · rw [hrest, hemitted, List.flatten_cons, List.append_assoc]
      · cases i with
        | zero =>
          cases hlater
          exact hrecords
        | succ i =>
          have hmoved := hslots i later hlater
          rwa [Nat.add_right_comm] at hmoved
      · cases hturn : turn.2 with
        | none =>
          rw [hturn] at hlength
          exact congrArg (· + 1) hlength
        | some failure =>
          rw [hturn] at hlength
          obtain ⟨hindex, hlt⟩ := hlength
          exact ⟨by rw [hindex, List.length_cons]; omega, by rw [List.length_cons]; omega⟩

end Slots

section Acceptance

variable [RustStd] {fuel : Nat} {guard : Option SuiteGuard} {config : GenConfig}

/-- An attempt is accepted, or there is a suite that it collides with. -/
def Settles (guard : Option SuiteGuard) (attempt : Except Fault Attempted) : Prop :=
  (∃ item, attempt = .ok (.accepted item)) ∨ attempt = .ok .collided ∧ guard ≠ none

theorem attemptItem_settles {family : Family} {draw : Draw Sampled}
    (hdraw : Yields draw (Verified fuel family)) (rng : Rng) :
    Settles guard (attemptItem fuel guard family draw rng) := by
  obtain ⟨sampled, drawn, hrun, ⟨question, hquestion⟩, hrendered⟩ := hdraw rng
  obtain ⟨text, rendered, htext, hverified⟩ := hrendered drawn
  have hattempt : attemptItem fuel guard family draw rng =
      if guard.any fun guard => guard.collides text question then .ok .collided
      else .ok (.accepted ⟨sampled, text, question⟩) := by
    simp only [attemptItem, hrun, htext, hquestion, hverified, bind, Except.bind, Option.elim]
    rfl
  rw [hattempt]
  split
  · rename_i hcollides
    refine .inr ⟨rfl, ?_⟩
    rintro rfl
    cases hcollides
  · exact .inl ⟨_, rfl⟩

theorem attemptBase_settles (hlaws : BlankLaws) (hfuel : 3 ≤ fuel) (index attempt : Nat) :
    Settles guard (attemptBase fuel guard config index attempt) := by
  unfold attemptBase
  exact attemptItem_settles (yields_verified hlaws hfuel _) _

theorem attemptTwin_settles (index : Nat) {twin : Sampled}
    (h : Verified fuel .rootCauseChain twin) (attempt : Nat) :
    Settles guard (attemptTwin fuel guard config index twin attempt) := by
  unfold attemptTwin
  exact attemptItem_settles (yields_pure h) _

/-- The attempts at a slot refuse nothing; when they are exhausted, all of them collided. -/
structure Settled (guard : Option SuiteGuard) (attempt : Nat → Except Fault Attempted)
    (left number : Nat) (tries : Tries) : Prop where
  refused : tries.refused = 0
  lastError : tries.lastError = none
  collisions : guard = none → tries.collisions = 0
  exhausted : tries.accepted = none → ∀ k < left, attempt (number + k) = .ok .collided

omit [RustStd] in
theorem firstAccepted_settled {attempt : Nat → Except Fault Attempted}
    (h : ∀ k, Settles guard (attempt k)) (left number : Nat) :
    ∃ tries, firstAccepted attempt left number = .ok tries ∧
      Settled guard attempt left number tries := by
  induction left generalizing number with
  | zero => exact ⟨_, rfl, rfl, rfl, fun _ => rfl, fun _ k hk => absurd hk (Nat.not_lt_zero k)⟩
  | succ left ih =>
    rcases h number with ⟨item, haccepted⟩ | ⟨hcollided, hguard⟩
    · refine ⟨⟨0, 0, none, some item⟩, ?_, rfl, rfl, fun _ => rfl, nofun⟩
      rw [firstAccepted, haccepted]
      rfl
    · obtain ⟨later, hlater, hsettled⟩ := ih (number + 1)
      refine ⟨{ later with collisions := later.collisions + 1 }, ?_, hsettled.refused,
        hsettled.lastError, fun hnone => absurd hnone hguard, fun hnone k hk => ?_⟩
      · rw [firstAccepted, hcollided]
        simp only [bind, Except.bind, hlater]
        rfl
      · cases k with
        | zero => exact hcollided
        | succ k =>
          have hrest := hsettled.exhausted hnone k (Nat.lt_of_succ_lt_succ hk)
          rwa [Nat.add_right_comm] at hrest

omit [RustStd] in
theorem Settled.accepted {attempt : Nat → Except Fault Attempted} {left number : Nat}
    {tries : Tries} (h : Settled none attempt left number tries) (hleft : 0 < left)
    (hattempt : Settles none (attempt number)) : tries.accepted ≠ none := by
  intro hnone
  have hcollided := h.exhausted hnone 0 hleft
  rcases hattempt with ⟨item, haccepted⟩ | ⟨-, hguard⟩
  · rw [Nat.add_zero, haccepted] at hcollided
    cases hcollided
  · exact hguard rfl

/-- The verifier has refused nothing, and without a suite nothing was tried twice. -/
structure Unrefused (guard : Option SuiteGuard) (stats : GenStats) : Prop where
  rejected : stats.rejected = 0
  pairsRejected : stats.pairsRejected = 0
  collisions : guard = none → stats.collisions = 0

theorem Unrefused.count {stats : GenStats} (h : Unrefused guard stats) (e : Emitted) :
    Unrefused guard (stats.count e) := by
  have hkept : (stats.count e).rejected = stats.rejected ∧
      (stats.count e).pairsRejected = stats.pairsRejected ∧
      (stats.count e).collisions = stats.collisions := by
    unfold GenStats.count
    dsimp only
    split <;> split <;> exact ⟨rfl, rfl, rfl⟩
  exact ⟨hkept.1.trans h.rejected, hkept.2.1.trans h.pairsRejected,
    fun hnone => hkept.2.2.trans (h.collisions hnone)⟩

/-- Every attempt at the slot that fails collided with the suite. -/
def Exhausted (fuel : Nat) (guard : Option SuiteGuard) (config : GenConfig)
    (failure : Unverifiable) : Prop :=
  failure.lastError = none ∧ guard ≠ none ∧
    ∀ attempt < maxAttempts, attemptBase fuel guard config failure.index attempt = .ok .collided

omit [RustStd] in
theorem Unrefused.tried {stats : GenStats} (h : Unrefused guard stats)
    {attempt : Nat → Except Fault Attempted} {left number : Nat} {tries : Tries}
    (htries : Settled guard attempt left number tries) :
    Unrefused guard { stats with
      collisions := stats.collisions + tries.collisions
      rejected := stats.rejected + tries.refused } :=
  ⟨by rw [htries.refused, h.rejected], h.pairsRejected,
    fun hnone => by rw [h.collisions hnone, htries.collisions hnone]⟩

omit [RustStd] in
theorem Unrefused.twinTried {stats : GenStats} (h : Unrefused guard stats)
    {attempt : Nat → Except Fault Attempted} {left number : Nat} {tries : Tries}
    (htries : Settled guard attempt left number tries) :
    Unrefused guard { stats with
      collisions := stats.collisions + tries.collisions
      pairsRejected := stats.pairsRejected + tries.refused } :=
  ⟨h.rejected, by rw [htries.refused, h.pairsRejected],
    fun hnone => by rw [h.collisions hnone, htries.collisions hnone]⟩

theorem twinSlot_unrefused (hlaws : BlankLaws) {run : GenRun} (h : Unrefused guard run.stats)
    (index : Nat) {base : Emitted} {rng rng' : Rng}
    (hbase : sample (scoreFamily fuel) domains (config.familyAt index) rng =
      .ok (base.item.sampled, rng')) :
    ∃ run', twinSlot fuel guard config run index base = .ok run' ∧ Unrefused guard run'.stats := by
  rw [twinSlot]
  split
  · exact ⟨run, rfl, h⟩
  · rename_i twin htwin
    split at htwin
    · rename_i hpaired
      simp only [GenConfig.isPaired, Bool.and_eq_true, decide_eq_true_eq] at hpaired
      rw [hpaired.1.1] at hbase
      have hattempts : ∀ k, Settles guard (attemptTwin fuel guard config index twin k) :=
        attemptTwin_settles index (verified_twin hlaws hbase htwin)
      obtain ⟨tries, htries, hsettled⟩ := firstAccepted_settled hattempts maxAttempts 0
      let tried : GenRun := { run with stats := { run.stats with
        collisions := run.stats.collisions + tries.collisions
        pairsRejected := run.stats.pairsRejected + tries.refused } }
      have htried : Unrefused guard tried.stats := h.twinTried hsettled
      cases hitem : tries.accepted with
      | none =>
        refine ⟨tried, Result.bind_ok.mpr ⟨tries, htries, ?_⟩, htried⟩
        rw [hitem]
        rfl
      | some item =>
        let both := tried.emit ⟨base.probe, twinIdOf base.recordId index, item⟩
        have hboth : Unrefused guard both.stats := htried.count _
        refine ⟨{ both with stats := { both.stats with pairs := both.stats.pairs + 1 } },
          Result.bind_ok.mpr ⟨tries, htries, ?_⟩,
          hboth.rejected, hboth.pairsRejected, hboth.collisions⟩
        rw [hitem]
        rfl
    · cases htwin

variable (config) in
theorem slot_unrefused (hlaws : BlankLaws) (hfuel : 3 ≤ fuel) {run : GenRun}
    (h : Unrefused guard run.stats) (index : Nat) :
    ∃ turn, slot fuel guard config run index = .ok turn ∧ Unrefused guard turn.1.stats ∧
      ∀ failure ∈ turn.2, failure.index = index ∧ Exhausted fuel guard config failure := by
  have hattempts : ∀ k, Settles guard (attemptBase fuel guard config index k) :=
    attemptBase_settles hlaws hfuel index
  obtain ⟨tries, htries, hsettled⟩ := firstAccepted_settled hattempts maxAttempts 0
  let tried : GenRun := { run with stats := { run.stats with
    collisions := run.stats.collisions + tries.collisions
    rejected := run.stats.rejected + tries.refused } }
  have htried : Unrefused guard tried.stats := h.tried hsettled
  cases hitem : tries.accepted with
  | none =>
    refine ⟨(tried, some ⟨config.familyAt index, index, tries.lastError⟩),
      Result.bind_ok.mpr ⟨tries, htries, ?_⟩, htried, fun failure hfailure => ?_⟩
    · rw [hitem]
      rfl
    · cases hfailure
      refine ⟨rfl, hsettled.lastError, ?_, fun attempt hattempt => ?_⟩
      · intro hnone
        subst hnone
        exact hsettled.accepted (by decide) (hattempts 0) hitem
      · have hcollided := hsettled.exhausted hitem attempt hattempt
        rwa [Nat.zero_add] at hcollided
  | some item =>
    obtain ⟨k, hattempt⟩ := firstAccepted_ok htries hitem
    obtain ⟨⟨rng', hsample⟩, -⟩ := attemptItem_ok hattempt
    let base : Emitted := ⟨config.isProbe index,
      recordIdOf (config.familyAt index) item.sampled.domain index, item⟩
    have hbase : sample (scoreFamily fuel) domains (config.familyAt index)
        (seededRng config.seed index k) = .ok (base.item.sampled, rng') := hsample
    have hemitted : Unrefused guard (tried.emit base).stats := htried.count base
    obtain ⟨run', htwin, hrun'⟩ := twinSlot_unrefused hlaws hemitted index hbase
    refine ⟨(run', none), Result.bind_ok.mpr ⟨tries, htries, ?_⟩, hrun',
      fun failure hfailure => absurd hfailure (Option.not_mem_none failure)⟩
    rw [hitem]
    exact Result.bind_ok.mpr ⟨run', htwin, rfl⟩

variable (config) in
theorem generateFrom_unrefused (hlaws : BlankLaws) (hfuel : 3 ≤ fuel) (left index : Nat)
    {run : GenRun} (h : Unrefused guard run.stats) :
    ∃ turn, generateFrom fuel guard config left index run = .ok turn ∧
      Unrefused guard turn.1.stats ∧
      ∀ failure ∈ turn.2, Exhausted fuel guard config failure := by
  induction left generalizing index run with
  | zero => exact ⟨_, rfl, h, fun failure hnone => absurd hnone (Option.not_mem_none failure)⟩
  | succ left ih =>
    obtain ⟨next, hslot, hnext, hfailed⟩ := slot_unrefused config hlaws hfuel h index
    cases hfailure : next.2 with
    | some failure =>
      refine ⟨(next.1, some failure), Result.bind_ok.mpr ⟨next, hslot, ?_⟩, hnext,
        fun other hother => ?_⟩
      · rw [hfailure]
        rfl
      · cases hother
        exact (hfailed failure hfailure).2
    | none =>
      obtain ⟨turn, hrun, hturn⟩ := ih (index + 1) hnext
      refine ⟨turn, Result.bind_ok.mpr ⟨next, hslot, ?_⟩, hturn⟩
      rw [hfailure]
      exact hrun

/-- A run over any families never faults, and the verifier refuses nothing of what is drawn: a slot
fails only when the suite collides with each of the attempts at it. Without a suite no slot fails
and none is tried twice. -/
theorem generate_verified (hlaws : BlankLaws) (hfuel : 3 ≤ fuel) (guard : Option SuiteGuard)
    (config : GenConfig) :
    ∃ turn, generate fuel guard config = .ok turn ∧ turn.1.stats.rejected = 0 ∧
      turn.1.stats.pairsRejected = 0 ∧
      (∀ failure ∈ turn.2, failure.lastError = none ∧ ∀ attempt < maxAttempts,
        attemptBase fuel guard config failure.index attempt = .ok .collided) ∧
      (guard = none → turn.2 = none ∧ turn.1.stats.collisions = 0) := by
  have hstart : Unrefused guard ({} : GenRun).stats := ⟨rfl, rfl, fun _ => rfl⟩
  obtain ⟨turn, hrun, hstats, hfailed⟩ := generateFrom_unrefused config hlaws hfuel
    config.n 0 hstart
  refine ⟨turn, hrun, hstats.rejected, hstats.pairsRejected,
    fun failure hfailure => ⟨(hfailed failure hfailure).1, (hfailed failure hfailure).2.2⟩,
    fun hnone => ⟨?_, hstats.collisions hnone⟩⟩
  rw [Option.eq_none_iff_forall_not_mem]
  exact fun failure hfailure => (hfailed failure hfailure).2.1 hnone

end Acceptance

section Samples

attribute [local instance] plainStd

theorem generate_verified_pairs : BlankLaws ∧ 3 ≤ 3 ∧
    ∃ turn, generate 3 none ⟨600, 7, 5, [.rootCauseChain, .scoreBoard], 2⟩ = .ok turn ∧
      turn.1.stats.rejected = 0 ∧ turn.1.stats.pairsRejected = 0 ∧ turn.2 = none := by
  obtain ⟨turn, hrun, hrejected, hpairs, -, hunguarded⟩ := generate_verified plain_blankLaws
    (le_refl 3) none ⟨600, 7, 5, [.rootCauseChain, .scoreBoard], 2⟩
  exact ⟨plain_blankLaws, le_rfl, turn, hrun, hrejected, hpairs, (hunguarded rfl).1⟩

end Samples

end OpenCodifier.Itemgen
