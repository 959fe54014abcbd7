import OpenCodifier.Lib.Neighbours
import OpenCodifier.Engine.Facts
import OpenCodifier.Itemgen.Rng
set_option autoImplicit false

namespace OpenCodifier.Itemgen

open Neighbours (windows)

section Vocabulary

structure Domain where
  code : String
  noun : String
  names : List String
  deriving DecidableEq

def domains : List Domain :=
  [⟨"svc", "component", ["auth", "billing", "gateway", "index", "feed", "dispatch", "export",
      "catalog", "search", "worker"]⟩,
    ⟨"region", "region", ["north", "south", "east", "west", "central", "coast"]⟩,
    ⟨"module", "module", ["parser", "lexer", "runtime", "linker", "driver", "codec", "serial",
      "fsm"]⟩,
    ⟨"store", "store", ["cache", "ledger", "queue", "blob", "meta", "wal", "tier", "replica"]⟩]

def rootCauseQuestions : List String :=
  ["Fixing which single \x7bnoun\x7d restores every part of the chain?",
    "Which \x7bnoun\x7d is failing at the root, rather than because of another failure?",
    "Exactly one \x7bnoun\x7d's repair clears every failure at once. Which one?",
    "All of the traced failures come back if one \x7bnoun\x7d is repaired. Which?"]

def healthiestQuestions : List String :=
  ["Which \x7bnoun\x7d is healthiest overall?",
    "Which \x7bnoun\x7d reports the most healthy checks?",
    "One \x7bnoun\x7d is strictly ahead on healthy reports. Which one?",
    "Which \x7bnoun\x7d has the best healthy record on the board?"]

def firstRestoredQuestions : List String :=
  ["Which \x7bnoun\x7d comes back online first?",
    "Bring-up starts at exactly one \x7bnoun\x7d. Which one?",
    "Which \x7bnoun\x7d can be restored without waiting on any other?",
    "Which \x7bnoun\x7d gates the rest of the bring-up order?"]

end Vocabulary

inductive Family where
  | rootCauseChain
  | rootCauseAgreeing
  | healthiestBoard
  | firstRestoredChain
  | scoreBoard
  deriving DecidableEq

def families : List Family :=
  [.rootCauseChain, .rootCauseAgreeing, .healthiestBoard, .firstRestoredChain]

inductive DistractorKind where
  | symptom
  | standaloneFailure
  | healthyPeer
  | unrelated
  | runnerUp
  | degradedHeavy
  | zeroReport
  | waiter
  | lastInOrder
  deriving DecidableEq

structure Distractor where
  name : String
  kind : DistractorKind
  deriving DecidableEq

structure Sampled where
  facts : List RelationalFact
  gold : String
  distractors : List Distractor
  family : Family
  domain : Domain
  phrasing : Nat
  deriving DecidableEq

def Sampled.ballot (sampled : Sampled) : List String :=
  sampled.gold :: sampled.distractors.map Distractor.name

namespace Draw

variable {α : Type}

def splitAt (xs : List α) (i : Nat) : Draw (List α × List α) :=
  if i ≤ xs.length then pure (xs.splitAt i) else throw .outOfRange

def slice (xs : List α) (first last : Nat) : Draw (List α) :=
  if first ≤ last && last ≤ xs.length then pure ((xs.drop first).take (last - first))
  else throw .outOfRange

def keepSome (percentage : Nat) : List α → Draw (List α)
  | [] => pure []
  | x :: rest => do
    let keep ← percent percentage
    let kept ← keepSome percentage rest
    pure (if keep then x :: kept else kept)

end Draw

def takeNames (domain : Domain) (count : Nat) : Draw (List String) := do
  let pool ← Draw.shuffle domain.names
  pure (pool.take count)

def topUp (allowed : String → Bool) : List String → List Distractor → Nat → List Distractor
  | [], distractors, _ => distractors
  | name :: names, distractors, ballotSize =>
    if 5 ≤ ballotSize then distractors
    else if allowed name && !distractors.any fun d => d.name = name then
      topUp allowed names (distractors ++ [⟨name, .unrelated⟩]) (ballotSize + 1)
    else topUp allowed names distractors ballotSize

section RootCause

structure RootCauseDraw where
  chain : List String
  gold : String
  symptoms : List String
  standalone : String
  unrelated : String
  /-- The healthy pair: the one on the ballot and the other. -/
  pair : Option (String × String)

def rootCauseFacts (draw : RootCauseDraw) (withOrder : Bool) : List RelationalFact :=
  ((windows draw.chain).flatMap fun pair =>
      .dependsOn pair.2 pair.1 ::
        (if withOrder then [RelationalFact.restoresAfter pair.2 pair.1] else [])) ++
    [.health draw.gold .down] ++
    (draw.symptoms.map fun symptom => .health symptom .down) ++
    [.health draw.standalone .down] ++
    match draw.pair with
    | some (ballot, noise) => [.health ballot .healthy, .health noise .healthy]
    | none => []

def rootCauseDistractors (draw : RootCauseDraw) : List Distractor :=
  let distractors := ((draw.symptoms.take 2).map fun symptom => ⟨symptom, .symptom⟩) ++
    [⟨draw.standalone, .standaloneFailure⟩] ++
    (match draw.pair with
      | some (ballot, _) => [⟨ballot, .healthyPeer⟩]
      | none => []) ++
    [⟨draw.unrelated, .unrelated⟩]
  topUp (fun _ => true) draw.chain.tail distractors (distractors.length + 1)

/-- A small pool has no names for a healthy pair. -/
def wantsPair (domain : Domain) : Draw Bool :=
  if 7 ≤ domain.names.length then Draw.percent 55 else pure false

def healthyPair (wantPair : Bool) (rest : List String) : Draw (Option (String × String)) :=
  if wantPair then do
    let ballot ← Draw.index rest 2
    let noise ← Draw.index rest 3
    pure (some (ballot, noise))
  else pure none

def rootCause (domain : Domain) (withOrder : Bool) : Draw Sampled := do
  let wantPair ← wantsPair domain
  let headroom := if wantPair then 4 else 2
  let room ← Draw.sub domain.names.length headroom
  let maxChain := min room 5
  let lengths ← Draw.sub maxChain 2
  let extra ← Draw.below lengths
  let chainLen := 3 + extra
  let names ← takeNames domain (chainLen + headroom)
  let (chain, rest) ← Draw.splitAt names chainLen
  let gold ← Draw.index chain 0
  let near ← Draw.slice chain 1 3
  let far ← Draw.keepSome 60 (chain.drop 3)
  let standalone ← Draw.index rest 0
  let unrelated ← Draw.index rest 1
  let pair ← healthyPair wantPair rest
  let draw : RootCauseDraw := ⟨chain, gold, near ++ far, standalone, unrelated, pair⟩
  pure ⟨rootCauseFacts draw withOrder, gold, rootCauseDistractors draw, .rootCauseChain, domain, 0⟩

end RootCause

section Healthiest

/-- Statuses that are degraded with a percentage and down otherwise. -/
def badStatuses (count percentage : Nat) : Draw (List Health) :=
  (List.range count).mapM fun _ => do
    let degraded ← Draw.percent percentage
    pure (if degraded then .degraded else .down)

def statedAlone (count : Nat) : Draw Bool :=
  if count = 1 then Draw.percent 50 else pure false

/-- So many healthy reports of an entity: one alone may be a single statement, otherwise they
stand among some others. -/
def reportFact (entry : String × Nat) : Draw RelationalFact := do
  let single ← statedAlone entry.2
  if single then pure (.health entry.1 .healthy)
  else do
    let filler ← Draw.below 3
    let others ← badStatuses filler 60
    let statuses ← Draw.shuffle (List.replicate entry.2 .healthy ++ others)
    pure (.healthList entry.1 statuses)

def healthiest (domain : Domain) : Draw Sampled := do
  let names ← takeNames domain 5
  let more ← Draw.below 3
  let bestCount := 2 + more
  let second ← Draw.sub bestCount 1
  let third := bestCount - 2
  let winner ← Draw.index names 0
  let runner ← Draw.index names 1
  let thirdName ← Draw.index names 2
  let heavy ← Draw.index names 3
  let silent ← Draw.index names 4
  let counted := ((names.take 3).zip [bestCount, second, third, 0, 0]).filter fun e => e.2 ≠ 0
  let reported ← counted.mapM reportFact
  let heavyCount ← Draw.below 2
  let heavyStatuses ← badStatuses (2 + heavyCount) 70
  let thirdKind : DistractorKind := if 0 < third then .runnerUp else .zeroReport
  pure ⟨reported ++ [.healthList heavy heavyStatuses], winner,
    [⟨runner, .runnerUp⟩, ⟨thirdName, thirdKind⟩, ⟨heavy, .degradedHeavy⟩, ⟨silent, .zeroReport⟩],
    .healthiestBoard, domain, 0⟩

end Healthiest

section FirstRestored

/-- A chain of at least four has one more waiter on the ballot. -/
def thirdWaiter (chain : List String) (chainLen : Nat) : Draw (List Distractor) :=
  if 4 ≤ chainLen then do
    let name ← Draw.index chain 2
    pure [⟨name, .waiter⟩]
  else pure []

def firstRestored (domain : Domain) : Draw Sampled := do
  let room ← Draw.sub domain.names.length 2
  let maxChain := min room 5
  let lengths ← Draw.sub maxChain 2
  let extra ← Draw.below lengths
  let chainLen := 3 + extra
  let names ← takeNames domain (chainLen + 1)
  let (chain, side) ← Draw.splitAt names chainLen
  let sideWaiter ← Draw.index side 0
  let lastIndex ← Draw.sub chainLen 1
  let last ← Draw.index chain lastIndex
  let second ← Draw.index chain 1
  let third ← thirdWaiter chain chainLen
  let gold ← Draw.index chain 0
  let facts := ((windows chain).map fun pair => RelationalFact.restoresAfter pair.2 pair.1) ++
    [.restoresAfter sideWaiter last]
  let distractors := [⟨second, .waiter⟩, ⟨last, .lastInOrder⟩, ⟨sideWaiter, .waiter⟩] ++ third
  let distractors := topUp (fun name => !chain.contains name) domain.names distractors
    (1 + distractors.length)
  pure ⟨facts, gold, distractors, .firstRestoredChain, domain, 0⟩

end FirstRestored

def Family.phrasings (scoreQuestions : List String) : Family → List String
  | rootCauseChain => rootCauseQuestions
  | rootCauseAgreeing => rootCauseQuestions
  | healthiestBoard => healthiestQuestions
  | firstRestoredChain => firstRestoredQuestions
  | scoreBoard => scoreQuestions

/-- What a choice item does not use: the phrasings and the sampler of the score boards. -/
structure ScoreFamily where
  questions : List String
  scoreBoard : Domain → Draw Sampled

def Family.sampler (score : ScoreFamily) (domain : Domain) : Family → Draw Sampled
  | rootCauseChain => rootCause domain false
  | rootCauseAgreeing => rootCause domain true
  | healthiestBoard => healthiest domain
  | firstRestoredChain => firstRestored domain
  | scoreBoard => score.scoreBoard domain

def sample (score : ScoreFamily) (domains : List Domain) (family : Family) : Draw Sampled := do
  let domain ← Draw.pick domains
  let phrasing ← Draw.below (family.phrasings score.questions).length
  let sampled ← family.sampler score domain
  pure { sampled with family, domain, phrasing }

end OpenCodifier.Itemgen
