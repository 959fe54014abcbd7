import Mathlib.Algebra.Order.Monoid.Unbundled.WithTop
import Mathlib.Data.List.Rotate
import Mathlib.Data.List.Sort
import Mathlib.Tactic.Linarith
import OpenCodifier.Engine.Classifier
set_option autoImplicit false

namespace OpenCodifier

inductive Combine where
  | logMean
  | arithmeticMean
  deriving DecidableEq

structure EarlyExit where
  kMin : Nat
  targetAgreement : ℚ
  kMin_pos : kMin ≠ 0
  target_range : 1 / 2 < targetAgreement ∧ targetAgreement < 1
  deriving DecidableEq

structure RotationReadout where
  inner : Classifier
  combine : Combine
  id : String
  earlyExit : Option EarlyExit

namespace RotationReadout

def new (inner : Classifier) (id : String) : RotationReadout := ⟨inner, .logMean, id, none⟩

def withCombine (readout : RotationReadout) (combine : Combine) : RotationReadout :=
  { readout with combine }

def withEarlyExit [RustStd] (readout : RotationReadout) (kMin : Nat) (targetAgreement : ℚ) :
    EngineResult RotationReadout :=
  if hk : kMin = 0 then .error (.invalidConfig "rotation early exit: k_min must be >= 1")
  else if ht : 1 / 2 < targetAgreement ∧ targetAgreement < 1 then
    .ok { readout with earlyExit := some ⟨kMin, targetAgreement, hk, ht⟩ }
  else .error (.invalidConfig ("rotation early exit: target_agreement " ++
    RustStd.display targetAgreement ++ " outside (0.5, 1.0)"))

def rotations (candidates : List Candidate) : List (List Candidate) :=
  (List.range candidates.length).map candidates.rotate

theorem two_atLeastTwo : Nat.AtLeastTwo 2 := inferInstance

section Combination

attribute [local instance] two_atLeastTwo

variable {K : Type} [Field K] [LinearOrder K] (ln exp : K → K)

/-- The logarithm, which is infinite at zero. -/
def logOf (x : K) : WithBot K := if x = 0 then ⊥ else ln x

def expOf (x : WithBot K) : K := (x.map exp).unbotD 0

def tally {M : Type} [AddZeroClass M] (value : String × K → M) (reads : List (List (String × K))) :
    OrdMap String M :=
  reads.foldl (fun sums read => read.foldl (fun sums entry =>
    sums.insert entry.1 ((sums.get? entry.1).getD 0 + value entry)) sums) OrdMap.empty

def logMeanOf (reads : Nat) (sum : WithBot K) : K := expOf exp (sum.map fun v => v / reads)

def prior (reads : List (List (String × K))) : OrdMap String K :=
  (tally (fun entry => logOf ln entry.2) reads).mapValues fun _ sum =>
    logMeanOf exp reads.length sum

/-- A probability with the prior divided out, unless that is negligible. -/
def corrected (prior : OrdMap String K) (entry : String × K) : K :=
  let base := (prior.get? entry.1).getD 1
  if 1 / 2 ^ 52 < base then entry.2 / base else entry.2

/-- The corrected reads combined, not normalized yet. -/
def combined (combine : Combine) (reads : List (List (String × K))) : List (String × K) :=
  let prior := prior ln exp reads
  match combine with
  | .arithmeticMean =>
    (tally (corrected prior) reads).entries.map fun entry =>
      (entry.1, if (1 : K) < reads.length then entry.2 / reads.length else entry.2)
  | .logMean =>
    (tally (fun entry => logOf ln (corrected prior entry)) reads).entries.map fun entry =>
      (entry.1, logMeanOf exp reads.length entry.2)

def normalize (entries : List (String × K)) : Option (List (String × K)) :=
  let sum := (entries.map Prod.snd).sum
  if sum ≤ 0 then none else some (entries.map fun entry => (entry.1, entry.2 / sum))

end Combination

section Certificate

def floored (d : ℚ) : ℚ := if |d| < 1 / 10 ^ 300 then 1 / 10 ^ 300 else d

structure Lentz where
  c : ℚ
  d : ℚ
  h : ℚ

def Lentz.turn (s : Lentz) (term : ℚ) : Lentz :=
  let d := 1 / floored (1 + term * s.d)
  let c := floored (1 + term / s.c)
  ⟨c, d, s.h * (d * c)⟩

/-- The rounds from the m-th on, until the last factor is close to one. -/
def betacfLoop (x aa bb : ℚ) : Nat → Nat → Lentz → ℚ
  | 0, _, s => s.h
  | left + 1, m, s =>
    let even := m * (bb - m) * x / ((aa - 1 + 2 * m) * (aa + 2 * m))
    let odd := -(aa + m) * (aa + bb + m) * x / ((aa + 2 * m) * (aa + 1 + 2 * m))
    let s := (s.turn even).turn odd
    if |s.d * s.c - 1| < 3 / 10 ^ 12 then s.h else betacfLoop x aa bb left (m + 1) s

def betacf (x aa bb : ℚ) : ℚ :=
  let d := 1 / floored (1 - (aa + bb) * x / (aa + 1))
  betacfLoop x aa bb 200 1 ⟨1, d, d⟩

variable [RustStd]

/-- The logarithm of the Gamma function after Lanczos. The reflection of the source below one half
is left out: no argument is below one. -/
def lnGamma (x : ℚ) : ℚ :=
  let x := x - 1
  let cof : List ℚ := [6765203681218851 / 10 ^ 13, -12591392167224028 / 10 ^ 13,
    7713234287776531 / 10 ^ 13, -1766150291621406 / 10 ^ 13, 12507343278686905 / 10 ^ 15,
    -13857109526572012 / 10 ^ 17, 9984369578019572 / 10 ^ 21, 15056327351493116 / 10 ^ 23]
  let a := (cof.zipIdx 1).foldl (fun a c => a + c.1 / (x + c.2)) (9999999999998099 / 10 ^ 16)
  let t := x + 15 / 2
  let pi := 314159265358979323846264338327950288 / 10 ^ 35
  1 / 2 * RustStd.ln (2 * pi) + RustStd.ln t * (x + 1 / 2) - t + RustStd.ln a

def betainc (x a b : ℚ) : ℚ :=
  if x ≤ 0 then 0
  else if 1 ≤ x then 1
  else
    let front := RustStd.exp
      (lnGamma (a + b) - lnGamma a - lnGamma b + a * RustStd.ln x + b * RustStd.ln (1 - x))
    if x < (a + 1) / (a + b + 2) then front * betacf x a b / a
    else 1 - front * betacf (1 - x) b a / b

/-- A count as the source converts it to a float. -/
def asU16 (n : Nat) : ℚ := (min n 65535 : Nat)

def binomCdf (successes : Nat) (trials prob : ℚ) : ℚ :=
  if trials ≤ asU16 successes then 1
  else if prob ≤ 0 then 1
  else if 1 ≤ prob then 0
  else
    let a := asU16 successes + 1
    let b := trials - a + 1
    betainc (1 - prob) b a

def bisect (tail : ℚ → ℚ) (alpha : ℚ) : Nat → ℚ × ℚ → ℚ
  | 0, (lo, hi) => (lo + hi) / 2
  | left + 1, (lo, hi) =>
    let mid := (lo + hi) / 2
    bisect tail alpha left (if alpha < tail mid then (lo, mid) else (mid, hi))

def cpLowerBound (wins n : Nat) (alpha : ℚ) : ℚ :=
  if wins = 0 then 0
  else if wins = n then RustStd.powf alpha (1 / asU16 n)
  else bisect (fun p => 1 - binomCdf (wins - 1) n p) alpha 60 (0, 1)

/-- How many reads every key wins; among equal probabilities the last entry wins a read. -/
def winCounts (reads : List Distribution) : OrdMap String Nat :=
  reads.foldl (fun wins read =>
    match Extremum.lastMax DistributionEntry.probability read.entries with
    | some best => wins.insert best.key ((wins.get? best.key).getD 0 + 1)
    | none => wins) OrdMap.empty

/-- The unread rotations cannot take the lead from the winner of the reads. -/
def certified (reads : List Distribution) (totalK : Nat) (targetAgreement : ℚ) : Bool :=
  let n := reads.length
  let m := totalK - n
  if m = 0 then true
  else
    let counts := (winCounts reads).values.insertionSort (· ≥ ·)
    let w := counts.headD 0
    let r := counts.getD 1 0
    if asU16 w ≤ asU16 r + m then false
    else
      let lower := cpLowerBound w n (1 - targetAgreement)
      decide ((m : ℚ) / totalK < lower) && decide (1 / 2 < asU16 w / n)

omit [RustStd] in
/-- The Gamma functions of a certificate are taken at arguments from one on. -/
theorem binomCdf_args {successes : Nat} {trials : Nat} (h : ¬ (trials : ℚ) ≤ asU16 successes) :
    (1 : ℚ) ≤ asU16 successes + 1 ∧ (1 : ℚ) ≤ trials - (asU16 successes + 1) + 1 := by
  have hlt : min successes 65535 < trials := by
    rw [asU16] at h
    exact_mod_cast not_le.mp h
  have hle : ((min successes 65535 : Nat) : ℚ) + 1 ≤ trials := by exact_mod_cast hlt
  have hnonneg : (0 : ℚ) ≤ (min successes 65535 : Nat) := Nat.cast_nonneg _
  rw [asU16]
  constructor <;> linarith

end Certificate

section Decide

variable [RustStd] (readout : RotationReadout)

def rerender (choice : ChoiceQuestion) (rotated : List Candidate) : EngineResult ChoiceQuestion :=
  match ChoiceQuestion.new choice.id.text choice.text rotated with
  | .ok question => .ok question
  | .error e => .error (.invalidConfig ("rotation re-render refused: " ++ e.display))

def exits (total : Nat) (reads : List Distribution) : Bool :=
  readout.earlyExit.any fun exit =>
    decide (exit.kMin ≤ reads.length) && certified reads total exit.targetAgreement

def readRotations (state : State) (choice : ChoiceQuestion) (total : Nat) :
    List (List Candidate) → List Distribution → EngineResult (List Distribution)
  | [], reads => .ok reads
  | rotated :: rest, reads => do
    let question ← rerender choice rotated
    let read ← readout.inner.decide state (.choice question)
    let reads := reads ++ [read]
    if readout.exits total reads then .ok reads
    else readRotations state choice total rest reads

def combineReads (combine : Combine) (reads : List Distribution) : EngineResult Distribution :=
  let rows := reads.map fun read => read.entries.map fun entry => (entry.key, entry.probability)
  match normalize (combined RustStd.ln RustStd.exp combine rows) with
  | none => .error (.invalidConfig "rotation combination collapsed to zero mass")
  | some entries =>
    match Distribution.new (entries.map fun entry => ⟨entry.1, entry.2⟩) with
    | .ok d => .ok d
    | .error e => .error (.invalidConfig
        ("rotation combination produced an invalid distribution: " ++ e.display))

def decide (state : State) : DecisionQuestion → EngineResult Distribution
  | .choice choice =>
    if choice.candidates.length < 2 then readout.inner.decide state (.choice choice)
    else do
      let rotations := rotations choice.candidates
      let reads ← readout.readRotations state choice rotations.length rotations []
      combineReads readout.combine reads
  | question => readout.inner.decide state question

/-- The extended form ignores an index and reports no support. -/
def classifier : Classifier := .ofDecide readout.id readout.decide

end Decide

end RotationReadout

end OpenCodifier
