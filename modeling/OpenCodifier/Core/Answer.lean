import Mathlib.Algebra.BigOperators.Group.List.Basic
import Mathlib.Algebra.Order.Group.Abs
import Mathlib.Algebra.Order.Field.Rat
import Mathlib.Algebra.Order.Monoid.Unbundled.WithTop
import OpenCodifier.Lib.Extremum
import OpenCodifier.Core.Question
set_option autoImplicit false

namespace OpenCodifier

structure DistributionEntry where
  key : String
  probability : ℚ
  deriving DecidableEq

/-- A categorical distribution in supplied order: at least one entry, unique
keys, probabilities in the unit interval, and total mass one within tolerance. -/
structure Distribution where
  entries : List DistributionEntry
  entries_ne : entries ≠ []
  unique : (entries.map DistributionEntry.key).Nodup
  unit : ∀ e ∈ entries, 0 ≤ e.probability ∧ e.probability ≤ 1
  normalized : |(entries.map DistributionEntry.probability).sum - 1| ≤ sumTolerance
  deriving DecidableEq

namespace Distribution

def checkEntries (seen : List String) (sum : ℚ) : List DistributionEntry → CoreResult ℚ
  | [] => .ok sum
  | e :: rest =>
    if e.key ∈ seen then .error (.duplicateCandidate e.key)
    else if !isUnitInterval e.probability then .error (.invalidProbability e.probability)
    else checkEntries (e.key :: seen) (sum + e.probability) rest

theorem checkEntries_ok {seen : List String} {sum total : ℚ} {l : List DistributionEntry}
    (h : checkEntries seen sum l = .ok total) :
    (l.map DistributionEntry.key).Nodup ∧
    (∀ e ∈ l, e.key ∉ seen) ∧
    (∀ e ∈ l, 0 ≤ e.probability ∧ e.probability ≤ 1) ∧
    total = sum + (l.map DistributionEntry.probability).sum := by
  induction l generalizing seen sum with
  | nil =>
    simp only [checkEntries, Except.ok.injEq] at h
    simp [h]
  | cons a l ih =>
    simp only [checkEntries] at h
    split at h
    · cases h
    · rename_i hseen
      split at h
      · cases h
      · rename_i hunit
        obtain ⟨hn, hs, hu, ht⟩ := ih h
        refine ⟨?_, ?_, ?_, ?_⟩
        · simp only [List.map_cons, List.nodup_cons]
          refine ⟨fun hm => ?_, hn⟩
          obtain ⟨e, he, hk⟩ := List.mem_map.mp hm
          exact hs e he (hk ▸ List.mem_cons_self)
        · intro e he
          rcases List.mem_cons.mp he with rfl | he
          · exact hseen
          · exact fun hm => hs e he (List.mem_cons_of_mem _ hm)
        · intro e he
          rcases List.mem_cons.mp he with rfl | he
          · exact (isUnitInterval_iff _).mp (by simpa using hunit)
          · exact hu e he
        · simp [ht, add_assoc]

def new (entries : List DistributionEntry) : CoreResult Distribution :=
  if hne : entries = [] then .error (.emptyField "distribution entries")
  else match h : checkEntries [] 0 entries with
    | .error e => .error e
    | .ok sum =>
      if hs : |sum - 1| > sumTolerance then .error (.distributionNotNormalized sum sumTolerance)
      else .ok {
        entries
        entries_ne := hne
        unique := (checkEntries_ok h).1
        unit := (checkEntries_ok h).2.2.1
        normalized := by
          have ht := (checkEntries_ok h).2.2.2
          rw [zero_add] at ht
          rw [← ht]
          exact not_lt.mp hs }

def fromPairs (pairs : List (String × ℚ)) : CoreResult Distribution :=
  new (pairs.map fun p => ⟨p.1, p.2⟩)

theorem new_entries {entries : List DistributionEntry} {d : Distribution}
    (h : new entries = .ok d) : d.entries = entries := by
  unfold new at h
  split at h
  · cases h
  · split at h
    · cases h
    · split at h
      · cases h
      · cases h
        rfl

theorem checkEntries_eq (seen : List String) {l : List DistributionEntry} (sum : ℚ)
    (hn : (l.map DistributionEntry.key).Nodup) (hs : ∀ e ∈ l, e.key ∉ seen)
    (hu : ∀ e ∈ l, 0 ≤ e.probability ∧ e.probability ≤ 1) :
    checkEntries seen sum l = .ok (sum + (l.map DistributionEntry.probability).sum) := by
  induction l generalizing seen sum with
  | nil => simp [checkEntries]
  | cons a l ih =>
    obtain ⟨ha, hn⟩ := List.nodup_cons.mp hn
    have hrest : ∀ e ∈ l, e.key ∉ a.key :: seen := by
      intro e he hm
      rcases List.mem_cons.mp hm with h | h
      · exact ha (List.mem_map.mpr ⟨e, he, h⟩)
      · exact hs e (List.mem_cons_of_mem _ he) h
    have hunit := (isUnitInterval_iff _).mpr (hu a List.mem_cons_self)
    rw [checkEntries, if_neg (hs a List.mem_cons_self), hunit,
      ih _ _ hn hrest fun e he => hu e (List.mem_cons_of_mem _ he)]
    simp [add_assoc]

theorem new_self (d : Distribution) : new d.entries = .ok d := by
  have hcheck := checkEntries_eq [] 0 d.unique (by simp) d.unit
  rw [zero_add] at hcheck
  unfold new
  split
  · exact absurd ‹_› d.entries_ne
  · split
    · rename_i e h
      rw [hcheck] at h
      cases h
    · rename_i sum h
      rw [hcheck] at h
      cases h
      rw [dif_neg (not_lt.mpr d.normalized)]

def probabilityOf (d : Distribution) (key : String) : Option ℚ :=
  (d.entries.find? fun e => e.key = key).map DistributionEntry.probability

theorem probabilityOf_of_mem {d : Distribution} {e : DistributionEntry}
    (he : e ∈ d.entries) : d.probabilityOf e.key = some e.probability := by
  unfold probabilityOf
  cases hfind : d.entries.find? fun e' => e'.key = e.key with
  | none => exact absurd (decide_eq_true rfl) (List.find?_eq_none.mp hfind e he)
  | some e' =>
    have hkey : e'.key = e.key := by simpa using List.find?_some hfind
    rw [List.inj_on_of_nodup_map d.unique (List.mem_of_find?_eq_some hfind) he hkey,
      Option.map_some]

/-- The highest-probability entry; among equals the last supplied. -/
def top (d : Distribution) : DistributionEntry :=
  (Extremum.lastMax DistributionEntry.probability d.entries).get
    (Extremum.lastMax_isSome d.entries_ne)

theorem top_mem (d : Distribution) : d.top ∈ d.entries :=
  Extremum.lastMax_mem (Option.some_get _).symm

theorem le_top (d : Distribution) (e : DistributionEntry) (he : e ∈ d.entries) :
    e.probability ≤ d.top.probability :=
  Extremum.le_lastMax (Option.some_get _).symm e he

/-- The two largest probabilities so far; `⊥` stands for negative infinity. -/
def marginStep (acc : WithBot ℚ × WithBot ℚ) (e : DistributionEntry) : WithBot ℚ × WithBot ℚ :=
  if acc.1 < (e.probability : WithBot ℚ) then (e.probability, acc.1)
  else if acc.2 < (e.probability : WithBot ℚ) then (acc.1, e.probability)
  else acc

/-- The gap between the top two probabilities, one when there is no second. -/
def margin (d : Distribution) : ℚ :=
  match d.entries.foldl marginStep (⊥, ⊥) with
  | (some first, some second) => first - second
  | _ => 1

def entropyStep [RustStd] (acc : ℚ) (e : DistributionEntry) : ℚ :=
  if 0 < e.probability then acc - e.probability * RustStd.log2 e.probability else acc

def entropy [RustStd] (d : Distribution) : ℚ := d.entries.foldl entropyStep 0

end Distribution

inductive DecisionAnswer where
  | choice (questionId : QuestionId) (choice : CandidateId) (distribution : Distribution)
      (confidence : ℚ)
  | boolean (questionId : QuestionId) (value : Bool) (probability : ℚ) (confidence : ℚ)
  | score (questionId : QuestionId) (expected : ℚ) (level : String)
      (distribution : Distribution) (confidence : ℚ)
  deriving DecidableEq

namespace DecisionAnswer

def questionId : DecisionAnswer → QuestionId
  | choice id _ _ _ => id
  | boolean id _ _ _ => id
  | score id _ _ _ _ => id

def confidence : DecisionAnswer → ℚ
  | choice _ _ _ c => c
  | boolean _ _ _ c => c
  | score _ _ _ _ c => c

def validate (a : DecisionAnswer) : CoreResult Unit :=
  if !isUnitInterval a.confidence then .error (.invalidProbability a.confidence)
  else match a with
    | boolean _ _ probability _ =>
      if !isUnitInterval probability then .error (.invalidProbability probability) else .ok ()
    | _ => .ok ()

end DecisionAnswer

end OpenCodifier
