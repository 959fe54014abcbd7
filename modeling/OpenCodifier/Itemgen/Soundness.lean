import OpenCodifier.Engine.Operators
import OpenCodifier.Itemgen.Rng
import OpenCodifier.Itemgen.Sample
set_option autoImplicit false

namespace OpenCodifier.Itemgen

open Sampling
open Neighbours (windows)
open RelationalSolver (Needs Root Starter Proves)

def About (pool : List String) : RelationalFact → Prop
  | .dependsOn x y => x ∈ pool ∧ y ∈ pool
  | .health x _ => x ∈ pool
  | .healthList x statuses => x ∈ pool ∧ statuses ≠ []
  | .restoresAfter x y => x ∈ pool ∧ y ∈ pool
  | .deadline _ _ => False
  | .event _ _ => False

theorem About.mono {pool larger : List String} {fact : RelationalFact} (h : About pool fact)
    (hsub : pool ⊆ larger) : About larger fact := by
  cases fact with
  | dependsOn x y => exact ⟨hsub h.1, hsub h.2⟩
  | health x status => exact hsub h
  | healthList x statuses => exact ⟨hsub h.1, h.2⟩
  | restoresAfter x y => exact ⟨hsub h.1, hsub h.2⟩
  | deadline x t => exact h.elim
  | event x t => exact h.elim

/-- A ballot of at least five different names of the pool, and facts about the pool that prove
the gold. -/
structure Sound (pool : List String) (sampled : Sampled) : Prop where
  about : ∀ fact ∈ sampled.facts, About pool fact
  slots : 5 ≤ sampled.ballot.length
  distinct : sampled.ballot.Nodup
  inPool : ∀ name ∈ sampled.ballot, name ∈ pool
  proves : Proves sampled.facts sampled.gold

theorem undated {pool : List String} {facts : List RelationalFact}
    (h : ∀ fact ∈ facts, About pool fact) :
    ∀ fact ∈ facts, RelationalSolver.deadlineOf fact = none ∧
      RelationalSolver.eventOf fact = none := by
  intro fact hfact
  have habout := h fact hfact
  cases fact with
  | deadline x t => exact habout.elim
  | event x t => exact habout.elim
  | dependsOn x y => exact ⟨rfl, rfl⟩
  | health x s => exact ⟨rfl, rfl⟩
  | healthList x s => exact ⟨rfl, rfl⟩
  | restoresAfter x y => exact ⟨rfl, rfl⟩

theorem Sound.proves_perm {pool : List String} {sampled : Sampled} (h : Sound pool sampled)
    {order : List RelationalFact} (hperm : order.Perm sampled.facts) :
    Proves order sampled.gold := by
  rw [Proves, RelationalSolver.winners_perm hperm (undated h.about)]
  exact h.proves

theorem exists_three {α : Type} {l : List α} (h : 3 ≤ l.length) :
    ∃ a b c rest, l = a :: b :: c :: rest := by
  match l, h with
  | a :: b :: c :: rest, _ => exact ⟨a, b, c, rest, rfl⟩

namespace Draw

variable {α : Type}

theorem yields_splitAt {xs : List α} {i : Nat} (h : i ≤ xs.length) :
    Yields (splitAt xs i) (· = (xs.take i, xs.drop i)) := by
  rw [splitAt, if_pos h, List.splitAt_eq]
  exact yields_pure rfl

theorem yields_slice {xs : List α} {first last : Nat} (h : first ≤ last) (hl : last ≤ xs.length) :
    Yields (slice xs first last) (· = (xs.drop first).take (last - first)) := by
  rw [slice, if_pos (by simp [h, hl])]
  exact yields_pure rfl

theorem yields_keepSome (percentage : Nat) (xs : List α) :
    Yields (keepSome percentage xs) (·.Sublist xs) := by
  induction xs with
  | nil => exact yields_pure (.refl [])
  | cons x rest ih =>
    refine (yields_percent percentage).bind fun keep _ => ?_
    refine ih.bind fun kept hkept => yields_pure ?_
    cases keep with
    | true => exact hkept.cons_cons x
    | false => exact hkept.cons x

end Draw

theorem yields_takeNames {domain : Domain} (hn : domain.names.Nodup) {count : Nat}
    (h : count ≤ domain.names.length) :
    Yields (takeNames domain count) fun names =>
      names.length = count ∧ names.Nodup ∧ ∀ name ∈ names, name ∈ domain.names := by
  refine (Draw.yields_shuffle domain.names).bind fun pool hpool => yields_pure ⟨?_, ?_, ?_⟩
  · rw [List.length_take, hpool.length_eq]
    omega
  · exact (List.take_sublist _ _).nodup (hpool.nodup_iff.mpr hn)
  · exact fun name hname => hpool.mem_iff.mp (List.mem_of_mem_take hname)

section TopUp

variable (allowed : String → Bool)

theorem topUp_full (names : List String) (distractors : List Distractor) {ballotSize : Nat}
    (h : 5 ≤ ballotSize) : topUp allowed names distractors ballotSize = distractors := by
  cases names with
  | nil => rfl
  | cons name names => rw [topUp, if_pos h]

/-- What is topped up: different allowed names that were not there, until the ballot has five
slots or no such name is left. -/
theorem topUp_spec (names : List String) (distractors : List Distractor) (ballotSize : Nat) :
    ∃ added : List String,
      topUp allowed names distractors ballotSize =
        distractors ++ added.map (fun name => ⟨name, .unrelated⟩) ∧
      added.Nodup ∧
      (∀ name ∈ added, name ∈ names ∧ allowed name = true ∧
        name ∉ distractors.map Distractor.name) ∧
      (5 ≤ ballotSize + added.length ∨
        ∀ name ∈ names, allowed name = true → name ∈ distractors.map Distractor.name ++ added) := by
  induction names generalizing distractors ballotSize with
  | nil => exact ⟨[], by simp [topUp]⟩
  | cons name names ih =>
    rw [topUp]
    by_cases hfull : 5 ≤ ballotSize
    · exact ⟨[], by simp [hfull]⟩
    rw [if_neg hfull]
    have hon : (distractors.any fun d => d.name = name) = true ↔
        name ∈ distractors.map Distractor.name := by simp
    by_cases hadd : (allowed name && !distractors.any fun d => d.name = name) = true
    · rw [if_pos hadd]
      rw [Bool.and_eq_true, Bool.not_eq_true', ← Bool.not_eq_true, hon] at hadd
      obtain ⟨added, heq, hnodup, hnew, hend⟩ := ih (distractors ++ [⟨name, .unrelated⟩])
        (ballotSize + 1)
      refine ⟨name :: added, by simp [heq], ?_, ?_, ?_⟩
      · refine List.nodup_cons.mpr ⟨fun hm => ?_, hnodup⟩
        exact (hnew name hm).2.2 (by simp)
      · rw [List.forall_mem_cons]
        refine ⟨⟨List.mem_cons_self, hadd⟩, fun other hother => ?_⟩
        obtain ⟨hm, hallowed, hout⟩ := hnew other hother
        refine ⟨List.mem_cons_of_mem _ hm, hallowed, fun h => hout ?_⟩
        rw [List.map_append]
        exact List.mem_append_left _ h
      · rcases hend with hend | hend
        · left
          rw [List.length_cons]
          omega
        · right
          rw [List.forall_mem_cons]
          refine ⟨fun _ => by simp, fun other hother hallowed => ?_⟩
          simpa using hend other hother hallowed
    · rw [if_neg hadd]
      obtain ⟨added, heq, hnodup, hnew, hend⟩ := ih distractors ballotSize
      refine ⟨added, heq, hnodup, fun other hother => ?_, ?_⟩
      · obtain ⟨hm, hrest⟩ := hnew other hother
        exact ⟨List.mem_cons_of_mem _ hm, hrest⟩
      · refine hend.imp_right fun hend => ?_
        rw [List.forall_mem_cons]
        refine ⟨fun hallowed => ?_, hend⟩
        rw [hallowed, Bool.true_and, Bool.not_eq_true', Bool.not_eq_false, hon] at hadd
        exact List.mem_append_left _ hadd

end TopUp

end OpenCodifier.Itemgen
