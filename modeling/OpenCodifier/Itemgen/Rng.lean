import OpenCodifier.Lib.Weyl
import OpenCodifier.Lib.Sampling
set_option autoImplicit false

namespace OpenCodifier.Itemgen

structure Rng where
  state : BitVec 64
  deriving DecidableEq

namespace Rng

def golden : BitVec 64 := 0x9E3779B97F4A7C15

def mix (z : BitVec 64) : BitVec 64 :=
  let z := (z ^^^ (z >>> 30)) * 0xBF58476D1CE4E5B9
  let z := (z ^^^ (z >>> 27)) * 0x94D049BB133111EB
  z ^^^ (z >>> 31)

def nextU64 (rng : Rng) : BitVec 64 × Rng :=
  let state := rng.state + golden
  (mix state, ⟨state⟩)

def after (rng : Rng) (n : Nat) : Rng := (fun r : Rng => r.nextU64.2)^[n] rng

def draw (rng : Rng) (n : Nat) : BitVec 64 := (rng.after n).nextU64.1

theorem mix_injective : Function.Injective mix := by
  have hfirst := Weyl.mul_injective (show (0xBF58476D1CE4E5B9 : BitVec 64) * 0x96DE1B173F119089 = 1 by
    decide)
  have hsecond := Weyl.mul_injective
    (show (0x94D049BB133111EB : BitVec 64) * 0x319642B2D24D8EC3 = 1 by decide)
  exact (Weyl.xorShift_injective (by decide)).comp (hsecond.comp
    ((Weyl.xorShift_injective (by decide)).comp (hfirst.comp
      (Weyl.xorShift_injective (by decide)))))

theorem state_after (rng : Rng) (n : Nat) : (rng.after n).state = rng.state + n • golden := by
  induction n with
  | zero => rw [zero_nsmul, add_zero]; rfl
  | succ n ih => rw [after, Function.iterate_succ_apply', ← after, nextU64, ih, succ_nsmul, add_assoc]

theorem after_add (rng : Rng) (m n : Nat) : rng.after (m + n) = (rng.after m).after n := by
  rw [after, Nat.add_comm, Function.iterate_add_apply]
  rfl

theorem draw_eq (rng : Rng) (n : Nat) : rng.draw n = Weyl.stream golden mix rng.state n := by
  rw [draw, nextU64, state_after, Weyl.stream, succ_nsmul, add_assoc]

end Rng

inductive Fault where
  | underflow
  | overflow
  | belowZero
  | outOfRange
  deriving DecidableEq

abbrev Draw := StateT Rng (Except Fault)

namespace Draw

variable {α β : Type}

def nextU64 : Draw (BitVec 64) := fun rng => .ok rng.nextU64

def sub (a b : Nat) : Draw Nat := if b ≤ a then pure (a - b) else throw .underflow

def index (xs : List α) (i : Nat) : Draw α :=
  match xs[i]? with
  | some x => pure x
  | none => throw .outOfRange

def below (n : Nat) : Draw Nat := do
  let v ← nextU64
  if n = 0 then throw .belowZero else pure (v.toNat % n)

def pick (xs : List α) : Draw α := do
  let i ← below xs.length
  index xs i

def percent (percent : Nat) : Draw Bool := do
  let v ← nextU64
  pure (decide (v.toNat % 100 < percent))

def swap (xs : List α) (i j : Nat) : Draw (List α) := do
  let x ← index xs i
  let y ← index xs j
  pure ((xs.set i y).set j x)

def shuffleFrom : Nat → List α → Draw (List α)
  | 0, xs => pure xs
  | i + 1, xs => do
    let j ← below (i + 2)
    let xs ← swap xs (i + 1) j
    shuffleFrom i xs

def shuffle (xs : List α) : Draw (List α) := shuffleFrom (xs.length - 1) xs

end Draw

open Sampling

namespace Draw

variable {α β : Type}

theorem yields_sub {a b : Nat} (h : b ≤ a) : Yields (sub a b) (· = a - b) := by
  rw [sub, if_pos h]
  exact yields_pure rfl

theorem yields_nextU64 : Yields nextU64 fun _ => True :=
  fun rng => ⟨rng.nextU64.1, rng.nextU64.2, rfl, trivial⟩

theorem yields_index {xs : List α} {i : Nat} (h : i < xs.length) :
    Yields (index xs i) (· = xs[i]) := by
  rw [index, List.getElem?_eq_getElem h]
  exact yields_pure rfl

theorem yields_below {n : Nat} (h : 0 < n) : Yields (below n) (· < n) := by
  refine yields_nextU64.bind fun v _ => ?_
  rw [if_neg (by omega)]
  exact yields_pure (Nat.mod_lt _ h)

theorem yields_pick {xs : List α} (h : xs ≠ []) : Yields (pick xs) (· ∈ xs) := by
  refine (yields_below (List.length_pos_of_ne_nil h)).bind fun i hi => ?_
  exact (yields_index hi).imp fun x hx => hx ▸ List.getElem_mem hi

theorem yields_percent (n : Nat) : Yields (percent n) fun _ => True :=
  yields_nextU64.bind fun _ _ => yields_pure trivial

theorem yields_swap {xs : List α} {i j : Nat} (hi : i < xs.length) (hj : j < xs.length) :
    Yields (swap xs i j) (·.Perm xs) := by
  refine (yields_index hi).bind fun x hx => ?_
  refine (yields_index hj).bind fun y hy => ?_
  subst hx hy
  exact yields_pure (List.set_set_perm hi hj)

theorem yields_shuffleFrom (i : Nat) {xs : List α} (h : i = 0 ∨ i < xs.length) :
    Yields (shuffleFrom i xs) (·.Perm xs) := by
  induction i generalizing xs with
  | zero => exact yields_pure (List.Perm.refl xs)
  | succ i ih =>
    have hi : i + 1 < xs.length := by omega
    refine (yields_below (Nat.succ_pos _)).bind fun j hj => ?_
    refine (yields_swap hi (by omega)).bind fun ys hys => ?_
    have hlen := hys.length_eq
    exact (ih (by omega)).imp fun zs hzs => hzs.trans hys

/-- A shuffle gives a permutation, of every list and from every generator. -/
theorem yields_shuffle (xs : List α) : Yields (shuffle xs) (·.Perm xs) :=
  yields_shuffleFrom _ (by omega)

theorem index_map (f : α → β) (xs : List α) (i : Nat) :
    index (xs.map f) i = f <$> index xs i := by
  rw [index, index, List.getElem?_map]
  cases xs[i]? <;> rfl

theorem swap_map (f : α → β) (xs : List α) (i j : Nat) :
    swap (xs.map f) i j = List.map f <$> swap xs i j := by
  simp only [swap, index_map, bind_map_left, map_bind, map_pure, List.map_set]

theorem shuffleFrom_map (f : α → β) (i : Nat) (xs : List α) :
    shuffleFrom i (xs.map f) = List.map f <$> shuffleFrom i xs := by
  induction i generalizing xs with
  | zero => simp [shuffleFrom]
  | succ i ih => simp only [shuffleFrom, swap_map, bind_map_left, ih, map_bind]

theorem shuffle_map (f : α → β) (xs : List α) :
    shuffle (xs.map f) = List.map f <$> shuffle xs := by
  rw [shuffle, shuffle, List.length_map, shuffleFrom_map]

theorem map_run {m : Draw α} {f : α → β} {rng rng' : Rng} {a : α} (h : m rng = .ok (a, rng')) :
    (f <$> m) rng = .ok (f a, rng') := by
  change (m rng >>= fun p => pure (f p.1, p.2)) = _
  rw [h]
  rfl

section Runs

variable {rng rng' : Rng}

theorem sub_ok {a b c : Nat} :
    sub a b rng = .ok (c, rng') ↔ b ≤ a ∧ c = a - b ∧ rng' = rng := by
  rw [sub]
  split
  · rename_i hle
    rw [run_pure]
    simp [hle, eq_comm]
  · rename_i hle
    simp [throw, throwThe, MonadExceptOf.throw, StateT.lift, bind, Except.bind, hle]

theorem index_ok {xs : List α} {i : Nat} {x : α} :
    index xs i rng = .ok (x, rng') ↔ xs[i]? = some x ∧ rng' = rng := by
  rw [index]
  cases xs[i]? with
  | some y =>
    dsimp only
    rw [run_pure]
    simp [eq_comm]
  | none => simp [throw, throwThe, MonadExceptOf.throw, StateT.lift, bind, Except.bind]

theorem below_ok {n i : Nat} :
    below n rng = .ok (i, rng') ↔ 0 < n ∧ i = (rng.draw 0).toNat % n ∧ rng' = rng.after 1 := by
  have hrun : below n rng = (if n = 0 then throw .belowZero else
      pure ((rng.draw 0).toNat % n) : Draw Nat) (rng.after 1) := rfl
  rw [hrun]
  split
  · rename_i hn
    simp [throw, throwThe, MonadExceptOf.throw, StateT.lift, bind, Except.bind, hn]
  · rename_i hn
    rw [run_pure]
    simp [Nat.pos_of_ne_zero hn, eq_comm]

theorem swap_ok {xs ys : List α} {i j : Nat} (h : swap xs i j rng = .ok (ys, rng')) :
    rng' = rng ∧ ys.length = xs.length := by
  obtain ⟨x, rng₁, hx, h⟩ := run_bind_ok.mp h
  obtain ⟨y, rng₂, hy, h⟩ := run_bind_ok.mp h
  cases h
  refine ⟨(index_ok.mp hy).2.trans (index_ok.mp hx).2, ?_⟩
  rw [List.length_set, List.length_set]

theorem shuffleFrom_ok {i : Nat} {xs ys : List α} (h : shuffleFrom i xs rng = .ok (ys, rng')) :
    rng' = rng.after i := by
  induction i generalizing xs rng with
  | zero =>
    cases h
    rfl
  | succ i ih =>
    obtain ⟨j, rng₁, hj, h⟩ := run_bind_ok.mp h
    obtain ⟨zs, rng₂, hzs, h⟩ := run_bind_ok.mp h
    rw [ih h, (swap_ok hzs).1, (below_ok.mp hj).2.2, ← Rng.after_add, Nat.add_comm]

theorem shuffle_ok {xs ys : List α} (h : shuffle xs rng = .ok (ys, rng')) :
    rng' = rng.after (xs.length - 1) := shuffleFrom_ok h

end Runs

end Draw

def slotStride : BitVec 64 := 0x9E3779B97F4A7C15

def itemSeed (seed : BitVec 64) (index : Nat) : BitVec 64 :=
  seed + BitVec.ofNat 64 index * slotStride

def maxAttempts : Nat := 9

/-- What the seeds of the renderings of a minimal-pair twin add. -/
def twinOffset : Nat := 0x51D55EED

/-- An attempt at an item, or at the rendering of its twin. -/
structure Attempt where
  twin : Bool
  number : Nat
  bounded : number < maxAttempts

def Attempt.offset (attempt : Attempt) : Nat :=
  if attempt.twin then twinOffset + attempt.number else attempt.number

def slotRng (seed : BitVec 64) (index : Nat) (attempt : Attempt) : Rng :=
  ⟨itemSeed seed index + BitVec.ofNat 64 attempt.offset⟩

section Distance

def goldenInverse : BitVec 64 := 0xF1DE83E19937733D

/-- How many draws lead from the stream of an attempt at a slot to that of another one. -/
def slotDistance (i j : Nat) (a b : Attempt) : BitVec 64 :=
  BitVec.ofNat 64 (j - i) + (BitVec.ofNat 64 b.offset - BitVec.ofNat 64 a.offset) * goldenInverse

/-- At least `2 ^ 32` draws in both directions. -/
def Apart (distance : BitVec 64) : Prop := 2 ^ 32 ≤ distance.toNat ∧ 2 ^ 32 ≤ (-distance).toNat

theorem golden_mul_inverse : Rng.golden * goldenInverse = 1 := by decide

theorem slotStride_eq : slotStride = Rng.golden := rfl

theorem state_distance (seed : BitVec 64) {i j : Nat} (hij : i ≤ j) (a b : Attempt) :
    ((slotRng seed j b).state - (slotRng seed i a).state) * goldenInverse =
      slotDistance i j a b := by
  have hindex : BitVec.ofNat 64 j = BitVec.ofNat 64 i + BitVec.ofNat 64 (j - i) := by
    rw [← BitVec.ofNat_add, Nat.add_sub_of_le hij]
  have hcancel : BitVec.ofNat 64 (j - i) * Rng.golden * goldenInverse = BitVec.ofNat 64 (j - i) := by
    rw [mul_assoc, golden_mul_inverse, mul_one]
  have hsum : (slotRng seed j b).state - (slotRng seed i a).state =
      BitVec.ofNat 64 (j - i) * Rng.golden +
        (BitVec.ofNat 64 b.offset - BitVec.ofNat 64 a.offset) := by
    simp only [slotRng, itemSeed, hindex]
    rw [slotStride_eq]
    ring
  rw [hsum, add_mul, hcancel, slotDistance]

def attemptOffsets : List Nat :=
  List.range maxAttempts ++ (List.range maxAttempts).map (twinOffset + ·)

theorem offset_mem (attempt : Attempt) : attempt.offset ∈ attemptOffsets := by
  have hrange := List.mem_range.mpr attempt.bounded
  rw [Attempt.offset, attemptOffsets, List.mem_append]
  split
  · exact Or.inr (List.mem_map_of_mem hrange)
  · exact Or.inl hrange

theorem offsets_far : ∀ x ∈ attemptOffsets, ∀ y ∈ attemptOffsets, x ≠ y →
    2 ^ 57 ≤ ((BitVec.ofNat 64 y - BitVec.ofNat 64 x) * goldenInverse).toNat ∧
      ((BitVec.ofNat 64 y - BitVec.ofNat 64 x) * goldenInverse).toNat ≤ 2 ^ 64 - 2 ^ 57 := by
  decide +kernel

theorem apart_iff (d : BitVec 64) : Apart d ↔ 2 ^ 32 ≤ d.toNat ∧ d.toNat ≤ 2 ^ 64 - 2 ^ 32 := by
  have hlt := d.isLt
  rw [Apart, BitVec.toNat_neg]
  omega

/-- Among fewer than `2 ^ 56` slots, only two attempts of the same number can come close. -/
theorem apart_slotDistance_iff {i j : Nat} (hnear : j - i < 2 ^ 56) (a b : Attempt) :
    Apart (slotDistance i j a b) ↔ a.offset ≠ b.offset ∨ 2 ^ 32 ≤ j - i := by
  rw [apart_iff, slotDistance, BitVec.toNat_add, BitVec.toNat_ofNat]
  by_cases h : a.offset = b.offset
  · rw [h, sub_self, zero_mul]
    simp only [BitVec.ofNat_eq_ofNat, BitVec.toNat_ofNat]
    omega
  · obtain ⟨hlow, hhigh⟩ := offsets_far _ (offset_mem a) _ (offset_mem b) h
    constructor
    · exact fun _ => Or.inl h
    · intro _
      omega

end Distance

/-- The streams of two slots are disjoint exactly when they start at least `2 ^ 32` draws apart;
two attempts of the same number never do among the nearest `2 ^ 32` slots. -/
theorem slots_disjoint_iff (seed : BitVec 64) {i j : Nat} (hij : i < j) (a b : Attempt) :
    (Weyl.Disjoint (2 ^ 32) (slotRng seed i a).draw (slotRng seed j b).draw ↔
      Apart (slotDistance i j a b)) ∧
    (j - i < 2 ^ 56 →
      (Apart (slotDistance i j a b) ↔ a.offset ≠ b.offset ∨ 2 ^ 32 ≤ j - i)) := by
  refine ⟨?_, fun hnear => apart_slotDistance_iff hnear a b⟩
  have hdraw : ∀ rng : Rng, rng.draw = Weyl.stream Rng.golden Rng.mix rng.state :=
    fun rng => funext rng.draw_eq
  rw [hdraw, hdraw, Weyl.disjoint_words_iff Rng.mix_injective golden_mul_inverse (by decide),
    state_distance seed hij.le, Apart]

def firstAttempt : Attempt := ⟨false, 0, by decide⟩

def secondAttempt : Attempt := ⟨false, 1, by decide⟩

/-- Attempts of different numbers at neighbouring slots. -/
theorem slots_disjoint_iff_neighbours :
    Weyl.Disjoint (2 ^ 32) (slotRng 7 3 firstAttempt).draw (slotRng 7 4 secondAttempt).draw := by
  obtain ⟨hdisjoint, hnear⟩ :=
    slots_disjoint_iff 7 (show 3 < 4 by decide) firstAttempt secondAttempt
  exact hdisjoint.mpr ((hnear (by decide)).mpr (Or.inl (by decide)))

/-- The stream of slot 1 is that of slot 0 without its first draw. -/
theorem slots_overlap : ¬ Weyl.Disjoint (2 ^ 32) (slotRng 0 0 firstAttempt).draw
    (slotRng 0 1 firstAttempt).draw := by
  intro h
  refine (h 1 (by decide)).2 fun n => ?_
  rw [Rng.draw_eq, Rng.draw_eq, Weyl.stream, Weyl.stream]
  have hstate : (slotRng 0 1 firstAttempt).state =
      (slotRng 0 0 firstAttempt).state + Rng.golden := by decide
  rw [hstate, succ_nsmul Rng.golden (n + 1), add_assoc, add_comm Rng.golden]

end OpenCodifier.Itemgen
