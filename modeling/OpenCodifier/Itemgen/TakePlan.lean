import Mathlib.Data.String.Basic
import OpenCodifier.Lib.Nearest
import OpenCodifier.Lib.Prorata
import OpenCodifier.Lib.Traverse
import OpenCodifier.Lib.Overflow
import OpenCodifier.Itemgen.Rng
set_option autoImplicit false

namespace OpenCodifier.Itemgen

def oversampleCap : Nat := 4

def neverOversample : List String := ["score"]

/-- What a word of 64 bits does not hold. -/
def wordSize : Nat := 2 ^ 64

def word (build : Overflow) (n : Nat) : Except Fault Nat := build.word wordSize .overflow n

/-- A float rounded half away from zero, then cast to a word. -/
def roundAsUsize (x : ℚ) : Nat :=
  min (if 0 ≤ x then ⌊x + 1 / 2⌋ else ⌈x - 1 / 2⌉).toNat (wordSize - 1)

def subtract (a b : Nat) : Except Fault Nat := if b ≤ a then .ok (a - b) else .error .underflow

namespace TakePlan

section Plan

variable (build : Overflow) (baseCounts : OrdMap String Nat)

def familyAvailable (family : String) : Except Fault Nat :=
  let count := (baseCounts.get? family).getD 0
  if neverOversample.contains family then .ok count else word build (count * oversampleCap)

def rounded (shares : OrdMap String ℚ) (budget : Nat) : OrdMap String Nat :=
  shares.mapValues fun _ share => roundAsUsize (F64.nearest (share * F64.nearest budget))

def clampFamily (excess : Nat) (family : String) (count : Nat) : Except Fault (Nat × Nat) := do
  let available ← familyAvailable build baseCounts family
  if available < count then do
    let beyond ← subtract count available
    let excess ← word build (excess + beyond)
    pure (excess, available)
  else pure (excess, count)

def addRoom (free : Nat) (entry : String × Nat) : Except Fault Nat := do
  let available ← familyAvailable build baseCounts entry.1
  let room ← subtract available entry.2
  word build (free + room)

/-- Gives a family its part of the excess, which takes it no further than its available rows. -/
def grantFamily (give free : Nat) (_ : Unit) (family : String) (count : Nat) :
    Except Fault (Unit × Nat) := do
  let available ← familyAvailable build baseCounts family
  let room ← subtract available count
  let product ← word build (give * room)
  pure ((), count + min room (product / max free 1))

def settleTurn (take : OrdMap String Nat) : Except Fault (Bool × OrdMap String Nat) := do
  let clamped ← take.forMut (clampFamily build baseCounts) 0
  if clamped.1 = 0 then pure (true, clamped.2)
  else do
    let free ← clamped.2.entries.foldlM (addRoom build baseCounts) 0
    if free = 0 then pure (true, clamped.2)
    else do
      let granted ← clamped.2.forMut (grantFamily build baseCounts (min clamped.1 free) free) ()
      pure (false, granted.2)

def settle : Nat → OrdMap String Nat → Except Fault (Option (OrdMap String Nat))
  | 0, _ => pure none
  | turns + 1, take => do
    let turn ← settleTurn build baseCounts take
    if turn.1 then pure (some turn.2) else settle turns turn.2

def takePlan (turns : Nat) (shares : OrdMap String ℚ) (budget : Nat) :
    Except Fault (Option (OrdMap String Nat)) :=
  settle build baseCounts turns (rounded shares budget)

end Plan

section Turns

variable (available : String → Nat)

def total (take : OrdMap String Nat) : Nat := take.values.sum

def excess (take : OrdMap String Nat) : Nat :=
  (take.entries.map fun e => e.2 - available e.1).sum

def free (take : OrdMap String Nat) : Nat :=
  (take.entries.map fun e => available e.1 - e.2).sum

def totalAvailable (take : OrdMap String Nat) : Nat := (take.keys.map available).sum

def Within (take : OrdMap String Nat) : Prop := ∀ e ∈ take.entries, e.2 ≤ available e.1

def clamp (take : OrdMap String Nat) : OrdMap String Nat :=
  take.mapValues fun family count => min count (available family)

def grant (give free : Nat) (take : OrdMap String Nat) : OrdMap String Nat :=
  take.mapValues fun family count =>
    count + min (available family - count) (give * (available family - count) % wordSize / free)

def settled (take : OrdMap String Nat) : OrdMap String Nat :=
  if excess available take % wordSize = 0 ∨ free available take % wordSize = 0 then
    clamp available take
  else grant available (min (excess available take % wordSize) (free available take % wordSize))
    (free available take % wordSize) (clamp available take)

theorem keys_mapValues {α β : Type} (m : OrdMap String α) (f : String → α → β) :
    (m.mapValues f).keys = m.keys := by
  simp [OrdMap.keys, OrdMap.mapValues]

theorem keys_settled (take : OrdMap String Nat) : (settled available take).keys = take.keys := by
  rw [settled]
  split
  · exact keys_mapValues _ _
  · exact (keys_mapValues _ _).trans (keys_mapValues _ _)

theorem within_clamp (take : OrdMap String Nat) : Within available (clamp available take) := by
  intro e he
  obtain ⟨e', -, rfl⟩ := List.mem_map.mp he
  exact Nat.min_le_right _ _

theorem within_grant {take : OrdMap String Nat} (h : Within available take) (give room : Nat) :
    Within available (grant available give room take) := by
  intro e he
  obtain ⟨e', he', rfl⟩ := List.mem_map.mp he
  have hwithin := h e' he'
  dsimp only
  omega

theorem within_settled (take : OrdMap String Nat) : Within available (settled available take) := by
  rw [settled]
  split
  · exact within_clamp available take
  · exact within_grant available (within_clamp available take) _ _

theorem total_clamp (take : OrdMap String Nat) :
    total (clamp available take) + excess available take = total take := by
  simp only [total, clamp, excess, OrdMap.values, OrdMap.mapValues, List.map_map,
    Function.comp_def, ← List.sum_map_add]
  congr 1
  apply List.map_congr_left
  intro e _
  omega

theorem total_clamp_add_free (take : OrdMap String Nat) :
    total (clamp available take) + free available take = totalAvailable available take := by
  simp only [total, clamp, free, totalAvailable, OrdMap.keys, OrdMap.values, OrdMap.mapValues,
    List.map_map, Function.comp_def, ← List.sum_map_add]
  congr 1
  apply List.map_congr_left
  intro e _
  omega

theorem free_clamp (take : OrdMap String Nat) :
    free available (clamp available take) = free available take := by
  simp only [clamp, free, OrdMap.mapValues, List.map_map, Function.comp_def]
  congr 1
  apply List.map_congr_left
  intro e _
  omega

theorem excess_eq_zero_iff {take : OrdMap String Nat} :
    excess available take = 0 ↔ Within available take := by
  rw [excess, List.sum_eq_zero_iff_forall_eq_nat]
  simp only [List.forall_mem_map, Nat.sub_eq_zero_iff_le]
  rfl

theorem clamp_eq_self {take : OrdMap String Nat} (h : Within available take) :
    clamp available take = take := by
  refine OrdMap.ext_get? fun family => ?_
  rw [clamp, OrdMap.get?_mapValues]
  cases hget : take.get? family with
  | none => rfl
  | some count =>
    have hle := h _ ((OrdMap.mem_entries_iff take family count).mpr hget)
    rw [Option.map_some, Nat.min_eq_left hle]

end Turns

section Run

variable {build : Overflow} {baseCounts : OrdMap String Nat} {available : String → Nat}
  {P : String → Prop} {take : OrdMap String Nat}

def Reads (build : Overflow) (baseCounts : OrdMap String Nat) (available : String → Nat)
    (P : String → Prop) (family : String) : Prop :=
  ∀ a, familyAvailable build baseCounts family = .ok a ↔ P family ∧ a = available family

theorem clampFamily_ok {family : String} (h : Reads build baseCounts available P family)
    (excess count : Nat) (turn : Nat × Nat) :
    clampFamily build baseCounts excess family count = .ok turn ↔ P family ∧
      (if available family < count then
        word build (excess + (count - available family)) = .ok turn.1 else turn.1 = excess) ∧
      turn.2 = min count (available family) := by
  rw [clampFamily, Result.bind_ok]
  simp only [h _, and_assoc, exists_and_left, exists_eq_left]
  refine and_congr_right fun _ => ?_
  by_cases hlt : available family < count
  · rw [if_pos hlt, if_pos hlt, subtract, if_pos hlt.le, Nat.min_eq_right hlt.le]
    change (word build (excess + (count - available family)) >>= _) = _ ↔ _
    rw [Result.bind_ok]
    constructor
    · rintro ⟨excess', hword, hturn⟩
      cases hturn
      exact ⟨hword, rfl⟩
    · rintro ⟨hword, hturn⟩
      exact ⟨_, hword, congrArg Except.ok (Prod.ext rfl hturn.symm)⟩
  · rw [if_neg hlt, if_neg hlt, Nat.min_eq_left (not_lt.mp hlt)]
    exact Result.pure_ok.trans Prod.ext_iff

/-- An excess that fits stays as it is where nothing is cut off. -/
theorem word_add_cut {excess : Nat} (hfits : excess < wordSize) (count available m : Nat) :
    (if available < count then word build (excess + (count - available)) = .ok m
      else m = excess) ↔ word build (excess + (count - available)) = .ok m := by
  split
  · rfl
  · rename_i hlt
    rw [Nat.sub_eq_zero_of_le (not_lt.mp hlt), Nat.add_zero]
    constructor
    · rintro rfl
      exact Overflow.word_ok.mpr ⟨fun _ => hfits, (Nat.mod_eq_of_lt hfits).symm⟩
    · intro hword
      rw [(Overflow.word_ok.mp hword).2, Nat.mod_eq_of_lt hfits]

theorem mem_keys {e : String × Nat} (he : e ∈ take.entries) : e.1 ∈ take.keys :=
  List.mem_map_of_mem he

theorem clampLoop_ok (h : ∀ family ∈ take.keys, Reads build baseCounts available P family)
    (clamped : Nat × OrdMap String Nat) :
    take.forMut (clampFamily build baseCounts) 0 = .ok clamped ↔ (∀ family ∈ take.keys, P family) ∧
      (build = .checked → excess available take < wordSize) ∧
        clamped = (excess available take % wordSize, clamp available take) := by
  rw [OrdMap.forMut_ok_iff (f := fun family count => min count (available family))
    fun e he s turn hturn => ((clampFamily_ok (h e.1 (mem_keys he)) s e.2 turn).mp hturn).2.2]
  have hstep : ∀ e ∈ take.entries, ∀ n < wordSize, ∀ m,
      (clampFamily build baseCounts n e.1 e.2).map Prod.fst = .ok m ↔
        P e.1 ∧ build.word wordSize Fault.overflow (n + (e.2 - available e.1)) = .ok m := by
    intro e he n hn m
    change Prod.fst <$> clampFamily build baseCounts n e.1 e.2 = _ ↔ _
    rw [Result.map_ok]
    simp only [clampFamily_ok (h e.1 (mem_keys he)), and_assoc]
    constructor
    · rintro ⟨turn, hP, hexcess, -, rfl⟩
      exact ⟨hP, (word_add_cut hn e.2 (available e.1) _).mp hexcess⟩
    · rintro ⟨hP, hword⟩
      exact ⟨(m, _), hP, (word_add_cut hn e.2 (available e.1) m).mpr hword, rfl, rfl⟩
  rw [Overflow.foldlM_add_ok hstep (by decide), Nat.zero_add, OrdMap.keys, List.forall_mem_map,
    Prod.ext_iff, and_assoc, and_assoc]
  rfl

theorem roomLoop_ok (h : ∀ family ∈ take.keys, Reads build baseCounts available P family)
    (hP : ∀ family ∈ take.keys, P family) (hwithin : Within available take) (room : Nat) :
    take.entries.foldlM (addRoom build baseCounts) 0 = .ok room ↔
      (build = .checked → free available take < wordSize) ∧
        room = free available take % wordSize := by
  have hstep : ∀ e ∈ take.entries, ∀ n < wordSize, ∀ m, addRoom build baseCounts n e = .ok m ↔
      True ∧ build.word wordSize Fault.overflow (n + (available e.1 - e.2)) = .ok m := by
    intro e he n _ m
    have hread := (h e.1 (mem_keys he) _).mpr ⟨hP e.1 (mem_keys he), rfl⟩
    rw [true_and, addRoom, hread]
    change (subtract (available e.1) e.2 >>= _) = _ ↔ _
    rw [subtract, if_pos (hwithin e he)]
    rfl
  rw [Overflow.foldlM_add_ok hstep (by decide), Nat.zero_add]
  simp only [implies_true, true_and]
  rfl

theorem foldlM_unit_ok {α : Type} (f : α → Except Fault Unit) (l : List α) (u : Unit) :
    l.foldlM (fun _ a => f a) () = .ok u ↔ ∀ a ∈ l, f a = .ok () := by
  induction l with
  | nil => simp [pure, Except.pure]
  | cons a l ih =>
    rw [List.foldlM_cons, List.forall_mem_cons, ← ih, Result.bind_ok]
    exact ⟨fun ⟨_, hf, hl⟩ => ⟨hf, hl⟩, fun ⟨hf, hl⟩ => ⟨(), hf, hl⟩⟩

theorem grantLoop_ok (h : ∀ family ∈ take.keys, Reads build baseCounts available P family)
    (hP : ∀ family ∈ take.keys, P family) (hwithin : Within available take) {give room : Nat}
    (hpos : 0 < room) (granted : Unit × OrdMap String Nat) :
    take.forMut (grantFamily build baseCounts give room) () = .ok granted ↔
      (build = .checked → ∀ e ∈ take.entries, give * (available e.1 - e.2) < wordSize) ∧
        granted.2 = grant available give room take := by
  have hbody : ∀ e ∈ take.entries, ∀ turn,
      grantFamily build baseCounts give room () e.1 e.2 = .ok turn ↔
        (build = .checked → give * (available e.1 - e.2) < wordSize) ∧
          turn.2 = e.2 + min (available e.1 - e.2)
            (give * (available e.1 - e.2) % wordSize / room) := by
    intro e he turn
    have hread := (h e.1 (mem_keys he) _).mpr ⟨hP e.1 (mem_keys he), rfl⟩
    rw [grantFamily, hread]
    change (subtract (available e.1) e.2 >>= _) = _ ↔ _
    rw [subtract, if_pos (hwithin e he)]
    change (word build (give * (available e.1 - e.2)) >>= _) = _ ↔ _
    rw [Result.bind_ok, Nat.max_eq_left hpos]
    constructor
    · rintro ⟨product, hword, hturn⟩
      obtain ⟨hfits, rfl⟩ := Overflow.word_ok.mp hword
      cases hturn
      exact ⟨hfits, rfl⟩
    · rintro ⟨hfits, hturn⟩
      exact ⟨_, Overflow.word_ok.mpr ⟨hfits, rfl⟩, congrArg Except.ok (Prod.ext rfl hturn.symm)⟩
  rw [OrdMap.forMut_ok_iff (f := fun family count => count + min (available family - count)
    (give * (available family - count) % wordSize / room))
    fun e he _ turn hturn => ((hbody e he turn).mp hturn).2]
  refine and_congr_left fun _ => (foldlM_unit_ok (fun e : String × Nat =>
    (grantFamily build baseCounts give room () e.1 e.2).map Prod.fst) _ _).trans ?_
  constructor
  · intro hall hbuild e he
    obtain ⟨turn, hturn, -⟩ := Result.map_ok.mp (hall e he)
    exact ((hbody e he turn).mp hturn).1 hbuild
  · intro hall e he
    exact Result.map_ok.mpr ⟨((), _), (hbody e he _).mpr ⟨fun hbuild => hall hbuild e he, rfl⟩, rfl⟩

/-- No sum and no product of the loop needs more than a word. -/
def SumsFit (available : String → Nat) (take : OrdMap String Nat) : Prop :=
  excess available take < wordSize ∧ (0 < excess available take → free available take < wordSize ∧
    ∀ e ∈ take.entries,
      min (excess available take) (free available take) * (available e.1 - e.2) < wordSize)

theorem products_clamp (give : Nat) :
    (∀ e ∈ (clamp available take).entries, give * (available e.1 - e.2) < wordSize) ↔
      ∀ e ∈ take.entries, give * (available e.1 - e.2) < wordSize := by
  rw [clamp, OrdMap.mapValues, List.forall_mem_map]
  refine forall₂_congr fun e _ => ?_
  rw [show available e.1 - min e.2 (available e.1) = available e.1 - e.2 by omega]

theorem SumsFit.of_excess (hexcess : excess available take < wordSize)
    (hzero : excess available take % wordSize = 0) : SumsFit available take := by
  rw [Nat.mod_eq_of_lt hexcess] at hzero
  exact ⟨hexcess, fun hpos => absurd hpos (by omega)⟩

theorem SumsFit.of_free (hexcess : excess available take < wordSize)
    (hfree : free available take < wordSize) (hzero : free available take % wordSize = 0) :
    SumsFit available take := by
  rw [Nat.mod_eq_of_lt hfree] at hzero
  refine ⟨hexcess, fun _ => ⟨hfree, fun e _ => ?_⟩⟩
  rw [hzero, Nat.min_zero, Nat.zero_mul]
  decide

theorem sumsFit_iff (hpos : 0 < excess available take) : SumsFit available take ↔
    excess available take < wordSize ∧ free available take < wordSize ∧ ∀ e ∈ take.entries,
      min (excess available take % wordSize) (free available take % wordSize) *
        (available e.1 - e.2) < wordSize := by
  refine and_congr_right fun hexcess => ⟨fun h => ?_, fun h _ => ?_⟩
  · obtain ⟨hfree, hproducts⟩ := h hpos
    exact ⟨hfree, by rwa [Nat.mod_eq_of_lt hexcess, Nat.mod_eq_of_lt hfree]⟩
  · obtain ⟨hfree, hproducts⟩ := h
    exact ⟨hfree, by rwa [Nat.mod_eq_of_lt hexcess, Nat.mod_eq_of_lt hfree] at hproducts⟩

theorem settleTurn_ok (h : ∀ family ∈ take.keys, Reads build baseCounts available P family)
    (turn : Bool × OrdMap String Nat) : settleTurn build baseCounts take = .ok turn ↔
      (∀ family ∈ take.keys, P family) ∧ (build = .checked → SumsFit available take) ∧
        turn = (decide (excess available take % wordSize = 0 ∨ free available take % wordSize = 0),
          settled available take) := by
  have hkeys : (clamp available take).keys = take.keys := keys_mapValues _ _
  have hwithin := within_clamp available take
  simp only [settleTurn, Result.bind_ok, clampLoop_ok h, and_assoc, exists_and_left, exists_eq_left]
  refine and_congr_right fun hP => ?_
  have hread : ∀ family ∈ (clamp available take).keys, Reads build baseCounts available P family :=
    hkeys ▸ h
  have hall : ∀ family ∈ (clamp available take).keys, P family := hkeys ▸ hP
  by_cases hover : excess available take % wordSize = 0
  · rw [if_pos hover, settled, if_pos (Or.inl hover), decide_eq_true (Or.inl hover),
      Result.pure_ok]
    exact and_congr_left fun _ => forall_congr' fun _ =>
      ⟨fun hexcess => .of_excess hexcess hover, And.left⟩
  have hpos : 0 < excess available take :=
    Nat.pos_of_ne_zero fun hzero => hover (by rw [hzero, Nat.zero_mod])
  simp only [if_neg hover, Result.bind_ok, roomLoop_ok hread hall hwithin, and_assoc,
    exists_and_left, exists_eq_left, free_clamp]
  by_cases hroom : free available take % wordSize = 0
  · rw [if_pos hroom, settled, if_pos (Or.inr hroom), decide_eq_true (Or.inr hroom),
      Result.pure_ok, ← and_assoc, ← imp_and]
    exact and_congr_left fun _ => forall_congr' fun _ =>
      ⟨fun hfits => .of_free hfits.1 hfits.2 hroom, fun hfits => ⟨hfits.1, (hfits.2 hpos).1⟩⟩
  · have hneither := not_or.mpr ⟨hover, hroom⟩
    rw [if_neg hroom, settled, if_neg hneither, decide_eq_false hneither]
    simp only [Result.bind_ok, Result.pure_ok, products_clamp, sumsFit_iff hpos, imp_and,
      grantLoop_ok hread hall hwithin (Nat.pos_of_ne_zero hroom)]
    constructor
    · rintro ⟨hexcess, hfree, granted, ⟨hproducts, hgranted⟩, rfl⟩
      exact ⟨⟨hexcess, hfree, hproducts⟩, by rw [hgranted]⟩
    · rintro ⟨⟨hexcess, hfree, hproducts⟩, rfl⟩
      exact ⟨hexcess, hfree, ((), _), ⟨hproducts, rfl⟩, rfl⟩

/-- Two turns are always enough. -/
theorem settle_ok (h : ∀ family ∈ take.keys, Reads build baseCounts available P family)
    (turns : Nat) (plan : Option (OrdMap String Nat)) :
    settle build baseCounts (turns + 2) take = .ok plan ↔ (∀ family ∈ take.keys, P family) ∧
      (build = .checked → SumsFit available take) ∧ plan = some (settled available take) := by
  have hagain : ∀ family ∈ (settled available take).keys,
      Reads build baseCounts available P family := keys_settled available take ▸ h
  have hwithin := within_settled available take
  have hnone := (excess_eq_zero_iff available).mpr hwithin
  rw [settle, Result.bind_ok]
  simp only [settleTurn_ok h, and_assoc, exists_and_left, exists_eq_left]
  refine and_congr_right fun hP => and_congr_right fun hfits => ?_
  split
  · exact Result.pure_ok
  · rw [settle, Result.bind_ok]
    simp only [settleTurn_ok hagain, and_assoc, exists_and_left, exists_eq_left]
    have hsame : settled available (settled available take) = settled available take := by
      rw [settled, hnone, Nat.zero_mod, if_pos (Or.inl rfl), clamp_eq_self available hwithin]
    rw [hsame, hnone, Nat.zero_mod, decide_eq_true (Or.inl rfl), if_pos rfl]
    constructor
    · rintro ⟨-, -, hplan⟩
      cases hplan
      rfl
    · rintro rfl
      exact ⟨keys_settled available take ▸ hP,
        fun _ => ⟨hnone ▸ by decide, fun hpos => absurd hpos (by omega)⟩, rfl⟩

end Run

section Law

variable (available : String → Nat)

/-- The excess goes to the room that is left without a remainder. -/
def GoesOut (take : OrdMap String Nat) : Prop :=
  free available take ≤ excess available take ∨ ∀ e ∈ take.entries,
    free available take ∣ excess available take * (available e.1 - e.2)

/-- The grants hand out the whole excess, as far as there is room, when it goes out. -/
theorem sum_grants_iff {take : OrdMap String Nat} (hfree : 0 < free available take) :
    ((clamp available take).entries.map fun e =>
      min (excess available take) (free available take) * (available e.1 - e.2) /
        free available take).sum =
      min (excess available take) (free available take) ↔ GoesOut available take := by
  have hclamped : ∀ e : String × Nat, available e.1 - min e.2 (available e.1) =
      available e.1 - e.2 := by
    intro e
    omega
  rw [Prorata.sum_div_eq_iff (free_clamp available take) hfree, clamp, OrdMap.mapValues,
    List.forall_mem_map]
  simp only [hclamped]
  rcases Nat.le_total (free available take) (excess available take) with hle | hle
  · rw [Nat.min_eq_right hle]
    exact ⟨fun _ => Or.inl hle, fun _ e _ => Nat.dvd_mul_right _ _⟩
  · rw [Nat.min_eq_left hle]
    constructor
    · exact Or.inr
    · rintro (hge | hall) e he
      · rw [Nat.le_antisymm hge hle]
        exact Nat.dvd_mul_right _ _
      · exact hall e he

theorem total_grant {take : OrdMap String Nat} {give room : Nat} (hle : give ≤ room)
    (hfits : ∀ e ∈ take.entries, give * (available e.1 - e.2) < wordSize) :
    total (grant available give room take) = total take + (take.entries.map fun e =>
      give * (available e.1 - e.2) / room).sum := by
  simp only [total, grant, OrdMap.values, OrdMap.mapValues, List.map_map, Function.comp_def,
    ← List.sum_map_add]
  refine congrArg List.sum (List.map_congr_left fun e he => ?_)
  have hpart : give * (available e.1 - e.2) / room ≤ available e.1 - e.2 :=
    Nat.div_le_of_le_mul (Nat.mul_le_mul_right _ hle)
  rw [Nat.mod_eq_of_lt (hfits e he), Nat.min_eq_right hpart]

theorem total_settled_iff {take : OrdMap String Nat} (hfits : SumsFit available take) :
    total (settled available take) = min (total take) (totalAvailable available take) ↔
      GoesOut available take := by
  have hover := total_clamp available take
  have hunder := total_clamp_add_free available take
  obtain ⟨hexcess, hrest⟩ := hfits
  rw [settled, Nat.mod_eq_of_lt hexcess]
  rcases Nat.eq_zero_or_pos (excess available take) with hzero | hpos
  · rw [if_pos (Or.inl hzero)]
    exact iff_of_true (by omega) (Or.inr fun e _ => by simp [hzero])
  obtain ⟨hfree, hproducts⟩ := hrest hpos
  rw [Nat.mod_eq_of_lt hfree]
  rcases Nat.eq_zero_or_pos (free available take) with hzero | hroom
  · rw [if_pos (Or.inr hzero)]
    exact iff_of_true (by omega) (Or.inl (by omega))
  · rw [if_neg (by omega), total_grant available (Nat.min_le_right _ _)
      ((products_clamp _).mpr hproducts), ← sum_grants_iff available hroom]
    omega

variable (baseCounts : OrdMap String Nat)

def supply (family : String) : Nat :=
  let count := (baseCounts.get? family).getD 0
  if neverOversample.contains family then count else count * oversampleCap

/-- The rows of a family as a build without checks counts them. -/
def supplyWord (family : String) : Nat :=
  let count := (baseCounts.get? family).getD 0
  if neverOversample.contains family then count else count * oversampleCap % wordSize

def FamilyFits (family : String) : Prop :=
  neverOversample.contains family = true ∨
    ((baseCounts.get? family).getD 0) * oversampleCap < wordSize

/-- No operation of the run needs more than a word. -/
def RunFits (take : OrdMap String Nat) : Prop :=
  (∀ family ∈ take.keys, FamilyFits baseCounts family) ∧ SumsFit (supply baseCounts) take

instance (family : String) : Decidable (FamilyFits baseCounts family) :=
  inferInstanceAs (Decidable (_ ∨ _))

instance (take : OrdMap String Nat) : Decidable (SumsFit available take) :=
  inferInstanceAs (Decidable (_ ∧ (_ → _ ∧ _)))

instance (take : OrdMap String Nat) : Decidable (RunFits baseCounts take) :=
  inferInstanceAs (Decidable (_ ∧ _))

theorem supplyWord_le (family : String) : supplyWord baseCounts family ≤ supply baseCounts family := by
  unfold supplyWord supply
  split
  · exact le_rfl
  · exact Nat.mod_le _ _

theorem reads_checked (family : String) :
    Reads .checked baseCounts (supply baseCounts) (FamilyFits baseCounts) family := by
  intro a
  unfold familyAvailable supply FamilyFits
  split
  · rename_i hnever
    simp only [hnever, true_or, true_and, Except.ok.injEq]
    exact eq_comm
  · rename_i hnever
    simp only [hnever, false_or, Bool.false_eq_true]
    exact Overflow.word_ok.trans
      ⟨fun h => ⟨h.1 rfl, by rw [h.2, Nat.mod_eq_of_lt (h.1 rfl)]⟩,
        fun h => ⟨fun _ => h.1, by rw [h.2, Nat.mod_eq_of_lt h.1]⟩⟩

theorem reads_wrapping (family : String) :
    Reads .wrapping baseCounts (supplyWord baseCounts) (fun _ => True) family := by
  intro a
  unfold familyAvailable supplyWord
  split
  · simp [eq_comm]
  · simp [word, Overflow.word, eq_comm]

variable {baseCounts}

theorem reads_fitting {family : String} (h : FamilyFits baseCounts family) :
    Reads .wrapping baseCounts (supply baseCounts) (fun _ => True) family := by
  have hsame : supplyWord baseCounts family = supply baseCounts family := by
    unfold supplyWord supply
    split
    · rfl
    · exact Nat.mod_eq_of_lt (h.resolve_left ‹_›)
  intro a
  rw [← hsame]
  exact reads_wrapping baseCounts family a

theorem settle_checked (turns : Nat) {take : OrdMap String Nat}
    (plan : Option (OrdMap String Nat)) : settle .checked baseCounts (turns + 2) take = .ok plan ↔
      RunFits baseCounts take ∧ plan = some (settled (supply baseCounts) take) := by
  rw [settle_ok (fun family _ => reads_checked baseCounts family), RunFits, and_assoc]
  simp only [true_imp_iff]

theorem settle_wrapping (turns : Nat) (take : OrdMap String Nat) :
    settle .wrapping baseCounts (turns + 2) take =
      .ok (some (settled (supplyWord baseCounts) take)) :=
  (settle_ok (fun family _ => reads_wrapping baseCounts family) turns _).mpr
    ⟨fun _ _ => trivial, fun h => (by cases h), rfl⟩

/-- Where nothing needs more than a word, both builds plan the same. -/
theorem settle_fits (turns : Nat) {take : OrdMap String Nat} (h : RunFits baseCounts take) :
    settle .wrapping baseCounts (turns + 2) take = settle .checked baseCounts (turns + 2) take := by
  rw [(settle_checked turns _).mpr ⟨h, rfl⟩]
  exact (settle_ok (fun family hfamily => reads_fitting (h.1 family hfamily)) turns _).mpr
    ⟨fun _ _ => trivial, fun h => (by cases h), rfl⟩

theorem eq_settled {build : Overflow} {take plan : OrdMap String Nat} (h : RunFits baseCounts take)
    (hrun : settle build baseCounts 2 take = .ok (some plan)) :
    plan = settled (supply baseCounts) take := by
  have hchecked : settle .checked baseCounts 2 take = .ok (some plan) := by
    cases build with
    | checked => exact hrun
    | wrapping => rw [← settle_fits 0 h, hrun]
  exact Option.some.inj ((settle_checked 0 _).mp hchecked).2

/-- A plan for the budget: of the same families, none above its available rows, and in total
what the rounded shares ask for as far as there are rows. -/
structure Plans (baseCounts : OrdMap String Nat) (shares : OrdMap String ℚ) (budget : Nat)
    (take : OrdMap String Nat) : Prop where
  families : take.keys = shares.keys
  within : Within (supply baseCounts) take
  total : total take = min (TakePlan.total (rounded shares budget))
    (totalAvailable (supply baseCounts) (rounded shares budget))
  budget : shares.values.sum = 1 → TakePlan.total take ≤ budget

/-- The rounded shares of a whole budget, or the rows there are for them, stay within it. -/
def RoundsWithin (baseCounts : OrdMap String Nat) (shares : OrdMap String ℚ) (budget : Nat) :
    Prop :=
  shares.values.sum = 1 → total (rounded shares budget) ≤ budget ∨
    totalAvailable (supply baseCounts) (rounded shares budget) ≤ budget

/-- The loop ends with a plan for the budget just when no operation overflows, the excess goes out
and the rounding stays within the budget. Without checks it ends with a plan in any case that takes
no family above its available rows, and with the same plan where no operation overflows. -/
theorem takePlan_iff (baseCounts : OrdMap String Nat) (shares : OrdMap String ℚ) (budget : Nat) :
    ((∃ take, (∀ turns, takePlan .checked baseCounts (turns + 2) shares budget = .ok (some take)) ∧
        Plans baseCounts shares budget take) ↔
      RunFits baseCounts (rounded shares budget) ∧
        GoesOut (supply baseCounts) (rounded shares budget) ∧
        RoundsWithin baseCounts shares budget) ∧
    (∃ take, (∀ turns, takePlan .wrapping baseCounts (turns + 2) shares budget = .ok (some take)) ∧
      take.keys = shares.keys ∧ Within (supply baseCounts) take) ∧
    (RunFits baseCounts (rounded shares budget) → ∀ turns,
      takePlan .wrapping baseCounts (turns + 2) shares budget =
        takePlan .checked baseCounts (turns + 2) shares budget) := by
  have hkeys (available : String → Nat) :
      (settled available (rounded shares budget)).keys = shares.keys :=
    (keys_settled available _).trans (keys_mapValues _ _)
  refine ⟨⟨?_, ?_⟩, ⟨_, fun turns => settle_wrapping turns _, hkeys _, fun e he => ?_⟩,
    fun hfits turns => settle_fits turns hfits⟩
  · rintro ⟨take, hrun, hplans⟩
    obtain ⟨hfits, htake⟩ := (settle_checked 0 _).mp (hrun 0)
    cases htake
    refine ⟨hfits, (total_settled_iff _ hfits.2).mp hplans.total, fun hone => ?_⟩
    have hbudget := hplans.budget hone
    rw [hplans.total] at hbudget
    omega
  · rintro ⟨hfits, hgoes, hrounds⟩
    have htotal := (total_settled_iff _ hfits.2).mpr hgoes
    refine ⟨_, fun turns => (settle_checked turns _).mpr ⟨hfits, rfl⟩, hkeys _,
      within_settled _ _, htotal, fun hone => ?_⟩
    rw [htotal]
    rcases hrounds hone with h | h <;> omega
  · exact (within_settled _ _ e he).trans (supplyWord_le baseCounts e.1)

/-- Three families, of which one has no rows and the others have room for one row each. -/
def roomyCounts : OrdMap String Nat := OrdMap.ofList [("boolean", 1), ("score", 2)]

def roomyShares : OrdMap String ℚ :=
  OrdMap.ofList [("boolean", F64.nearest (3 / 5)), ("choice", F64.nearest (1 / 5)),
    ("score", F64.nearest (1 / 5))]

/-- Half a row is rounded up even where the share is a little less. -/
example : (rounded (OrdMap.ofList [("a", F64.nearest (3 / 10)), ("b", F64.nearest (3 / 10)),
    ("c", F64.nearest (2 / 5))]) 5).values = [2, 2, 2] := by decide +kernel

/-- The one row that is cut off goes to neither of the two families with room for it, and two
halves of a row are both rounded up. -/
theorem takePlan_remainder_lost :
    (¬∃ build take,
      (∀ turns, takePlan build roomyCounts (turns + 2) roomyShares 5 = .ok (some take)) ∧
      Plans roomyCounts roomyShares 5 take) ∧
    ¬∃ build take, (∀ turns, takePlan build (OrdMap.ofList [("boolean", 1), ("choice", 1)])
        (turns + 2) (OrdMap.ofList [("boolean", 1 / 2), ("choice", 1 / 2)]) 1 = .ok (some take)) ∧
      Plans (OrdMap.ofList [("boolean", 1), ("choice", 1)])
        (OrdMap.ofList [("boolean", 1 / 2), ("choice", 1 / 2)]) 1 take := by
  constructor
  · rintro ⟨build, take, hrun, hplans⟩
    obtain rfl := eq_settled (by decide +kernel) (hrun 0)
    exact absurd hplans.total (by decide +kernel)
  · rintro ⟨build, take, hrun, hplans⟩
    obtain rfl := eq_settled (by decide +kernel) (hrun 0)
    exact absurd (hplans.budget (by decide +kernel)) (by decide +kernel)

end Law

end TakePlan

end OpenCodifier.Itemgen
