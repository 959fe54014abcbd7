import Mathlib.Data.String.Basic
import Mathlib.Data.Rat.Cast.Defs
import Mathlib.Algebra.Order.Field.Rat
import Mathlib.Tactic.NormNum
import OpenCodifier.Lib.Capping
import OpenCodifier.Lib.OrdMap
set_option autoImplicit false

namespace OpenCodifier.Itemgen

def temperatureT : ℚ := 5 / 2

def familyShareCap : ℚ := 2 / 5

def epsilon : ℚ := 1 / 2 ^ 52

namespace FamilyShares

section Shares

variable {K : Type} [Field K] [LinearOrder K]

/-- What the shares above the cap have too much. -/
def excess (shares : OrdMap String K) : K :=
  ((shares.values.filter fun share => (familyShareCap : K) < share).map
    fun share => share - (familyShareCap : K)).sum

def capShares (shares : OrdMap String K) : OrdMap String K :=
  shares.mapValues fun _ share => if (familyShareCap : K) < share then familyShareCap else share

/-- What the shares below the cap hold. -/
def free (shares : OrdMap String K) : K :=
  (shares.values.filter fun share => share < (familyShareCap : K)).sum

def spreadShares (excess free : K) (shares : OrdMap String K) : OrdMap String K :=
  shares.mapValues fun _ share =>
    if share < (familyShareCap : K) then share + excess * (share / free) else share

/-- One pass, and whether the loop stops in it. -/
def sharePass (shares : OrdMap String K) : Bool × OrdMap String K :=
  let beyond := excess shares
  if beyond ≤ (epsilon : K) then (true, shares)
  else
    let capped := capShares shares
    let room := free capped
    if room ≤ (epsilon : K) then (true, capped) else (false, spreadShares beyond room capped)

def sharePasses : Nat → OrdMap String K → OrdMap String K
  | 0, shares => shares
  | passes + 1, shares =>
    let turn := sharePass shares
    if turn.1 then turn.2 else sharePasses passes turn.2

variable (pow : K → K → K)

def familyWeight (count : Nat) : K := pow count (1 / (temperatureT : K))

def initialShares (counts : OrdMap String Nat) : OrdMap String K :=
  let weights := counts.mapValues fun _ count => familyWeight pow count
  let totalWeight := weights.values.sum
  weights.mapValues fun _ weight => weight / totalWeight

/-- The families' shares after eight passes. -/
def temperatureShares (counts : OrdMap String Nat) : OrdMap String K :=
  sharePasses 8 (initialShares pow counts)

end Shares

section Refinement

variable {K : Type}

def sharesOf (counts : OrdMap String Nat) (s : String → K) : OrdMap String K :=
  counts.mapValues fun family _ => s family

variable (counts : OrdMap String Nat) (s : String → K)

theorem values_sharesOf : (sharesOf counts s).values = counts.keys.map s := by
  simp [sharesOf, OrdMap.values, OrdMap.keys, OrdMap.mapValues]

theorem mapValues_sharesOf (f : K → K) :
    (sharesOf counts s).mapValues (fun _ share => f share) =
      sharesOf counts fun family => f (s family) := by
  simp [sharesOf, OrdMap.mapValues]

variable [Field K] [LinearOrder K]

theorem excess_sharesOf :
    excess (sharesOf counts s) = Capping.excess counts.keys (familyShareCap : K) s := by
  rw [excess, Capping.excess, values_sharesOf]
  induction counts.keys with
  | nil => rfl
  | cons family rest ih =>
    rw [List.map_cons, List.map_cons, List.sum_cons, ← ih, List.filter_cons]
    by_cases h : (familyShareCap : K) < s family <;> simp [h]

theorem free_sharesOf :
    free (sharesOf counts s) = Capping.free counts.keys (familyShareCap : K) s := by
  rw [free, Capping.free, values_sharesOf]
  induction counts.keys with
  | nil => rfl
  | cons family rest ih =>
    rw [List.map_cons, List.map_cons, List.sum_cons, ← ih, List.filter_cons]
    by_cases h : s family < (familyShareCap : K) <;> simp [h]

theorem capShares_sharesOf :
    capShares (sharesOf counts s) = sharesOf counts (Capping.clamp (familyShareCap : K) s) := by
  rw [capShares, mapValues_sharesOf]
  congr 1
  funext family
  rw [Capping.clamp]
  split
  · rename_i h
    exact (min_eq_right h.le).symm
  · rename_i h
    exact (min_eq_left (not_lt.mp h)).symm

theorem spreadShares_sharesOf :
    spreadShares (excess (sharesOf counts s)) (free (capShares (sharesOf counts s)))
        (capShares (sharesOf counts s)) =
      sharesOf counts (Capping.spread counts.keys (familyShareCap : K) s) := by
  rw [excess_sharesOf, capShares_sharesOf, free_sharesOf, Capping.free_clamp, spreadShares,
    mapValues_sharesOf]
  congr 1
  funext family
  rw [Capping.spread, Capping.clamp]
  by_cases h : s family < (familyShareCap : K)
  · rw [min_eq_left h.le, if_pos h, if_pos h]
  · rw [min_eq_right (not_lt.mp h), if_neg (lt_irrefl _), if_neg h]

theorem sharePass_sharesOf :
    sharePass (sharesOf counts s) =
      ((Capping.pass counts.keys (familyShareCap : K) (epsilon : K) s).1,
        sharesOf counts (Capping.pass counts.keys (familyShareCap : K) (epsilon : K) s).2) := by
  have hfree : free (capShares (sharesOf counts s)) =
      Capping.free counts.keys (familyShareCap : K) s := by
    rw [capShares_sharesOf, free_sharesOf, Capping.free_clamp]
  have hspread := spreadShares_sharesOf counts s
  rw [sharePass]
  dsimp only
  rw [hspread, hfree, excess_sharesOf, capShares_sharesOf, Capping.pass]
  split
  · rfl
  · split <;> rfl

theorem sharePasses_sharesOf (n : Nat) :
    sharePasses n (sharesOf counts s) =
      sharesOf counts (Capping.passes counts.keys (familyShareCap : K) (epsilon : K) n s) := by
  induction n generalizing s with
  | zero => rfl
  | succ n ih =>
    rw [sharePasses, Capping.passes, sharePass_sharesOf]
    dsimp only
    split
    · rfl
    · exact ih _

end Refinement

section Law

variable {K : Type} [Field K] (pow : K → K → K)

def startOf (counts : OrdMap String Nat) (family : String) : K :=
  familyWeight pow ((counts.get? family).getD 0) /
    (counts.mapValues fun _ count => familyWeight pow count).values.sum

theorem initialShares_eq (counts : OrdMap String Nat) :
    initialShares pow counts = sharesOf counts (startOf pow counts) := by
  refine OrdMap.ext_get? fun family => ?_
  rw [initialShares, sharesOf, OrdMap.get?_mapValues, OrdMap.get?_mapValues, OrdMap.get?_mapValues]
  cases h : counts.get? family with
  | none => rfl
  | some count =>
    rw [startOf, h]
    rfl

/-- The shares of the families of a census: none negative or above the cap, none below that of a
family with no more rows, up to the epsilon, and nothing lost while more than it is below the
cap. -/
structure Fair [LinearOrder K] (counts : OrdMap String Nat) (shares : OrdMap String K) : Prop where
  families : shares.keys = counts.keys
  nonneg : ∀ e ∈ shares.entries, 0 ≤ e.2
  below : ∀ e ∈ shares.entries, e.2 ≤ (familyShareCap : K) + (epsilon : K)
  ordered : ∀ f g m n s t, counts.get? f = some m → counts.get? g = some n → m ≤ n →
    shares.get? f = some s → shares.get? g = some t → s ≤ t + (epsilon : K)
  whole : shares.values.sum = 1 ∨ free shares ≤ (epsilon : K)

variable {pow} [LinearOrder K] [IsStrictOrderedRing K] {counts : OrdMap String Nat}

theorem familyShareCap_pos : (0 : K) < (familyShareCap : K) := by
  rw [familyShareCap]
  norm_num

theorem epsilon_nonneg : (0 : K) ≤ (epsilon : K) := by
  rw [epsilon]
  norm_num

structure Weights (pow : K → K → K) : Prop where
  pos : ∀ n, 0 < n → 0 < familyWeight pow n
  mono : ∀ m n, 0 < m → m ≤ n → familyWeight pow m ≤ familyWeight pow n

theorem totalWeight_pos (hweights : Weights pow) (hne : counts.entries ≠ [])
    (hcounts : ∀ e ∈ counts.entries, 0 < e.2) :
    0 < (counts.mapValues fun _ count => familyWeight pow count).values.sum := by
  refine List.sum_pos _ (fun x hx => ?_) ?_
  · obtain ⟨e, he, rfl⟩ := List.mem_map.mp hx
    obtain ⟨e', he', rfl⟩ := List.mem_map.mp he
    exact hweights.pos _ (hcounts e' he')
  · simpa [OrdMap.values, OrdMap.mapValues] using hne

omit [LinearOrder K] [IsStrictOrderedRing K] in
theorem startOf_eq {family : String} {count : Nat} (h : counts.get? family = some count) :
    startOf pow counts family = familyWeight pow count /
      (counts.mapValues fun _ count => familyWeight pow count).values.sum := by
  rw [startOf, h, Option.getD_some]

omit [LinearOrder K] [IsStrictOrderedRing K] in
theorem total_startOf
    (h : (counts.mapValues fun _ count => familyWeight pow count).values.sum ≠ 0) :
    Capping.total counts.keys (startOf pow counts) = 1 := by
  have hweights : (counts.entries.map fun e => familyWeight pow e.2).sum ≠ 0 := by
    simpa [OrdMap.values, OrdMap.mapValues, Function.comp_def] using h
  have hparts := Prorata.sum_div hweights
  rw [← hparts, Capping.total, OrdMap.keys, List.map_map]
  congr 1
  apply List.map_congr_left
  rintro ⟨family, count⟩ he
  rw [Function.comp_apply, startOf_eq ((OrdMap.mem_entries_iff counts family count).mp he)]
  simp [OrdMap.values, OrdMap.mapValues, Function.comp_def]

/-- The passes settle before the eighth one, with fair shares; and nothing is lost when the
families other than any two hold more than the epsilon. -/
theorem temperatureShares_law (hweights : Weights pow) (hsize : 3 ≤ counts.size)
    (hcounts : ∀ e ∈ counts.entries, 0 < e.2) :
    (∀ more, sharePasses (8 + more) (initialShares pow counts) = temperatureShares pow counts) ∧
      Fair counts (temperatureShares pow counts) ∧
      ((∀ few : List String, few.length ≤ 2 →
          (epsilon : K) < ((counts.keys.filter (· ∉ few)).map (startOf pow counts)).sum) →
        (temperatureShares pow counts).values.sum = 1) := by
  have hne : counts.entries ≠ [] := by
    rintro hnil
    rw [OrdMap.size, hnil] at hsize
    exact absurd hsize (by decide)
  have hW := totalWeight_pos hweights hne hcounts
  have hstart : ∀ family ∈ counts.keys, 0 ≤ startOf pow counts family := by
    intro family hfamily
    obtain ⟨count, hcount⟩ := (OrdMap.mem_keys_iff counts family).mp hfamily
    rw [startOf_eq hcount]
    have hpos := hweights.pos count
      (hcounts _ ((OrdMap.mem_entries_iff counts family count).mpr hcount))
    positivity
  have htotal := total_startOf hW.ne'
  have hmost : Capping.total counts.keys (startOf pow counts) <
      ((2 : Nat) + 1) * (familyShareCap : K) := by
    rw [htotal, familyShareCap]
    norm_num
  obtain ⟨out, hrun, hcapped, hwhole⟩ :=
    Capping.passes_capped familyShareCap_pos epsilon_nonneg hstart hmost
  have hshares : ∀ more, sharePasses (8 + more) (initialShares pow counts) =
      sharesOf counts out := by
    intro more
    rw [initialShares_eq, sharePasses_sharesOf, ← hrun (5 + more)]
    congr 2
    omega
  have hresult : temperatureShares pow counts = sharesOf counts out := hshares 0
  have hsum : (sharesOf counts out).values.sum = Capping.total counts.keys out := by
    rw [values_sharesOf, Capping.total]
  rw [hresult]
  refine ⟨hshares, ⟨?_, ?_, ?_, ?_, ?_⟩, fun hrest => ?_⟩
  · simp [sharesOf, OrdMap.keys, OrdMap.mapValues]
  · intro e he
    obtain ⟨e', he', rfl⟩ := List.mem_map.mp he
    exact hcapped.nonneg _ (List.mem_map_of_mem he')
  · intro e he
    obtain ⟨e', he', rfl⟩ := List.mem_map.mp he
    exact hcapped.below _ (List.mem_map_of_mem he')
  · intro f g m n s t hf hg hmn hs ht
    rw [sharesOf, OrdMap.get?_mapValues, hf] at hs
    rw [sharesOf, OrdMap.get?_mapValues, hg] at ht
    cases hs
    cases ht
    refine hcapped.ordered f ((OrdMap.mem_keys_iff counts f).mpr ⟨m, hf⟩) g
      ((OrdMap.mem_keys_iff counts g).mpr ⟨n, hg⟩) ?_
    rw [startOf_eq hf, startOf_eq hg]
    have hm := hcounts _ ((OrdMap.mem_entries_iff counts f m).mpr hf)
    exact div_le_div_of_nonneg_right (hweights.mono m n hm hmn) hW.le
  · rw [hsum, free_sharesOf]
    exact hcapped.whole.imp_left fun h => h.trans htotal
  · rw [hsum, hwhole hrest, htotal]

end Law

section Samples

def sampleCounts : OrdMap String Nat := OrdMap.ofList [("boolean", 3), ("choice", 2), ("score", 1)]

theorem temperatureShares_law_sample :
    (∀ more, sharePasses (8 + more) (initialShares (fun x _ : ℚ => x) sampleCounts) =
        temperatureShares (fun x _ => x) sampleCounts) ∧
      Fair sampleCounts (temperatureShares (fun x _ : ℚ => x) sampleCounts) ∧
      ((∀ few : List String, few.length ≤ 2 → epsilon <
          ((sampleCounts.keys.filter (· ∉ few)).map (startOf (fun x _ => x) sampleCounts)).sum) →
        (temperatureShares (fun x _ : ℚ => x) sampleCounts).values.sum = 1) :=
  temperatureShares_law ⟨fun n hn => Nat.cast_pos.mpr hn, fun m n _ hmn => Nat.cast_le.mpr hmn⟩
    (by decide) (by decide)

/-- A weight against which all others are lost. -/
def heavy (x _ : ℚ) : ℚ := if x ≤ 1 then 1 else 2 ^ 60

/-- A second weight that the first pass lifts over the cap by less than the epsilon. -/
def lifted (x _ : ℚ) : ℚ := if x ≤ 1 then 1 else if x ≤ 2 then 2 + 1 / 2 ^ 50 else 3

theorem weights_heavy : Weights heavy where
  pos n _ := by
    rw [familyWeight, heavy]
    split <;> norm_num
  mono m n _ hmn := by
    have hcast : (m : ℚ) ≤ n := Nat.cast_le.mpr hmn
    simp only [familyWeight, heavy]
    split
    · split <;> norm_num
    · rw [if_neg (by linarith)]

theorem weights_lifted : Weights lifted where
  pos n _ := by
    rw [familyWeight, lifted]
    split
    · norm_num
    · split <;> norm_num
  mono m n _ hmn := by
    have hcast : (m : ℚ) ≤ n := Nat.cast_le.mpr hmn
    simp only [familyWeight, lifted]
    split
    · split
      · norm_num
      · split <;> norm_num
    · rw [if_neg (show ¬(n : ℚ) ≤ 1 by linarith)]
      split
      · split <;> norm_num
      · rw [if_neg (by linarith)]

/-- Three families whose shares do not add up to one, and three of which the largest gets a
smaller share than the second. -/
theorem temperatureShares_cut_short :
    Weights heavy ∧ (temperatureShares heavy sampleCounts).values.sum ≠ 1 ∧
      Weights lifted ∧ ∃ s t, (temperatureShares lifted sampleCounts).get? "boolean" = some s ∧
        (temperatureShares lifted sampleCounts).get? "choice" = some t ∧ s < t := by
  exact ⟨weights_heavy, by decide +kernel, weights_lifted, 2 / 5,
    6755399441055747 / 16888498602639365, by decide +kernel, by decide +kernel, by decide +kernel⟩

end Samples

end FamilyShares

end OpenCodifier.Itemgen
