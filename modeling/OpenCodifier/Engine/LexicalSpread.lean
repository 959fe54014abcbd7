import Mathlib.Analysis.SpecialFunctions.Exp
import OpenCodifier.Engine.Lexical
set_option autoImplicit false

namespace OpenCodifier.Lexical

section Readouts

variable {K : Type} [Field K] [LinearOrder K]

def softmaxOver (exp : K → K) (scores : List K) : List K :=
  match scores with
  | [] => []
  | first :: rest =>
    let uniform := scores.map fun _ => 1 / (scores.length : K)
    let top := rest.foldl max first
    let exponentials := scores.map fun s => exp (s - top)
    if exponentials.sum ≤ 0 then uniform
    else exponentials.map fun e => e / exponentials.sum

def capOver : K := (lexicalLogOddsCap : K)

def squeeze (top s : K) : K := capOver - min (top - s) capOver

def boundOver (scores : List K) : List K :=
  match scores with
  | [] => []
  | first :: rest =>
    let top := rest.foldl max first
    if top ≤ capOver then scores else scores.map (squeeze top)

theorem softmaxOver_rat [RustStd] : softmaxOver RustStd.exp = softmax := by
  funext scores
  cases scores with
  | nil => rfl
  | cons first rest =>
    simp only [softmaxOver, softmax]

theorem boundOver_rat : boundOver = boundLexicalSpread := by
  funext scores
  cases scores with
  | nil => rfl
  | cons first rest =>
    have hcap : (capOver : ℚ) = lexicalLogOddsCap := Rat.cast_id _
    simp only [boundOver, boundLexicalSpread, hcap]
    rfl

end Readouts

section Bounds

variable {K : Type} [Field K] [LinearOrder K] [IsStrictOrderedRing K]

theorem capOver_pos : (0 : K) < capOver := by
  rw [capOver]
  exact_mod_cast (by decide +kernel : (0 : ℚ) < lexicalLogOddsCap)

theorem squeeze_mono (top : K) : Monotone (squeeze top) := by
  intro a b h
  have hmin : min (top - b) (capOver : K) ≤ min (top - a) capOver :=
    min_le_min_right _ (by linarith)
  rw [squeeze, squeeze]
  linarith

theorem squeeze_eq_cap_iff {top s : K} : squeeze top s = capOver ↔ s = top := by
  have hcap : (0 : K) < capOver := capOver_pos
  rw [squeeze]
  rcases le_total (top - s) capOver with h | h
  · rw [min_eq_left h]
    constructor
    · intro heq
      linarith
    · rintro rfl
      simp
  · rw [min_eq_right h]
    constructor
    · intro heq
      linarith
    · rintro rfl
      linarith

theorem squeeze_range {top s : K} (h : s ≤ top) : 0 ≤ squeeze top s ∧ squeeze top s ≤ capOver := by
  have hcap : (0 : K) < capOver := capOver_pos
  have hle : min (top - s) (capOver : K) ≤ capOver := min_le_right _ _
  have hnonneg : 0 ≤ min (top - s) (capOver : K) := le_min (by linarith) hcap.le
  rw [squeeze]
  exact ⟨by linarith, by linarith⟩

omit [Field K] [IsStrictOrderedRing K] in
theorem foldl_max_spec (first : K) (rest : List K) : rest.foldl max first ∈ first :: rest ∧
    ∀ s ∈ first :: rest, s ≤ rest.foldl max first :=
  List.max?_eq_some_iff.mp rfl

/-- What is bounded stands in the order of the scores, with the same entries on top. -/
structure Keeps (scores bounded : List K) : Prop where
  length : bounded.length = scores.length
  order : ∀ a ∈ scores.zip bounded, ∀ b ∈ scores.zip bounded, a.1 ≤ b.1 → a.2 ≤ b.2
  maxima : ∀ a ∈ scores.zip bounded,
    (∀ b ∈ scores.zip bounded, b.1 ≤ a.1) ↔ ∀ b ∈ scores.zip bounded, b.2 ≤ a.2

omit [Field K] [IsStrictOrderedRing K] in
theorem Keeps.map {scores : List K} {f : K → K} (hf : Monotone f) {top : K} (htop : top ∈ scores)
    (hle : ∀ s ∈ scores, s ≤ top) (hlt : ∀ s ∈ scores, f s = f top → s = top) :
    Keeps scores (scores.map f) := by
  have hzip : scores.zip (scores.map f) = scores.map fun s => (s, f s) := by
    simpa using List.zip_map' (f := id) (g := f) (l := scores)
  constructor
  · exact List.length_map _
  · simp only [hzip, List.forall_mem_map]
    exact fun _ _ _ _ h => hf h
  · simp only [hzip, List.forall_mem_map]
    refine fun s hs => ⟨fun h t ht => hf (h t ht), fun h t ht => ?_⟩
    have heq : f s = f top := le_antisymm (hf (hle s hs)) (h top htop)
    rw [hlt s hs heq]
    exact hle t ht

theorem boundOver_keeps (scores : List K) : Keeps scores (boundOver scores) := by
  cases scores with
  | nil => constructor <;> simp [boundOver]
  | cons first rest =>
    obtain ⟨hmem, hle⟩ := foldl_max_spec first rest
    rw [boundOver]
    split
    · have hid := Keeps.map monotone_id hmem hle fun _ _ h => h
      rwa [List.map_id] at hid
    · refine Keeps.map (squeeze_mono _) hmem hle fun s _ h => squeeze_eq_cap_iff.mp ?_
      rw [h, squeeze_eq_cap_iff]

theorem boundOver_range {scores : List K} (h : ∀ s ∈ scores, 0 ≤ s) :
    ∀ b ∈ boundOver scores, 0 ≤ b ∧ b ≤ capOver := by
  cases scores with
  | nil => simp [boundOver]
  | cons first rest =>
    obtain ⟨-, hle⟩ := foldl_max_spec first rest
    rw [boundOver]
    split
    · rename_i hcap
      exact fun b hb => ⟨h b hb, (hle b hb).trans hcap⟩
    · intro b hb
      obtain ⟨s, hs, rfl⟩ := List.mem_map.mp hb
      exact squeeze_range (hle s hs)

theorem share_le {terms : List K} {e low high : K} (he : e ∈ terms) (hlen : 2 ≤ terms.length)
    (hlow : 0 < low) (hterms : ∀ t ∈ terms, low ≤ t ∧ t ≤ high) :
    e / terms.sum ≤ high / (high + low) := by
  have hperm := List.perm_cons_erase he
  have hsum : e + low ≤ terms.sum := by
    rw [hperm.sum_eq, List.sum_cons]
    have hrest : ∀ t ∈ terms.erase e, 0 ≤ t := fun t ht =>
      hlow.le.trans (hterms t (List.mem_of_mem_erase ht)).1
    have hlength : 0 < (terms.erase e).length := by
      rw [List.length_erase_of_mem he]
      omega
    obtain ⟨t, ht⟩ := List.exists_mem_of_length_pos hlength
    have hone := List.single_le_sum hrest t ht
    have ht := (hterms t (List.mem_of_mem_erase ht)).1
    linarith
  obtain ⟨hle, hhigh⟩ := hterms e he
  rw [div_le_div_iff₀ (by linarith) (by linarith)]
  nlinarith

variable {exp : K → K}

/-- The largest probability of bounded scores is the one at log-odds of the cap. -/
theorem softmaxOver_le (hmono : Monotone exp) (hpos : ∀ x, 0 < exp x) {scores : List K}
    (hrange : ∀ s ∈ scores, 0 ≤ s ∧ s ≤ capOver) (hlen : 2 ≤ scores.length) :
    ∀ p ∈ softmaxOver exp scores, p ≤ exp 0 / (exp 0 + exp (-capOver)) := by
  cases scores with
  | nil => simp [softmaxOver]
  | cons first rest =>
    obtain ⟨hmem, hle⟩ := foldl_max_spec first rest
    have hterms : ∀ t ∈ (first :: rest).map fun s => exp (s - rest.foldl max first),
        exp (-capOver) ≤ t ∧ t ≤ exp 0 := by
      simp only [List.forall_mem_map]
      intro s hs
      have htop := hrange _ hmem
      exact ⟨hmono (by linarith [(hrange s hs).1]), hmono (by linarith [hle s hs])⟩
    rw [softmaxOver]
    split
    · rename_i hsum
      have hsum_pos := List.sum_pos _ (fun t ht => (hpos _).trans_le (hterms t ht).1) (by simp)
      exact absurd hsum (not_le.mpr hsum_pos)
    · intro p hp
      obtain ⟨e, he, rfl⟩ := List.mem_map.mp hp
      exact share_le he (by simpa using hlen) (hpos _) hterms

theorem ceiling_le (hpos : ∀ x, 0 < exp x) (h : exp 0 ≤ 99 * exp (-capOver)) :
    exp 0 / (exp 0 + exp (-capOver)) ≤ (99 / 100 : K) := by
  have hzero := hpos 0
  have hcap := hpos (-capOver)
  rw [div_le_div_iff₀ (by linarith) (by norm_num)]
  linarith

end Bounds

/-- Bounding keeps the order of the scores and their maxima; what it makes of scores that are not
negative lies within the cap, and no softmax of two or more of them goes past the odds of it. -/
theorem boundOver_lawful {K : Type} [Field K] [LinearOrder K] [IsStrictOrderedRing K]
    {exp : K → K} (hmono : Monotone exp) (hpos : ∀ x, 0 < exp x) (scores : List K) :
    Keeps scores (boundOver scores) ∧
      ((∀ s ∈ scores, 0 ≤ s) → 2 ≤ scores.length →
        (∀ b ∈ boundOver scores, 0 ≤ b ∧ b ≤ capOver) ∧
          ∀ p ∈ softmaxOver exp (boundOver scores), p ≤ exp 0 / (exp 0 + exp (-capOver)) ∧
            (exp 0 ≤ 99 * exp (-capOver) → p ≤ 99 / 100)) := by
  refine ⟨boundOver_keeps scores, fun hnonneg hlen => ?_⟩
  have hrange := boundOver_range hnonneg
  have hlength := (boundOver_keeps scores).length
  refine ⟨hrange, fun p hp => ?_⟩
  have hle := softmaxOver_le hmono hpos hrange (by omega) p hp
  exact ⟨hle, fun h => hle.trans (ceiling_le hpos h)⟩

theorem exp_eighth_le :
    Real.exp (5173645011197227 / 9007199254740992) ≤ 17760467745895388233 / 10 ^ 19 := by
  refine (Real.exp_bound' (by norm_num) (by norm_num) (by norm_num : 0 < 18)).trans ?_
  norm_num [Finset.sum_range_succ, Nat.factorial]

theorem exp_cap_le : Real.exp 0 ≤ 99 * Real.exp (-capOver) := by
  have hsplit : (capOver : ℝ) = (8 : ℕ) * (5173645011197227 / 9007199254740992) := by
    norm_num [capOver, lexicalLogOddsCap]
  have hle : Real.exp capOver ≤ 99 := by
    rw [hsplit, Real.exp_nat_mul]
    calc Real.exp (5173645011197227 / 9007199254740992) ^ 8
        ≤ (17760467745895388233 / 10 ^ 19) ^ 8 := by
          gcongr
          exact exp_eighth_le
      _ ≤ 99 := by norm_num
  rw [Real.exp_zero, Real.exp_neg, ← div_eq_mul_inv, one_le_div (Real.exp_pos _)]
  exact hle

theorem boundOver_lawful_real : (∀ s ∈ ([100, 95, 3, 0] : List ℝ), 0 ≤ s) ∧
    ∀ p ∈ softmaxOver Real.exp (boundOver [100, 95, 3, 0]),
      p ≤ Real.exp 0 / (Real.exp 0 + Real.exp (-capOver)) ∧ p ≤ 99 / 100 := by
  have hnonneg : ∀ s ∈ ([100, 95, 3, 0] : List ℝ), 0 ≤ s := by norm_num
  refine ⟨hnonneg, fun p hp => ?_⟩
  obtain ⟨hle, hrider⟩ := ((boundOver_lawful Real.exp_monotone Real.exp_pos _).2 hnonneg
    (by decide)).2 p hp
  exact ⟨hle, hrider exp_cap_le⟩

end OpenCodifier.Lexical
