import Mathlib.Algebra.Order.Field.Basic
import Mathlib.Algebra.BigOperators.Ring.List
import Mathlib.Algebra.Order.BigOperators.Group.List
import Mathlib.Tactic.Linarith
import Mathlib.Tactic.Ring
import OpenCodifier.Lib.Prorata
set_option autoImplicit false

universe u v

namespace Capping

variable {ι : Type u} {K : Type v} [Field K] [LinearOrder K] (l : List ι) (cap ε : K)

def total (s : ι → K) : K := (l.map s).sum

def excess (s : ι → K) : K := (l.map fun i => if cap < s i then s i - cap else 0).sum

def free (s : ι → K) : K := (l.map fun i => if s i < cap then s i else 0).sum

def clamp (s : ι → K) (i : ι) : K := min (s i) cap

/-- The shares after the excess went to those below the cap. -/
def spread (s : ι → K) (i : ι) : K :=
  if s i < cap then s i + excess l cap s * (s i / free l cap s) else cap

def pass (s : ι → K) : Bool × (ι → K) :=
  if excess l cap s ≤ ε then (true, s)
  else if free l cap s ≤ ε then (true, clamp cap s)
  else (false, spread l cap s)

def passes : Nat → (ι → K) → ι → K
  | 0, s => s
  | n + 1, s => if (pass l cap ε s).1 then (pass l cap ε s).2 else passes n (pass l cap ε s).2

def atCap (s : ι → K) : Nat := l.countP fun i => cap ≤ s i

section Sums

variable {l cap}

theorem total_clamp_add_excess [IsStrictOrderedRing K] (s : ι → K) :
    total l (clamp cap s) + excess l cap s = total l s := by
  rw [total, excess, total, ← List.sum_map_add]
  congr 1
  apply List.map_congr_left
  intro i _
  rw [clamp]
  split
  · rename_i h
    rw [min_eq_right h.le, add_sub_cancel]
  · rename_i h
    rw [min_eq_left (not_lt.mp h), add_zero]

theorem free_clamp (s : ι → K) : free l cap (clamp cap s) = free l cap s := by
  rw [free, free]
  congr 1
  apply List.map_congr_left
  intro i _
  by_cases h : s i < cap
  · rw [clamp, min_eq_left h.le]
  · rw [clamp, min_eq_right (not_lt.mp h), if_neg h, if_neg (lt_irrefl cap)]

/-- Giving the excess to the shares below the cap keeps the total. -/
theorem total_spread [IsStrictOrderedRing K] {s : ι → K} (h : free l cap s ≠ 0) :
    total l (spread l cap s) = total l s := by
  have hsplit : total l (clamp cap s) + excess l cap s = total l s := total_clamp_add_excess s
  have hparts := Prorata.sum_mul_div
    (show (l.map fun i => if s i < cap then s i else 0).sum ≠ 0 from h) (excess l cap s)
  rw [← hsplit, ← hparts, total, total, ← List.sum_map_add]
  congr 1
  apply List.map_congr_left
  intro i _
  rw [spread, clamp]
  split
  · rename_i hlt
    rw [min_eq_left hlt.le]
    rfl
  · rename_i hge
    rw [min_eq_right (not_lt.mp hge), zero_div, mul_zero, add_zero]

end Sums

section Bounds

variable {l cap} {s : ι → K}

theorem exists_of_excess_pos (h : 0 < excess l cap s) : ∃ i ∈ l, cap < s i := by
  by_contra hnone
  push Not at hnone
  have hzero : excess l cap s = 0 := by
    refine List.sum_eq_zero fun x hx => ?_
    obtain ⟨i, hi, rfl⟩ := List.mem_map.mp hx
    exact if_neg (not_lt.mpr (hnone i hi))
  exact h.ne' hzero

theorem one_le_atCap (h : 0 < excess l cap s) : 1 ≤ atCap l cap s := by
  obtain ⟨i, hi, hlt⟩ := exists_of_excess_pos h
  exact List.countP_pos_iff.mpr ⟨i, hi, decide_eq_true hlt.le⟩

theorem spread_of_cap_le {i : ι} (h : cap ≤ s i) : spread l cap s i = cap :=
  if_neg (not_lt.mpr h)

theorem atCap_lt_spread (h : 0 < excess l cap (spread l cap s)) :
    atCap l cap s < atCap l cap (spread l cap s) := by
  obtain ⟨i, hi, hlt⟩ := exists_of_excess_pos h
  have hbelow : s i < cap := by
    by_contra hge
    rw [spread_of_cap_le (not_lt.mp hge)] at hlt
    exact lt_irrefl cap hlt
  obtain ⟨front, back, rfl⟩ := List.append_of_mem hi
  have hmono : ∀ m : List ι, atCap m cap s ≤ m.countP fun j =>
      cap ≤ spread (front ++ i :: back) cap s j := by
    intro m
    refine List.countP_mono_left fun j _ hj => ?_
    rw [spread_of_cap_le (of_decide_eq_true hj)]
    exact decide_eq_true le_rfl
  have hfront := hmono front
  have hback := hmono back
  simp only [atCap] at hfront hback ⊢
  rw [List.countP_append, List.countP_cons_of_neg (by simpa using hbelow), List.countP_append,
    List.countP_cons_of_pos (by simpa using hlt.le)]
  omega

variable [IsStrictOrderedRing K]

theorem parts_nonneg : ∀ x ∈ l.map fun i => if cap < s i then s i - cap else 0, 0 ≤ x := by
  intro x hx
  obtain ⟨i, -, rfl⟩ := List.mem_map.mp hx
  split
  · rename_i h
    exact (sub_pos.mpr h).le
  · exact le_rfl

theorem excess_nonneg : 0 ≤ excess l cap s := List.sum_nonneg parts_nonneg

theorem le_cap_add_excess {i : ι} (hi : i ∈ l) : s i ≤ cap + excess l cap s := by
  have hone : (if cap < s i then s i - cap else 0) ≤ excess l cap s :=
    List.single_le_sum parts_nonneg _ (List.mem_map_of_mem hi)
  split at hone
  · linarith
  · rename_i h
    linarith [not_lt.mp h]

theorem atCap_mul_cap_le (h : ∀ i ∈ l, 0 ≤ s i) : (atCap l cap s : K) * cap ≤ total l s := by
  induction l with
  | nil => simp [atCap, total]
  | cons i l ih =>
    have ih := ih fun j hj => h j (List.mem_cons_of_mem i hj)
    have hi := h i List.mem_cons_self
    rw [total] at ih
    rw [atCap, List.countP_cons, ← atCap, total, List.map_cons, List.sum_cons]
    by_cases hcap : cap ≤ s i
    · simp only [hcap, decide_true, if_true, Nat.cast_add, Nat.cast_one, add_mul, one_mul]
      linarith
    · simp only [hcap, decide_false, Bool.false_eq_true, if_false, Nat.add_zero]
      linarith

end Bounds

section Runs

variable {l cap ε} {s : ι → K}

/-- The state that the passes stop at: nothing is left to cut off, or nothing below the cap to
give it to. -/
inductive Stops (l : List ι) (cap ε : K) (s : ι → K) : (ι → K) → Prop
  | within : excess l cap s ≤ ε → Stops l cap ε s s
  | full : ε < excess l cap s → free l cap s ≤ ε → Stops l cap ε s (clamp cap s)

theorem stops_pass (h : (pass l cap ε s).1 = true) : Stops l cap ε s (pass l cap ε s).2 := by
  rw [pass] at h ⊢
  by_cases hexcess : excess l cap s ≤ ε
  · rw [if_pos hexcess]
    exact .within hexcess
  · rw [if_neg hexcess] at h ⊢
    by_cases hfree : free l cap s ≤ ε
    · rw [if_pos hfree]
      exact .full (not_le.mp hexcess) hfree
    · rw [if_neg hfree] at h
      cases h

theorem pass_not_last (h : (pass l cap ε s).1 = false) :
    (pass l cap ε s).2 = spread l cap s ∧ ε < excess l cap s ∧ ε < free l cap s := by
  rw [pass] at h ⊢
  by_cases hexcess : excess l cap s ≤ ε
  · rw [if_pos hexcess] at h
    cases h
  · rw [if_neg hexcess] at h ⊢
    by_cases hfree : free l cap s ≤ ε
    · rw [if_pos hfree] at h
      cases h
    · rw [if_neg hfree]
      exact ⟨rfl, not_le.mp hexcess, not_le.mp hfree⟩

/-- When no more than so many shares can reach the cap, one pass more is enough: each pass that
is not the last one brings another share to the cap. What the passes keep holds of the state they
stop at. -/
theorem passes_stop {I : (ι → K) → Prop} {most : Nat} (hε : 0 ≤ ε)
    (hmost : ∀ s, I s → atCap l cap s ≤ most)
    (hstep : ∀ s, I s → ε < excess l cap s → ε < free l cap s → I (spread l cap s)) (n : Nat)
    {s : ι → K} (hs : I s) (hn : 0 < excess l cap s → most + 1 ≤ atCap l cap s + n) :
    ∃ last out, I last ∧ Stops l cap ε last out ∧
      ∀ more, passes l cap ε (n + 1 + more) s = out := by
  induction n generalizing s with
  | zero =>
    have hexcess : excess l cap s ≤ ε := by
      by_contra hpos
      have hmany := hn (hε.trans_lt (not_le.mp hpos))
      have hfew := hmost s hs
      omega
    refine ⟨s, s, hs, .within hexcess, fun more => ?_⟩
    rw [Nat.zero_add, Nat.add_comm, passes, pass, if_pos hexcess]
    rfl
  | succ n ih =>
    have hnext : ∀ more, passes l cap ε (n + 1 + 1 + more) s =
        if (pass l cap ε s).1 then (pass l cap ε s).2
        else passes l cap ε (n + 1 + more) (pass l cap ε s).2 := by
      intro more
      rw [show n + 1 + 1 + more = n + 1 + more + 1 by omega, passes]
    simp only [hnext]
    cases hlast : (pass l cap ε s).1 with
    | true => exact ⟨s, _, hs, stops_pass hlast, fun _ => rfl⟩
    | false =>
      obtain ⟨hspread, hexcess, hfree⟩ := pass_not_last hlast
      rw [hspread]
      refine ih (hstep s hs hexcess hfree) fun hpos => ?_
      have hone := one_le_atCap (hε.trans_lt hexcess)
      have hmany := hn (hε.trans_lt hexcess)
      have hgrows := atCap_lt_spread hpos
      omega

end Runs

section Law

variable [IsStrictOrderedRing K] {l cap ε}

structure Kept (l : List ι) (cap : K) (start s : ι → K) : Prop where
  nonneg : ∀ i ∈ l, 0 ≤ s i
  total : total l s = total l start
  grows : ∀ i ∈ l, s i < cap → start i ≤ s i
  ordered : ∀ i j, start i ≤ start j → s i ≤ s j ∨ cap ≤ s j

omit [IsStrictOrderedRing K] in
theorem kept_refl {start : ι → K} (h : ∀ i ∈ l, 0 ≤ start i) : Kept l cap start start :=
  ⟨h, rfl, fun _ _ _ => le_rfl, fun _ _ hle => Or.inl hle⟩

theorem Kept.spread {start s : ι → K} (h : Kept l cap start s) (hcap : 0 ≤ cap)
    (hfree : 0 < free l cap s) : Kept l cap start (spread l cap s) where
  nonneg i hi := by
    rw [Capping.spread]
    split
    · have hs := h.nonneg i hi
      have hexcess : 0 ≤ excess l cap s := excess_nonneg
      positivity
    · exact hcap
  total := by rw [total_spread hfree.ne', h.total]
  grows i hi hlt := by
    rw [Capping.spread] at hlt ⊢
    split
    · rename_i hbelow
      have hs := h.nonneg i hi
      have hexcess : 0 ≤ excess l cap s := excess_nonneg
      have hpart : 0 ≤ excess l cap s * (s i / free l cap s) := by positivity
      linarith [h.grows i hi hbelow]
    · rename_i hge
      rw [if_neg hge] at hlt
      exact absurd hlt (lt_irrefl cap)
  ordered i j hle := by
    by_cases hj : s j < cap
    · have hij : s i ≤ s j := (h.ordered i j hle).resolve_right (not_le.mpr hj)
      left
      rw [Capping.spread, Capping.spread, if_pos hj, if_pos (hij.trans_lt hj)]
      have hexcess : 0 ≤ excess l cap s := excess_nonneg
      gcongr
    · exact Or.inr (spread_of_cap_le (not_lt.mp hj)).ge

/-- Shares of the same total as others, or with no more than the tolerance below the cap: none
negative, none above the cap and none below a smaller one, up to the tolerance. -/
structure Capped (l : List ι) (cap ε : K) (start out : ι → K) : Prop where
  nonneg : ∀ i ∈ l, 0 ≤ out i
  below : ∀ i ∈ l, out i ≤ cap + ε
  ordered : ∀ i ∈ l, ∀ j ∈ l, start i ≤ start j → out i ≤ out j + ε
  whole : total l out = total l start ∨ free l cap out ≤ ε

theorem Kept.capped {start last out : ι → K} (h : Kept l cap start last) (hcap : 0 ≤ cap)
    (hε : 0 ≤ ε) (hstops : Stops l cap ε last out) : Capped l cap ε start out := by
  cases hstops with
  | within hexcess =>
    have hbelow : ∀ i ∈ l, last i ≤ cap + ε := by
      intro i hi
      have hle : last i ≤ cap + excess l cap last := le_cap_add_excess hi
      linarith
    refine ⟨h.nonneg, hbelow, fun i hi j _ hle => ?_, Or.inl h.total⟩
    rcases h.ordered i j hle with hij | hj
    · linarith
    · linarith [hbelow i hi]
  | full _ hfree =>
    refine ⟨fun i hi => le_min (h.nonneg i hi) hcap, fun i _ => ?_, fun i _ j _ hle => ?_,
      Or.inr (by rwa [free_clamp])⟩
    · exact (min_le_right _ _).trans (by linarith)
    · have hmin : clamp cap last i ≤ clamp cap last j := by
        rcases h.ordered i j hle with hij | hj
        · exact min_le_min_right cap hij
        · rw [clamp, clamp, min_eq_right hj]
          exact min_le_right _ _
      linarith

theorem Kept.sum_below_le {start s : ι → K} (h : Kept l cap start s) :
    ((l.filter fun i => s i < cap).map start).sum ≤ free l cap s := by
  have hsum : ∀ m : List ι, (∀ i ∈ m, i ∈ l) →
      ((m.filter fun i => s i < cap).map start).sum ≤ free m cap s := by
    intro m hm
    induction m with
    | nil => simp [free]
    | cons i m ih =>
      have ih := ih fun j hj => hm j (List.mem_cons_of_mem i hj)
      rw [free] at ih
      rw [free, List.map_cons, List.sum_cons]
      by_cases hi : s i < cap
      · have hgrows := h.grows i (hm i List.mem_cons_self) hi
        rw [List.filter_cons_of_pos (by simpa using hi), List.map_cons, List.sum_cons, if_pos hi]
        linarith
      · rw [List.filter_cons_of_neg (by simpa using hi), if_neg hi]
        linarith
  exact hsum l fun i hi => hi

/-- When all but a few shares hold more than the tolerance, nothing is lost. -/
theorem Kept.whole [DecidableEq ι] {start last out : ι → K} {most : Nat}
    (h : Kept l cap start last) (hstops : Stops l cap ε last out) (hmost : atCap l cap last ≤ most)
    (hrest : ∀ t : List ι, t.length ≤ most → ε < ((l.filter (· ∉ t)).map start).sum) :
    Capping.total l out = Capping.total l start := by
  cases hstops with
  | within => exact h.total
  | full _ hfree =>
    have hlen : (l.filter fun i => cap ≤ last i).length ≤ most := by
      rwa [← List.countP_eq_length_filter]
    have hbelow : l.filter (· ∉ l.filter fun i => cap ≤ last i) =
        l.filter fun i => last i < cap := by
      apply List.filter_congr
      intro i hi
      simp [hi]
    have hmore := hrest _ hlen
    rw [hbelow] at hmore
    exact absurd (hmore.trans_le h.sum_below_le) (not_lt.mpr hfree)

/-- Passes over nonnegative shares settle when no more than so many of them can reach the cap. -/
theorem passes_capped [DecidableEq ι] (hcap : 0 < cap) (hε : 0 ≤ ε) {most : Nat} {start : ι → K}
    (hstart : ∀ i ∈ l, 0 ≤ start i) (hmost : total l start < (most + 1) * cap) :
    ∃ out, (∀ more, passes l cap ε (most + 1 + more) start = out) ∧ Capped l cap ε start out ∧
      ((∀ t : List ι, t.length ≤ most → ε < ((l.filter (· ∉ t)).map start).sum) →
        total l out = total l start) := by
  have hfew : ∀ s, Kept l cap start s → atCap l cap s ≤ most := by
    intro s hs
    have hmul : (atCap l cap s : K) * cap < (most + 1) * cap :=
      (atCap_mul_cap_le hs.nonneg).trans_lt (hs.total ▸ hmost)
    have hlt := lt_of_mul_lt_mul_right hmul hcap.le
    rw [← Nat.cast_succ, Nat.cast_lt] at hlt
    exact Nat.lt_succ_iff.mp hlt
  obtain ⟨last, out, hkept, hstops, hrun⟩ := passes_stop hε hfew
    (fun s hs _ hfree => hs.spread hcap.le (hε.trans_lt hfree)) most (kept_refl hstart)
    fun hpos => by
      have hone := one_le_atCap hpos
      omega
  exact ⟨out, hrun, hkept.capped hcap.le hε hstops, hkept.whole hstops (hfew last hkept)⟩

end Law

end Capping
