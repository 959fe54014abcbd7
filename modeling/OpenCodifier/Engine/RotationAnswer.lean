import OpenCodifier.Engine.RotationRanking
set_option autoImplicit false

namespace OpenCodifier

namespace RotationReadout

attribute [local instance] two_atLeastTwo

section Means

noncomputable def geomMean (column : List ℝ) : ℝ :=
  logMeanOf Real.exp column.length (column.map (logOf Real.log)).sum

theorem sum_logOf (column : List ℝ) : (column.map (logOf Real.log)).sum =
    if 0 ∈ column then ⊥ else ((column.map Real.log).sum : WithBot ℝ) := by
  induction column with
  | nil => simp
  | cons x column ih =>
    rw [List.map_cons, List.sum_cons, ih]
    by_cases hx : x = 0
    · simp [logOf, hx]
    · by_cases hmem : 0 ∈ column
      · simp [hmem]
      · simp [logOf, hx, hmem, Ne.symm hx]

theorem geomMean_eq (column : List ℝ) : geomMean column =
    if 0 ∈ column then 0 else Real.exp ((column.map Real.log).sum / column.length) := by
  rw [geomMean, sum_logOf]
  split
  · rfl
  · rfl

theorem geomMean_nonneg (column : List ℝ) : 0 ≤ geomMean column := by
  rw [geomMean_eq]
  split
  · exact le_refl 0
  · exact (Real.exp_pos _).le

theorem exp_sum_log {column : List ℝ} (hpos : ∀ x ∈ column, 0 < x) :
    Real.exp (column.map Real.log).sum = column.prod := by
  induction column with
  | nil => simp
  | cons x column ih =>
    obtain ⟨hx, hrest⟩ := List.forall_mem_cons.mp hpos
    rw [List.map_cons, List.sum_cons, Real.exp_add, Real.exp_log hx, ih hrest, List.prod_cons]

theorem geomMean_pow {column : List ℝ} (hne : column ≠ []) (hnonneg : ∀ x ∈ column, 0 ≤ x) :
    geomMean column ^ column.length = column.prod := by
  have hlen : (column.length : ℝ) ≠ 0 := by simpa using hne
  rw [geomMean_eq]
  split
  · rename_i hzero
    rw [zero_pow (by simpa using hne), List.prod_eq_zero hzero]
  · rename_i hzero
    have hpos : ∀ x ∈ column, 0 < x :=
      fun x hx => lt_of_le_of_ne (hnonneg x hx) fun h => hzero (h ▸ hx)
    rw [← Real.exp_nat_mul, mul_div_cancel₀ _ hlen, exp_sum_log hpos]

/-- The prior of a candidate passes the floor exactly when the product of its probabilities does. -/
theorem lt_geomMean_iff {column : List ℝ} (hne : column ≠ []) (hnonneg : ∀ x ∈ column, 0 ≤ x)
    {floor : ℝ} (hfloor : 0 ≤ floor) :
    floor < geomMean column ↔ floor ^ column.length < column.prod := by
  rw [← geomMean_pow hne hnonneg,
    pow_lt_pow_iff_left₀ hfloor (geomMean_nonneg column) (by simpa using hne)]

theorem sum_log_sub_le {g : ℝ} (hg : 0 < g) {column : List ℝ} (hpos : ∀ x ∈ column, 0 < x) :
    (column.map Real.log).sum - column.length * Real.log g ≤ column.sum / g - column.length := by
  induction column with
  | nil => simp
  | cons x column ih =>
    obtain ⟨hx, hrest⟩ := List.forall_mem_cons.mp hpos
    have hhead := Real.log_le_sub_one_of_pos (div_pos hx hg)
    rw [Real.log_div hx.ne' hg.ne'] at hhead
    have htail := ih hrest
    rw [List.map_cons, List.sum_cons, List.sum_cons, List.length_cons, Nat.cast_succ, add_div]
    linarith

theorem length_mul_log_geomMean {column : List ℝ} (hne : column ≠ [])
    (hpos : 0 < geomMean column) :
    column.length * Real.log (geomMean column) = (column.map Real.log).sum := by
  have hlen : (column.length : ℝ) ≠ 0 := by simpa using hne
  rw [geomMean_eq] at hpos ⊢
  split
  · rename_i hzero
    rw [if_pos hzero] at hpos
    exact absurd hpos (lt_irrefl 0)
  · rw [Real.log_exp, mul_div_cancel₀ _ hlen]

/-- Divided by their geometric mean, positive numbers sum to their count at least. -/
theorem length_le_sum_div {column : List ℝ} (hne : column ≠ []) (hpos : 0 < geomMean column)
    (hcolumn : ∀ x ∈ column, 0 < x) : (column.length : ℝ) ≤ column.sum / geomMean column := by
  have hlog := length_mul_log_geomMean hne hpos
  have hle := sum_log_sub_le hpos hcolumn
  linarith

theorem pos_of_geomMean_pos {column : List ℝ} (hpos : 0 < geomMean column)
    (hnonneg : ∀ x ∈ column, 0 ≤ x) : ∀ x ∈ column, 0 < x := by
  intro x hx
  refine lt_of_le_of_ne (hnonneg x hx) fun hzero => ?_
  rw [geomMean_eq, if_pos (hzero ▸ hx)] at hpos
  exact hpos.false

theorem geomMean_div {column : List ℝ} (hne : column ≠ []) (hpos : 0 < geomMean column)
    (hcolumn : ∀ x ∈ column, 0 < x) :
    geomMean (column.map fun x => x / geomMean column) = 1 := by
  have hlog : ∀ l : List ℝ, (∀ x ∈ l, 0 < x) →
      ((l.map fun x => x / geomMean column).map Real.log).sum =
        (l.map Real.log).sum - l.length * Real.log (geomMean column) := by
    intro l
    induction l with
    | nil => simp
    | cons x l ih =>
      intro hl
      obtain ⟨hx, hrest⟩ := List.forall_mem_cons.mp hl
      simp only [List.map_cons, List.sum_cons, List.length_cons, Nat.cast_succ, ih hrest,
        Real.log_div hx.ne' hpos.ne']
      ring
  have hzero : 0 ∉ column.map fun x => x / geomMean column := by
    intro hmem
    obtain ⟨x, hx, hdiv⟩ := List.mem_map.mp hmem
    exact (div_pos (hcolumn x hx) hpos).ne' hdiv
  rw [geomMean_eq, if_neg hzero, hlog column hcolumn, length_mul_log_geomMean hne hpos]
  simp

noncomputable def pooled (combine : Combine) (column : List ℝ) : ℝ :=
  match combine with
  | .arithmeticMean =>
    (if 1 / 2 ^ 52 < geomMean column then column.sum / geomMean column else column.sum) /
      column.length
  | .logMean => flattened (geomMean column)

theorem prod_unit {column : List ℝ} (hunit : ∀ x ∈ column, 0 ≤ x ∧ x ≤ 1) :
    0 ≤ column.prod ∧ column.prod ≤ 1 := by
  induction column with
  | nil => simp
  | cons x column ih =>
    obtain ⟨hx, hrest⟩ := List.forall_mem_cons.mp hunit
    obtain ⟨hlow, hhigh⟩ := ih hrest
    rw [List.prod_cons]
    exact ⟨mul_nonneg hx.1 hlow, mul_le_one₀ hx.2 hlow hhigh⟩

section Bounds

variable {column : List ℝ} (hne : column ≠ []) (hunit : ∀ x ∈ column, 0 ≤ x ∧ x ≤ 1)
include hne hunit

theorem floor_lt_geomMean_iff :
    1 / 2 ^ 52 < geomMean column ↔ (1 / 2 ^ 52) ^ column.length < column.prod :=
  lt_geomMean_iff hne (fun x hx => (hunit x hx).1) (by positivity)

theorem pooled_of_le (hprod : column.prod ≤ (1 / 2 ^ 52) ^ column.length) :
    pooled .arithmeticMean column = column.sum / column.length := by
  rw [pooled, if_neg fun h => absurd ((floor_lt_geomMean_iff hne hunit).mp h) (not_lt.mpr hprod)]

theorem one_le_pooled (hprod : (1 / 2 ^ 52) ^ column.length < column.prod) :
    1 ≤ pooled .arithmeticMean column := by
  have hfloor := (floor_lt_geomMean_iff hne hunit).mpr hprod
  have hpos : 0 < geomMean column := lt_trans (by positivity) hfloor
  have hlen : (0 : ℝ) < column.length := by exact_mod_cast List.length_pos_of_ne_nil hne
  rw [pooled, if_pos hfloor, le_div_iff₀ hlen, one_mul]
  exact length_le_sum_div hne hpos (pos_of_geomMean_pos hpos fun x hx => (hunit x hx).1)

theorem mean_le_pooled : column.sum / column.length ≤ pooled .arithmeticMean column := by
  have hsum : 0 ≤ column.sum := List.sum_nonneg fun x hx => (hunit x hx).1
  by_cases hfloor : 1 / 2 ^ 52 < geomMean column
  · have hpos : 0 < geomMean column := lt_trans (by positivity) hfloor
    have hone : geomMean column ≤ 1 := by
      have hpow := geomMean_pow hne fun x hx => (hunit x hx).1
      have hprod : column.prod ≤ 1 := (prod_unit hunit).2
      rw [← hpow] at hprod
      exact (pow_le_one_iff_of_nonneg hpos.le (by simpa using hne)).mp hprod
    rw [pooled, if_pos hfloor]
    exact div_le_div_of_nonneg_right (le_div_self hsum hpos hone) (Nat.cast_nonneg _)
  · rw [pooled, if_neg hfloor]

end Bounds

end Means

section Combination

theorem row_keys {M : Type} (value : String × ℝ → M) {read : List (String × ℝ)}
    {mass : String → ℝ} {candidates : List Candidate} (h : read.Perm (rowOf mass candidates)) :
    ((read.map fun e => (e.1, value e)).map Prod.fst).Perm (candidates.map fun c => c.id.text) := by
  rw [List.map_map, ← rowOf_keys]
  exact h.map Prod.fst

variable {candidates : List Candidate} (hn : (candidates.map fun c => c.id.text).Nodup)
  {reads : List (List (String × ℝ))} {masses : List (String → ℝ)}
  (h : List.Forall₂ (fun read mass => read.Perm (rowOf mass candidates)) reads masses)
include hn h

omit hn in
theorem mem_keys_rows {M : Type} (value : String × ℝ → M) (hne : reads ≠ []) (k : String) :
    k ∈ (reads.map fun read => read.map fun e => (e.1, value e)).flatten.map Prod.fst ↔
      k ∈ candidates.map fun c => c.id.text := by
  have hkeys (read : List (String × ℝ)) (hread : read ∈ reads) :
      ((read.map fun e => (e.1, value e)).map Prod.fst).Perm
        (candidates.map fun c => c.id.text) := by
    obtain ⟨i, hi, rfl⟩ := List.getElem_of_mem hread
    exact row_keys value ((List.forall₂_iff_get.mp h).2 i hi (h.length_eq ▸ hi))
  rw [List.map_flatten, List.mem_flatten]
  constructor
  · rintro ⟨keys, hmem, hk⟩
    obtain ⟨row, hrow, rfl⟩ := List.mem_map.mp hmem
    obtain ⟨read, hread, rfl⟩ := List.mem_map.mp hrow
    exact (hkeys read hread).mem_iff.mp hk
  · intro hk
    obtain ⟨read, hread⟩ := List.exists_mem_of_ne_nil reads hne
    exact ⟨_, List.mem_map_of_mem (List.mem_map_of_mem hread), (hkeys read hread).mem_iff.mpr hk⟩

theorem share_rows {M : Type} [AddMonoid M] (value : String × ℝ → M) {c : Candidate}
    (hc : c ∈ candidates) :
    Tally.share (reads.map fun read => read.map fun e => (e.1, value e)).flatten c.id.text =
      (masses.map fun mass => value (c.id.text, mass c.id.text)).sum := by
  induction h with
  | nil => rfl
  | @cons read mass reads masses hrow _ ih =>
    have hkeys := (row_keys value hrow).nodup_iff.mpr hn
    have hmem : (c.id.text, value (c.id.text, mass c.id.text)) ∈
        read.map fun e => (e.1, value e) :=
      List.mem_map_of_mem (f := fun e => (e.1, value e)) (hrow.mem_iff.mpr (mem_rowOf hc))
    rw [List.map_cons, List.flatten_cons, Tally.share_append, Tally.share_of_mem hkeys hmem, ih,
      List.map_cons, List.sum_cons]

theorem tally_rows {M : Type} [AddMonoid M] (value : String × ℝ → M) (hne : reads ≠ []) :
    tally value reads =
      tableOf (fun k => (masses.map fun mass => value (k, mass k)).sum) candidates := by
  have hkeys := mem_keys_rows h value hne
  rw [tally_eq]
  refine eq_tableOf hn (fun c hc => ?_) fun k hk => ?_
  · rw [Tally.get?_foldl_add, if_pos ((hkeys _).mpr (List.mem_map_of_mem hc)),
      share_rows hn h value hc]
    simp
  · rw [Tally.get?_foldl_add, if_neg fun hm => hk ((hkeys k).mp hm)]
    rfl

def column (masses : List (String → ℝ)) (k : String) : List ℝ := masses.map fun mass => mass k

theorem prior_rows (hne : reads ≠ []) : prior Real.log Real.exp reads =
    tableOf (fun k => geomMean (column masses k)) candidates := by
  rw [prior, tally_rows hn h _ hne]
  refine mapValues_tableOf hn _ _ fun c hc => ?_
  simp [geomMean, column, Function.comp_def, h.length_eq]

theorem corrected_rows (hne : reads ≠ []) {c : Candidate} (hc : c ∈ candidates) (x : ℝ) :
    corrected (prior Real.log Real.exp reads) (c.id.text, x) =
      if 1 / 2 ^ 52 < geomMean (column masses c.id.text) then
        x / geomMean (column masses c.id.text) else x := by
  rw [prior_rows hn h hne, corrected, get?_tableOf hn _ hc]
  rfl

theorem combined_rows (combine : Combine) (hne : reads ≠ [])
    (hnonneg : ∀ mass ∈ masses, ∀ k, 0 ≤ mass k) :
    combined Real.log Real.exp combine reads =
      (tableOf (fun k => pooled combine (column masses k)) candidates).entries := by
  have hmasses : masses ≠ [] := by
    rintro rfl
    exact hne (List.forall₂_nil_right_iff.mp h)
  have hcolumn (k : String) : column masses k ≠ [] := by simpa [column] using hmasses
  have hlen (k : String) : (column masses k).length = reads.length := by
    rw [column, List.length_map, h.length_eq]
  have hcolumn_nonneg (k : String) : ∀ x ∈ column masses k, 0 ≤ x := by
    intro x hx
    obtain ⟨mass, hmass, rfl⟩ := List.mem_map.mp hx
    exact hnonneg mass hmass k
  have hcorrected {M : Type} [AddMonoid M] (f : ℝ → M) {c : Candidate} (hc : c ∈ candidates) :
      (masses.map fun mass =>
        f (corrected (prior Real.log Real.exp reads) (c.id.text, mass c.id.text))).sum =
        ((column masses c.id.text).map fun x =>
          f (if 1 / 2 ^ 52 < geomMean (column masses c.id.text) then
            x / geomMean (column masses c.id.text) else x)).sum := by
    rw [column, List.map_map]
    refine congrArg List.sum (List.map_congr_left fun mass _ => ?_)
    rw [corrected_rows hn h hne hc]
    rfl
  cases combine with
  | arithmeticMean =>
    have hmap : combined Real.log Real.exp .arithmeticMean reads =
        ((tally (corrected (prior Real.log Real.exp reads)) reads).mapValues fun _ x =>
          if (1 : ℝ) < reads.length then x / reads.length else x).entries := rfl
    rw [hmap, tally_rows hn h _ hne]
    refine congrArg OrdMap.entries (mapValues_tableOf hn _ _ fun c hc => ?_)
    have hscale (x : ℝ) : (if (1 : ℝ) < reads.length then x / reads.length else x) =
        x / reads.length := by
      split
      · rfl
      · rename_i hle
        have hone : reads.length = 1 := by
          have hle : reads.length ≤ 1 := by exact_mod_cast not_lt.mp hle
          exact le_antisymm hle (List.length_pos_of_ne_nil hne)
        rw [hone, Nat.cast_one, div_one]
    have hsum := hcorrected (fun x => x) hc
    beta_reduce at hsum
    rw [hscale, hsum, pooled, hlen]
    congr 1
    split
    · simp only [div_eq_mul_inv, List.sum_map_mul_right, List.map_id']
    · rw [List.map_id']
  | logMean =>
    have hmap : combined Real.log Real.exp .logMean reads =
        ((tally (fun e => logOf Real.log (corrected (prior Real.log Real.exp reads) e))
          reads).mapValues fun _ x => logMeanOf Real.exp reads.length x).entries := rfl
    rw [hmap, tally_rows hn h _ hne]
    refine congrArg OrdMap.entries (mapValues_tableOf hn _ _ fun c hc => ?_)
    rw [hcorrected (logOf Real.log) hc, pooled, flattened]
    have hfold (l : List ℝ) (hl : l.length = reads.length) :
        logMeanOf Real.exp reads.length (l.map (logOf Real.log)).sum = geomMean l := by
      rw [geomMean, hl]
    split
    · rename_i hfloor
      have hpos : 0 < geomMean (column masses c.id.text) := lt_trans (by positivity) hfloor
      have hone := geomMean_div (hcolumn _) hpos (pos_of_geomMean_pos hpos (hcolumn_nonneg _))
      have hdivided := hfold ((column masses c.id.text).map fun x =>
        x / geomMean (column masses c.id.text)) (by rw [List.length_map, hlen])
      rw [hone, List.map_map] at hdivided
      exact hdivided
    · exact hfold _ (hlen _)

end Combination

section Answers

noncomputable def realRow (d : Distribution) : List (String × ℝ) :=
  d.entries.map fun e => (e.key, (e.probability : ℝ))

noncomputable def massOf (d : Distribution) (k : String) : ℝ := ((d.probabilityOf k).getD 0 : ℚ)

/-- A read of a question over these candidates, in any order. -/
def Over (candidates : List Candidate) (d : Distribution) : Prop :=
  (d.entries.map DistributionEntry.key).Perm (candidates.map fun c => c.id.text)

theorem massOf_of_mem {d : Distribution} {e : DistributionEntry} (he : e ∈ d.entries) :
    massOf d e.key = e.probability := by
  rw [massOf, Distribution.probabilityOf_of_mem he]
  rfl

theorem massOf_unit (d : Distribution) (k : String) : 0 ≤ massOf d k ∧ massOf d k ≤ 1 := by
  cases hfind : d.entries.find? fun e => e.key = k with
  | none => simp [massOf, Distribution.probabilityOf, hfind]
  | some e =>
    have he : e ∈ d.entries := List.mem_of_find?_eq_some hfind
    have hkey : e.key = k := by simpa using List.find?_some hfind
    obtain ⟨hlow, hhigh⟩ := d.unit e he
    rw [← hkey, massOf_of_mem he]
    exact ⟨by exact_mod_cast hlow, by exact_mod_cast hhigh⟩

theorem realRow_perm {candidates : List Candidate} {d : Distribution} (h : Over candidates d) :
    (realRow d).Perm (rowOf (massOf d) candidates) := by
  have hrow : realRow d = (d.entries.map DistributionEntry.key).map fun k => (k, massOf d k) := by
    rw [realRow, List.map_map]
    exact List.map_congr_left fun e he => by rw [Function.comp_apply, massOf_of_mem he]
  rw [hrow, rowOf]
  simpa only [List.map_map, Function.comp_def] using h.map fun k => (k, massOf d k)

/-- The candidate that the reads decide for, none when they are left without mass. -/
noncomputable def answerOf (combine : Combine) (reads : List Distribution) : Option String :=
  (normalize (combined Real.log Real.exp combine (reads.map realRow))).bind fun entries =>
    (Extremum.lastMax Prod.snd entries).map Prod.fst

noncomputable def standing (combine : Combine) (reads : List Distribution) (k : String) : ℝ :=
  pooled combine (column (reads.map massOf) k)

theorem pooled_nonneg (combine : Combine) {column : List ℝ} (hnonneg : ∀ x ∈ column, 0 ≤ x) :
    0 ≤ pooled combine column := by
  have hsum : 0 ≤ column.sum := List.sum_nonneg hnonneg
  have hmean := geomMean_nonneg column
  cases combine with
  | arithmeticMean =>
    rw [pooled]
    split
    · positivity
    · positivity
  | logMean =>
    rw [pooled, flattened]
    split
    · exact zero_le_one
    · exact hmean

theorem standing_nonneg (combine : Combine) (reads : List Distribution) (k : String) :
    0 ≤ standing combine reads k := by
  refine pooled_nonneg combine fun x hx => ?_
  obtain ⟨mass, hmass, rfl⟩ := List.mem_map.mp hx
  obtain ⟨d, -, rfl⟩ := List.mem_map.mp hmass
  exact (massOf_unit d k).1

variable {candidates : List Candidate} (hn : (candidates.map fun c => c.id.text).Nodup)
  {reads : List Distribution} (hne : reads ≠ []) (hover : ∀ d ∈ reads, Over candidates d)
include hn hne hover

theorem combined_over (combine : Combine) :
    combined Real.log Real.exp combine (reads.map realRow) =
      (tableOf (standing combine reads) candidates).entries := by
  have hrows : List.Forall₂ (fun read mass => read.Perm (rowOf mass candidates))
      (reads.map realRow) (reads.map massOf) := by
    rw [List.forall₂_map_left_iff, List.forall₂_map_right_iff, List.forall₂_same]
    exact fun d hd => realRow_perm (hover d hd)
  refine combined_rows hn hrows combine (by simpa using hne) fun mass hmass k => ?_
  obtain ⟨d, -, rfl⟩ := List.mem_map.mp hmass
  exact (massOf_unit d k).1

omit hne hover in
theorem mem_entries_tableOf {f : String → ℝ} {e : String × ℝ} :
    e ∈ (tableOf f candidates).entries ↔
      e.1 ∈ (candidates.map fun c => c.id.text) ∧ e.2 = f e.1 := by
  rw [(tableOf_entries hn f).mem_iff, List.mem_map, List.mem_map]
  constructor
  · rintro ⟨c, hc, rfl⟩
    exact ⟨⟨c, hc, rfl⟩, rfl⟩
  · rintro ⟨⟨c, hc, hkey⟩, hvalue⟩
    exact ⟨c, hc, Prod.ext hkey (by rw [hvalue, ← hkey])⟩

/-- The reads decide for the candidate that holds most, the last in the order of the keys among
equals, as long as it holds anything. -/
theorem answerOf_eq_some_iff (combine : Combine) (w : String) :
    answerOf combine reads = some w ↔ w ∈ (candidates.map fun c => c.id.text) ∧
      0 < standing combine reads w ∧ ∀ k ∈ candidates.map fun c => c.id.text, k ≠ w →
        standing combine reads k < standing combine reads w ∨
          standing combine reads k = standing combine reads w ∧ k < w := by
  rw [answerOf, combined_over hn hne hover, normalize]
  generalize hV : standing combine reads = V
  have hnonneg (k : String) : 0 ≤ V k := hV ▸ standing_nonneg combine reads k
  have hmem {e : String × ℝ} := mem_entries_tableOf hn (f := V) (e := e)
  set table := tableOf V candidates with htable
  have hholds {k : String} (hk : k ∈ candidates.map fun c => c.id.text) :
      (k, V k) ∈ table.entries :=
    hmem.mpr ⟨hk, rfl⟩
  by_cases htotal : (table.entries.map Prod.snd).sum ≤ 0
  · have hzero {k : String} (hk : k ∈ candidates.map fun c => c.id.text) : V k ≤ 0 := by
      refine (List.single_le_sum ?_ _ (List.mem_map_of_mem (hholds hk))).trans htotal
      intro x hx
      obtain ⟨e, he, rfl⟩ := List.mem_map.mp hx
      rw [(hmem.mp he).2]
      exact hnonneg e.1
    rw [if_pos htotal]
    simp only [Option.bind_none, reduceCtorEq, false_iff]
    rintro ⟨hw, hpos, -⟩
    exact absurd hpos (not_lt.mpr (hzero hw))
  · rw [if_neg htotal, Option.bind_some, Option.map_eq_some_iff]
    have hpos := not_le.mp htotal
    have hsorted : (table.entries.map fun e =>
        (e.1, e.2 / (table.entries.map Prod.snd).sum)).Pairwise fun a b => a.1 < b.1 :=
      List.pairwise_map.mpr table.sorted
    have hasymm : ∀ a b : String × ℝ, a.1 < b.1 → ¬ b.1 < a.1 := fun _ _ h => h.asymm
    simp only [Extremum.lastMax_eq_some_iff hasymm hsorted]
    obtain ⟨best, hbestmem, hbestpos⟩ : ∃ k ∈ candidates.map fun c => c.id.text, 0 < V k := by
      obtain ⟨e, he, hlt⟩ := List.exists_lt_of_sum_lt (fun _ : String × ℝ => (0 : ℝ)) Prod.snd
        (by simpa using hpos)
      obtain ⟨hk, hv⟩ := hmem.mp he
      exact ⟨e.1, hk, hv ▸ hlt⟩
    generalize (table.entries.map Prod.snd).sum = total at htotal hpos
    constructor
    · rintro ⟨e, ⟨he, hbest⟩, rfl⟩
      obtain ⟨⟨w, x⟩, hentry, rfl⟩ := List.mem_map.mp he
      obtain ⟨hw, hx⟩ := hmem.mp hentry
      simp only at hw hx hbest ⊢
      subst hx
      have hrival (k : String) (hk : k ∈ candidates.map fun c => c.id.text) (hkw : k ≠ w) :
          V k < V w ∨ V k = V w ∧ k < w := by
        have h := hbest (k, V k / total)
          (List.mem_map_of_mem (f := fun e : String × ℝ => (e.1, e.2 / total)) (hholds hk))
          fun heq => hkw (congrArg Prod.fst heq)
        rwa [div_lt_div_iff_of_pos_right hpos, div_left_inj' hpos.ne'] at h
      refine ⟨hw, ?_, hrival⟩
      by_cases hsame : best = w
      · exact hsame ▸ hbestpos
      · rcases hrival best hbestmem hsame with hlt | ⟨heq, -⟩
        · exact hbestpos.trans hlt
        · exact heq ▸ hbestpos
    · rintro ⟨hw, -, hbest⟩
      refine ⟨(w, V w / total), ⟨List.mem_map_of_mem
        (f := fun e : String × ℝ => (e.1, e.2 / total)) (hholds hw), fun e he hne => ?_⟩, rfl⟩
      obtain ⟨⟨k, x⟩, hentry, rfl⟩ := List.mem_map.mp he
      obtain ⟨hk, hx⟩ := hmem.mp hentry
      simp only at hk hx hne ⊢
      subst hx
      rw [div_lt_div_iff_of_pos_right hpos, div_left_inj' hpos.ne']
      exact hbest k hk fun hkw => hne (by rw [hkw])

end Answers

end RotationReadout

end OpenCodifier
