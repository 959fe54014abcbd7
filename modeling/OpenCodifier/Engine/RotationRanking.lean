import Mathlib.Analysis.SpecialFunctions.Log.Basic
import OpenCodifier.Lib.Tally
import OpenCodifier.Engine.Rotation
set_option autoImplicit false

namespace OpenCodifier

namespace RotationReadout

attribute [local instance] two_atLeastTwo

section Exact

variable {K : Type} [Field K] [LinearOrder K] (ln exp : K → K)

def readoutOver (combine : Combine) (inner : List Candidate → List (String × K)) (taken : Nat)
    (candidates : List Candidate) : Option (List (String × K)) :=
  if candidates.length < 2 then some (inner candidates)
  else normalize (combined ln exp combine (((rotations candidates).take taken).map inner))

def rowOf (mass : String → K) (candidates : List Candidate) : List (String × K) :=
  candidates.map fun c => (c.id.text, mass c.id.text)

/-- A classifier whose positive probabilities do not depend on the order of the candidates. -/
structure OrderFree (inner : List Candidate → List (String × K)) (mass : String → K)
    (candidates : List Candidate) : Prop where
  positive : ∀ c ∈ candidates, 0 < mass c.id.text
  rows : ∀ shown : List Candidate, shown.Perm candidates →
    (inner shown).Perm (rowOf mass candidates)

/-- The output orders the candidates as the masses do, and its top has the largest mass. -/
def KeepsRanking (out : Option (List (String × K))) (mass : String → K)
    (candidates : List Candidate) : Prop :=
  ∃ entries, out = some entries ∧
    ∃ weight : String → K, entries.Perm (rowOf weight candidates) ∧
      (∀ a ∈ candidates, ∀ b ∈ candidates,
        mass b.id.text < mass a.id.text → weight b.id.text < weight a.id.text) ∧
      ∀ top, Extremum.lastMax Prod.snd entries = some top →
        ∀ b ∈ candidates, mass b.id.text ≤ mass top.1

omit [Field K] [LinearOrder K] in
theorem rowOf_keys (mass : String → K) (candidates : List Candidate) :
    (rowOf mass candidates).map Prod.fst = candidates.map fun c => c.id.text := by
  simp [rowOf, Function.comp_def]

omit [Field K] [LinearOrder K] in
theorem mem_rowOf {mass : String → K} {candidates : List Candidate} {c : Candidate}
    (hc : c ∈ candidates) : (c.id.text, mass c.id.text) ∈ rowOf mass candidates :=
  List.mem_map_of_mem hc

omit [Field K] [LinearOrder K] in
theorem tally_eq {M : Type} [AddMonoid M] (value : String × K → M)
    (reads : List (List (String × K))) :
    tally value reads =
      (reads.map fun read => read.map fun e => (e.1, value e)).flatten.foldl
        Tally.add OrdMap.empty := by
  rw [List.foldl_flatten, List.foldl_map, tally]
  simp only [List.foldl_map]
  rfl

def tableOf {M : Type} (f : String → M) (candidates : List Candidate) : OrdMap String M :=
  OrdMap.ofList (candidates.map fun c => (c.id.text, f c.id.text))

section Tables

variable {M : Type} {candidates : List Candidate}
  (hn : (candidates.map fun c => c.id.text).Nodup)
include hn

theorem get?_tableOf (f : String → M) {c : Candidate} (hc : c ∈ candidates) :
    (tableOf f candidates).get? c.id.text = some (f c.id.text) :=
  OrdMap.get?_ofList_of_mem (by simpa [Function.comp_def] using hn)
    (List.mem_map_of_mem (f := fun c : Candidate => (c.id.text, f c.id.text)) hc)

theorem get?_tableOf_none (f : String → M) {k : String}
    (hk : k ∉ candidates.map fun c => c.id.text) : (tableOf f candidates).get? k = none := by
  rw [tableOf, OrdMap.get?_ofList (by simpa [Function.comp_def] using hn)]
  have hnone : (candidates.map fun c => (c.id.text, f c.id.text)).find?
      (fun e => e.1 = k) = none := by
    refine List.find?_eq_none.mpr fun e he hek => hk ?_
    obtain ⟨c, hc, rfl⟩ := List.mem_map.mp he
    exact List.mem_map.mpr ⟨c, hc, of_decide_eq_true hek⟩
  rw [hnone]
  rfl

theorem eq_tableOf {f : String → M} {m : OrdMap String M}
    (hself : ∀ c ∈ candidates, m.get? c.id.text = some (f c.id.text))
    (hnone : ∀ k, k ∉ (candidates.map fun c => c.id.text) → m.get? k = none) :
    m = tableOf f candidates := by
  refine OrdMap.ext_get? fun k => ?_
  by_cases hk : k ∈ candidates.map fun c => c.id.text
  · obtain ⟨c, hc, rfl⟩ := List.mem_map.mp hk
    rw [hself c hc, get?_tableOf hn f hc]
  · rw [hnone k hk, get?_tableOf_none hn f hk]

theorem mapValues_tableOf {N : Type} (f : String → M) (g : String → M → N) {v : String → N}
    (h : ∀ c ∈ candidates, g c.id.text (f c.id.text) = v c.id.text) :
    (tableOf f candidates).mapValues g = tableOf v candidates := by
  refine eq_tableOf hn (fun c hc => ?_) fun k hk => ?_
  · rw [OrdMap.get?_mapValues, get?_tableOf hn f hc, Option.map_some, h c hc]
  · rw [OrdMap.get?_mapValues, get?_tableOf_none hn f hk, Option.map_none]

theorem tableOf_entries (f : String → M) :
    (tableOf f candidates).entries.Perm (candidates.map fun c => (c.id.text, f c.id.text)) := by
  have hkeys : ((candidates.map fun c => (c.id.text, f c.id.text)).map Prod.fst).Nodup := by
    simpa [Function.comp_def] using hn
  refine (List.perm_ext_iff_of_nodup (OrdMap.nodup_entries _) (List.Nodup.of_map _ hkeys)).mpr
    fun e => ?_
  obtain ⟨k, x⟩ := e
  rw [OrdMap.mem_entries_iff]
  constructor
  · intro h
    by_cases hk : k ∈ candidates.map fun c => c.id.text
    · obtain ⟨c, hc, rfl⟩ := List.mem_map.mp hk
      rw [get?_tableOf hn f hc, Option.some.injEq] at h
      exact List.mem_map.mpr ⟨c, hc, by rw [h]⟩
    · rw [get?_tableOf_none hn f hk] at h
      cases h
  · intro h
    obtain ⟨c, hc, he⟩ := List.mem_map.mp h
    cases he
    exact get?_tableOf hn f hc

end Tables

omit [Field K] [LinearOrder K] in
theorem tally_same {M : Type} [AddMonoid M] (value : String × K → M) {mass : String → K}
    {candidates : List Candidate} (hn : (candidates.map fun c => c.id.text).Nodup)
    {reads : List (List (String × K))} (hne : reads ≠ [])
    (h : ∀ read ∈ reads, read.Perm (rowOf mass candidates)) :
    tally value reads = tableOf (fun k => reads.length • value (k, mass k)) candidates := by
  have hrows : ∀ r ∈ reads.map (fun read => read.map fun e => (e.1, value e)),
      r.Perm (candidates.map fun c => (c.id.text, value (c.id.text, mass c.id.text))) := by
    intro r hr
    obtain ⟨read, hread, rfl⟩ := List.mem_map.mp hr
    simpa [rowOf, Function.comp_def] using (h read hread).map fun e => (e.1, value e)
  have hkeys : ((candidates.map fun c =>
      (c.id.text, value (c.id.text, mass c.id.text))).map Prod.fst).Nodup := by
    simpa [Function.comp_def] using hn
  have hget := Tally.get?_collect hkeys (by simpa using hne) hrows
  rw [List.length_map] at hget
  rw [tally_eq]
  refine eq_tableOf hn (fun c hc => ?_) fun k hk => ?_
  · rw [hget]
    exact congrArg _ (get?_tableOf hn (fun k => value (k, mass k)) hc)
  · rw [hget]
    exact congrArg _ (get?_tableOf_none hn (fun k => value (k, mass k)) hk)

/-- What is left of a mass after it has been divided by itself. -/
def flattened (x : K) : K := if 1 / 2 ^ 52 < x then 1 else x

variable [IsStrictOrderedRing K]

theorem flattened_pos {x : K} (hx : 0 < x) : 0 < flattened x := by
  unfold flattened
  split
  · exact one_pos
  · exact hx

variable {ln exp}

theorem logMeanOf_nsmul (hlaw : ∀ x, 0 < x → exp (ln x) = x) {n : Nat} (hn : n ≠ 0) {x : K}
    (hx : 0 < x) : logMeanOf exp n (n • logOf ln x) = x := by
  have hcast : (n : K) ≠ 0 := Nat.cast_ne_zero.mpr hn
  have hlog : logOf ln x = (ln x : WithBot K) := if_neg hx.ne'
  rw [hlog, ← WithBot.coe_nsmul, logMeanOf, WithBot.map_coe, expOf, WithBot.map_coe,
    WithBot.unbotD_coe, nsmul_eq_mul, mul_div_cancel_left₀ _ hcast, hlaw x hx]

section SameReads

variable {mass : String → K} {candidates : List Candidate}
  (hn : (candidates.map fun c => c.id.text).Nodup) (hpos : ∀ c ∈ candidates, 0 < mass c.id.text)
  (hlaw : ∀ x, 0 < x → exp (ln x) = x) {reads : List (List (String × K))} (hne : reads ≠ [])
  (h : ∀ read ∈ reads, read.Perm (rowOf mass candidates))
include hn hpos hlaw hne h

theorem prior_same : prior ln exp reads = tableOf mass candidates := by
  rw [prior, tally_same _ hn hne h]
  exact mapValues_tableOf hn _ _ fun c hc =>
    logMeanOf_nsmul hlaw (mt List.length_eq_zero_iff.mp hne) (hpos c hc)

theorem corrected_same {c : Candidate} (hc : c ∈ candidates) :
    corrected (prior ln exp reads) (c.id.text, mass c.id.text) = flattened (mass c.id.text) := by
  rw [prior_same hn hpos hlaw hne h, corrected, get?_tableOf hn mass hc]
  simp only [Option.getD_some, flattened, div_self (hpos c hc).ne']

theorem combined_same (combine : Combine) :
    (combined ln exp combine reads).Perm (rowOf (fun k => flattened (mass k)) candidates) := by
  have hlen : reads.length ≠ 0 := mt List.length_eq_zero_iff.mp hne
  have hcast : (reads.length : K) ≠ 0 := Nat.cast_ne_zero.mpr hlen
  cases combine with
  | arithmeticMean =>
    rw [combined, tally_same _ hn hne h]
    refine ((tableOf_entries hn _).map _).trans (List.Perm.of_eq ?_)
    rw [List.map_map]
    refine List.map_congr_left fun c hc => ?_
    simp only [Function.comp_apply, corrected_same hn hpos hlaw hne h hc, nsmul_eq_mul]
    split
    · rw [mul_div_cancel_left₀ _ hcast]
    · rename_i hle
      have hone : reads.length = 1 := by
        have : reads.length ≤ 1 := by exact_mod_cast not_lt.mp hle
        omega
      rw [hone, Nat.cast_one, one_mul]
  | logMean =>
    rw [combined, tally_same _ hn hne h]
    refine ((tableOf_entries hn _).map _).trans (List.Perm.of_eq ?_)
    rw [List.map_map]
    refine List.map_congr_left fun c hc => ?_
    simp only [Function.comp_apply, corrected_same hn hpos hlaw hne h hc]
    rw [logMeanOf_nsmul hlaw hlen (flattened_pos (hpos c hc))]

/-- The readout over equal reads. -/
theorem normalize_same (hcand : candidates ≠ []) (combine : Combine) :
    ∃ total entries, 0 < total ∧
      normalize (combined ln exp combine reads) = some entries ∧
      entries.Perm (rowOf (fun k => flattened (mass k) / total) candidates) := by
  have hp := combined_same hn hpos hlaw hne h combine
  have hsum : ((combined ln exp combine reads).map Prod.snd).sum =
      (candidates.map fun c => flattened (mass c.id.text)).sum := by
    rw [(hp.map Prod.snd).sum_eq, rowOf, List.map_map]
    rfl
  have htotal : 0 < (candidates.map fun c => flattened (mass c.id.text)).sum := by
    refine List.sum_pos _ ?_ (by simpa using hcand)
    intro x hx
    obtain ⟨c, hc, rfl⟩ := List.mem_map.mp hx
    exact flattened_pos (hpos c hc)
  rw [normalize, hsum, if_neg (not_le.mpr htotal)]
  refine ⟨_, _, htotal, rfl, (hp.map _).trans (List.Perm.of_eq ?_)⟩
  rw [rowOf, rowOf, List.map_map]
  rfl

end SameReads

omit [Field K] [IsStrictOrderedRing K] in
theorem keepsRanking_of_perm {entries : List (String × K)} {weight mass : String → K}
    {candidates : List Candidate} (hn : (candidates.map fun c => c.id.text).Nodup)
    (hp : entries.Perm (rowOf weight candidates)) :
    KeepsRanking (some entries) mass candidates ↔
      ∀ a ∈ candidates, ∀ b ∈ candidates,
        mass b.id.text < mass a.id.text → weight b.id.text < weight a.id.text := by
  constructor
  · rintro ⟨_, he, other, hother, hkeep, -⟩ a ha b hb hlt
    cases he
    have heq : ∀ c ∈ candidates, weight c.id.text = other c.id.text := by
      intro c hc
      have hkeys : ((rowOf weight candidates).map Prod.fst).Nodup := by rwa [rowOf_keys]
      have hmem : (c.id.text, other c.id.text) ∈ rowOf weight candidates :=
        (hp.symm.trans hother).mem_iff.mpr (mem_rowOf hc)
      exact congrArg Prod.snd (List.inj_on_of_nodup_map hkeys (mem_rowOf hc) hmem rfl)
    rw [heq a ha, heq b hb]
    exact hkeep a ha b hb hlt
  · intro hkeep
    refine ⟨entries, rfl, weight, hp, hkeep, fun top htop b hb => ?_⟩
    obtain ⟨a, ha, he⟩ := List.mem_map.mp (hp.mem_iff.mp (Extremum.lastMax_mem htop))
    subst he
    by_contra hlt
    have hle := Extremum.le_lastMax htop _ (hp.mem_iff.mpr (mem_rowOf hb))
    exact absurd (hkeep b hb a ha (not_le.mp hlt)) (not_lt.mpr hle)

/-- Dividing masses by themselves keeps their order where those that are divided are equal. -/
theorem flattened_keeps_iff (mass : String → K) (candidates : List Candidate) :
    (∀ a ∈ candidates, ∀ b ∈ candidates, mass b.id.text < mass a.id.text →
      flattened (mass b.id.text) < flattened (mass a.id.text)) ↔
    ∀ a ∈ candidates, ∀ b ∈ candidates, 1 / 2 ^ 52 < mass a.id.text →
      1 / 2 ^ 52 < mass b.id.text → mass a.id.text = mass b.id.text := by
  constructor
  · intro h a ha b hb hea heb
    have hflat : flattened (mass a.id.text) = flattened (mass b.id.text) := by
      rw [flattened, flattened, if_pos hea, if_pos heb]
    rcases lt_trichotomy (mass a.id.text) (mass b.id.text) with hlt | heq | hlt
    · exact absurd hflat (h b hb a ha hlt).ne
    · exact heq
    · exact absurd hflat (h a ha b hb hlt).ne'
  · intro h a ha b hb hlt
    by_cases hea : 1 / 2 ^ 52 < mass a.id.text
    · by_cases heb : 1 / 2 ^ 52 < mass b.id.text
      · exact absurd (h a ha b hb hea heb) hlt.ne'
      · have hsmall : (1 / 2 ^ 52 : K) < 1 := by
          rw [div_lt_one (by positivity)]
          exact one_lt_pow₀ one_lt_two (by decide)
        rw [flattened, flattened, if_neg heb, if_pos hea]
        exact (not_lt.mp heb).trans_lt hsmall
    · have heb : ¬ 1 / 2 ^ 52 < mass b.id.text := fun hb => hea (hb.trans hlt)
      rwa [flattened, flattened, if_neg heb, if_neg hea]

/-- The readout keeps the ranking of an order-free classifier exactly when all masses that it
divides out are equal. -/
theorem keeps_iff (hlaw : ∀ x, 0 < x → exp (ln x) = x) {candidates : List Candidate}
    (hn : (candidates.map fun c => c.id.text).Nodup) (combine : Combine)
    {inner : List Candidate → List (String × K)} {mass : String → K} {taken : Nat}
    (htaken : 0 < taken) (hfree : OrderFree inner mass candidates) :
    KeepsRanking (readoutOver ln exp combine inner taken candidates) mass candidates ↔
      ∀ a ∈ candidates, ∀ b ∈ candidates, 1 / 2 ^ 52 < mass a.id.text →
        1 / 2 ^ 52 < mass b.id.text → mass a.id.text = mass b.id.text := by
  rw [readoutOver]
  split
  · rename_i hshort
    rw [keepsRanking_of_perm hn (hfree.rows candidates (List.Perm.refl _))]
    have hsingle : ∀ a ∈ candidates, ∀ b ∈ candidates, a = b := by
      rcases candidates with _ | ⟨c, _ | ⟨d, rest⟩⟩
      · simp
      · simp
      · simp at hshort
    constructor
    · intro _ a ha b hb _ _
      rw [hsingle a ha b hb]
    · exact fun _ a ha b hb hlt => hlt
  · rename_i hlong
    have hreads : ∀ read ∈ ((rotations candidates).take taken).map inner,
        read.Perm (rowOf mass candidates) := by
      intro read hread
      obtain ⟨shown, hshown, rfl⟩ := List.mem_map.mp hread
      obtain ⟨i, -, rfl⟩ := List.mem_map.mp (List.mem_of_mem_take hshown)
      exact hfree.rows _ (List.rotate_perm candidates i)
    have hne : ((rotations candidates).take taken).map inner ≠ [] := by
      intro hnil
      have hlen := congrArg List.length hnil
      simp only [rotations, List.length_map, List.length_take, List.length_range,
        List.length_nil] at hlen
      omega
    have hcand : candidates ≠ [] := by
      rintro rfl
      exact hlong (by decide)
    obtain ⟨total, entries, htotal, hout, hp⟩ :=
      normalize_same hn hfree.positive hlaw hne hreads hcand combine
    rw [hout, keepsRanking_of_perm hn hp, ← flattened_keeps_iff]
    simp only [div_lt_div_iff_of_pos_right htotal]

end Exact

section Runs

variable [RustStd] (readout : RotationReadout) (state : State) (choice : ChoiceQuestion)

def entriesOf (d : Distribution) : List (String × ℚ) :=
  d.entries.map fun e => (e.key, e.probability)

/-- The inner classifier answers the question over its candidates in any order. -/
def Answers (answer : List Candidate → Distribution) : Prop :=
  ∀ question : ChoiceQuestion, question.id = choice.id → question.text = choice.text →
    question.candidates.Perm choice.candidates →
    readout.inner.decide state (.choice question) = .ok (answer question.candidates)

theorem rerender_perm {shown : List Candidate} (h : shown.Perm choice.candidates) :
    ∃ question : ChoiceQuestion, rerender choice shown = .ok question ∧
      question.id = choice.id ∧ question.text = choice.text ∧ question.candidates = shown := by
  have hne : shown ≠ [] := by
    rintro rfl
    exact choice.candidates_ne h.symm.eq_nil
  let question : ChoiceQuestion := ⟨choice.id, choice.text, shown, choice.text_ne, hne,
    (h.map Candidate.id).nodup_iff.mpr choice.unique⟩
  have hnew : ChoiceQuestion.new choice.id.text choice.text shown = .ok question :=
    question.new_self
  exact ⟨question, by rw [rerender, hnew], rfl, rfl, rfl⟩

variable {readout state choice}

/-- The reads taken are those of the first rotations, all of them without an early exit. -/
theorem readRotations_answers {answer : List Candidate → Distribution}
    (h : Answers readout state choice answer) (total : Nat) {shown : List (List Candidate)}
    (hperm : ∀ rotated ∈ shown, rotated.Perm choice.candidates) (reads : List Distribution) :
    ∃ n, (shown ≠ [] → 0 < n) ∧ (readout.earlyExit = none → n = shown.length) ∧
      readout.readRotations state choice total shown reads =
        .ok (reads ++ (shown.take n).map answer) := by
  induction shown generalizing reads with
  | nil => exact ⟨0, by simp [readRotations]⟩
  | cons rotated rest ih =>
    obtain ⟨question, hnew, hid, htext, hcand⟩ :=
      rerender_perm choice (hperm rotated List.mem_cons_self)
    have hread : readout.inner.decide state (.choice question) = .ok (answer rotated) := by
      rw [h question hid htext (hcand ▸ hperm rotated List.mem_cons_self), hcand]
    simp only [readRotations, hnew, hread, bind, Except.bind]
    split
    · rename_i hexit
      refine ⟨1, fun _ => one_pos, fun hnone => ?_, by simp⟩
      simp [exits, hnone] at hexit
    · obtain ⟨n, -, hall, hrun⟩ :=
        ih (fun r hr => hperm r (List.mem_cons_of_mem _ hr)) (reads ++ [answer rotated])
      refine ⟨n + 1, fun _ => Nat.succ_pos n, fun hnone => ?_, ?_⟩
      · rw [hall hnone, List.length_cons]
      · rw [hrun]
        simp

/-- A decision is the readout in the arithmetic of the source, over the reads taken. -/
theorem decide_readoutOver {answer : List Candidate → Distribution}
    (h : Answers readout state choice answer) {d : Distribution}
    (hd : readout.decide state (.choice choice) = .ok d) :
    ∃ taken, 0 < taken ∧ (readout.earlyExit = none → taken = choice.candidates.length) ∧
      readoutOver RustStd.ln RustStd.exp readout.combine (fun shown => entriesOf (answer shown))
        taken choice.candidates = some (entriesOf d) := by
  have hlen : 0 < choice.candidates.length := List.length_pos_of_ne_nil choice.candidates_ne
  rw [decide] at hd
  split at hd
  · rename_i hshort
    rw [h choice rfl rfl (List.Perm.refl _), Except.ok.injEq] at hd
    refine ⟨choice.candidates.length, hlen, fun _ => rfl, ?_⟩
    rw [readoutOver, if_pos hshort, hd]
  · rename_i hlong
    have hperm : ∀ rotated ∈ rotations choice.candidates, rotated.Perm choice.candidates := by
      intro rotated hrot
      obtain ⟨i, -, rfl⟩ := List.mem_map.mp hrot
      exact List.rotate_perm _ i
    have hcount : (rotations choice.candidates).length = choice.candidates.length := by
      simp [rotations]
    obtain ⟨n, hpos, hall, hrun⟩ :=
      readRotations_answers h (rotations choice.candidates).length hperm []
    simp only [hrun, bind, Except.bind, List.nil_append] at hd
    refine ⟨n, hpos fun hnil => ?_, fun hnone => (hall hnone).trans hcount, ?_⟩
    · rw [hnil, List.length_nil] at hcount
      omega
    · rw [readoutOver, if_neg hlong]
      unfold combineReads at hd
      simp only [List.map_map] at hd
      split at hd
      · cases hd
      · rename_i entries hout
        split at hd
        · rename_i d' hnew
          rw [Except.ok.injEq] at hd
          have he := Distribution.new_entries hnew
          rw [hd] at he
          have hsame : entriesOf d = entries := by
            rw [entriesOf, he, List.map_map]
            exact List.map_id _
          rw [hsame]
          exact hout
        · cases hd

/-- The same for the decision itself, in an arithmetic where the exponential takes the logarithm
back. -/
theorem decide_keeps_iff (hlaw : ∀ x, 0 < x → RustStd.exp (RustStd.ln x) = x)
    {answer : List Candidate → Distribution} (h : Answers readout state choice answer)
    {mass : String → ℚ}
    (hfree : OrderFree (fun shown => entriesOf (answer shown)) mass choice.candidates)
    {d : Distribution} (hd : readout.decide state (.choice choice) = .ok d) :
    KeepsRanking (some (entriesOf d)) mass choice.candidates ↔
      ∀ a ∈ choice.candidates, ∀ b ∈ choice.candidates, 1 / 2 ^ 52 < mass a.id.text →
        1 / 2 ^ 52 < mass b.id.text → mass a.id.text = mass b.id.text := by
  obtain ⟨taken, htaken, -, hout⟩ := decide_readoutOver h hd
  rw [← hout]
  exact keeps_iff hlaw choice.unique_texts readout.combine htaken hfree

end Runs

/-- Over the reals, the readout of any number of reads keeps the ranking of a classifier that
does not depend on the order of the candidates exactly when no two candidates have different
masses that are both above the source's floor. -/
theorem keepsRanking_iff (choice : ChoiceQuestion) (combine : Combine)
    (inner : List Candidate → List (String × ℝ)) (mass : String → ℝ) (taken : Nat)
    (htaken : 0 < taken) (hfree : OrderFree inner mass choice.candidates) :
    KeepsRanking (readoutOver Real.log Real.exp combine inner taken choice.candidates) mass
        choice.candidates ↔
      ∀ a ∈ choice.candidates, ∀ b ∈ choice.candidates, 1 / 2 ^ 52 < mass a.id.text →
        1 / 2 ^ 52 < mass b.id.text → mass a.id.text = mass b.id.text := by
  exact keeps_iff (fun x hx => Real.exp_log hx) choice.unique_texts combine htaken hfree

section Samples

def ballot : ChoiceQuestion where
  id := ⟨"cause", rfl⟩
  text := "what failed?"
  candidates := [⟨⟨"disk", rfl⟩, "the disk"⟩, ⟨⟨"network", rfl⟩, "the network"⟩]
  text_ne := by decide
  candidates_ne := by decide
  unique := by decide

noncomputable def leaning (key : String) : ℝ := if key = "disk" then 3 / 5 else 2 / 5

/-- One mass is below the floor of the source. -/
noncomputable def faint (key : String) : ℝ := if key = "disk" then 1 - 1 / 2 ^ 60 else 1 / 2 ^ 60

theorem orderFree_row {mass : String → ℝ} (hpos : ∀ k, 0 < mass k) :
    OrderFree (rowOf mass) mass ballot.candidates where
  positive := fun c _ => hpos c.id.text
  rows := fun _ hshown => hshown.map _

theorem leaning_pos (key : String) : 0 < leaning key := by
  unfold leaning
  split <;> norm_num

theorem faint_pos (key : String) : 0 < faint key := by
  unfold faint
  split <;> norm_num

/-- A mass below the floor is not divided out, and stays behind the other one. -/
theorem keepsRanking_iff_faint : faint "network" < faint "disk" ∧
    KeepsRanking (readoutOver Real.log Real.exp .logMean (rowOf faint) 2 ballot.candidates) faint
      ballot.candidates := by
  have hlow : faint "network" = 1 / 2 ^ 60 := if_neg (by decide)
  have hhigh : faint "disk" = 1 - 1 / 2 ^ 60 := if_pos rfl
  refine ⟨by rw [hlow, hhigh]; norm_num, (keepsRanking_iff ballot .logMean (rowOf faint) faint 2
    two_pos (orderFree_row faint_pos)).mpr ?_⟩
  intro a ha b hb habove habove'
  have hdisk : ∀ c ∈ ballot.candidates, 1 / 2 ^ 52 < faint c.id.text → c.id.text = "disk" := by
    intro c hc hfloor
    by_contra hne
    rw [faint, if_neg hne] at hfloor
    norm_num at hfloor
  rw [hdisk a ha habove, hdisk b hb habove']

/-- Three fifths against two fifths come out level, in either mode. -/
theorem ranking_lost :
    OrderFree (rowOf leaning) leaning ballot.candidates ∧
      leaning "network" < leaning "disk" ∧
      ∀ combine, ¬ KeepsRanking
        (readoutOver Real.log Real.exp combine (rowOf leaning) 2 ballot.candidates)
        leaning ballot.candidates := by
  have hfree := orderFree_row leaning_pos
  have hlt : leaning "network" < leaning "disk" := by
    rw [leaning, leaning, if_neg (by decide), if_pos rfl]
    norm_num
  refine ⟨hfree, hlt, fun combine hkeep => ?_⟩
  rw [keeps_iff (fun x hx => Real.exp_log hx) ballot.unique_texts combine two_pos hfree] at hkeep
  have heq := hkeep _ List.mem_cons_self _ (List.mem_cons_of_mem _ List.mem_cons_self)
    (by simp only [leaning, if_true]; norm_num) (by
      rw [leaning, if_neg (by decide)]
      norm_num)
  exact absurd heq hlt.ne'

end Samples

end RotationReadout

end OpenCodifier
