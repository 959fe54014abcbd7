import OpenCodifier.Engine.Decide
import OpenCodifier.Schema.Jev
import OpenCodifier.Schema.Replies
import OpenCodifier.Lib.Framing
set_option autoImplicit false

namespace OpenCodifier

open Json

namespace Jev

theorem encodeAnswer_fst (a : DecisionAnswer) : (encodeAnswer a).1 = a.questionId.text := by
  cases a <;> rfl

section Positions

theorem lookup_indexDistribution (d : Distribution) :
    ∃ fields, (indexDistribution d).1 = .obj fields ∧
      ∀ i : Nat, lookup fields (toString i) =
        (d.entries[i]?).map fun e => .num (.float e.probability) := by
  have hkeys : ((d.entries.zipIdx.map fun e => (toString e.2, Value.float e.1.probability)).map
      Prod.fst).Nodup := by
    rw [List.map_map]
    refine List.Nodup.map_on ?_ (List.Nodup.of_map Prod.snd (by simp [List.nodup_range']))
    intro a ha b hb hab
    have hindex : a.2 = b.2 := Framing.repr_inj hab
    have ha := List.mem_zipIdx_iff_getElem?.mp ha
    have hb := List.mem_zipIdx_iff_getElem?.mp hb
    rw [hindex, hb, Option.some.injEq] at ha
    exact Prod.ext ha.symm hindex
  refine ⟨_, rfl, fun i => ?_⟩
  rw [Value.lookup_object, OrdMap.get?_ofList hkeys]
  cases hi : d.entries[i]? with
  | some e =>
    have hmem : (toString i, Value.float e.probability) ∈
        d.entries.zipIdx.map fun e => (toString e.2, Value.float e.1.probability) :=
      List.mem_map.mpr ⟨(e, i), List.mem_zipIdx_iff_getElem?.mpr hi, rfl⟩
    have hget := OrdMap.get?_ofList_of_mem hkeys hmem
    rw [OrdMap.get?_ofList hkeys] at hget
    rw [hget]
    rfl
  | none =>
    have hnone : (d.entries.zipIdx.map fun e =>
        (toString e.2, Value.float e.1.probability)).find? (fun e => e.1 = toString i) = none := by
      refine List.find?_eq_none.mpr fun e he hk => ?_
      obtain ⟨a, ha, rfl⟩ := List.mem_map.mp he
      have hindex : a.2 = i := Framing.repr_inj (of_decide_eq_true hk)
      have ha := List.mem_zipIdx_iff_getElem?.mp ha
      rw [hindex, hi] at ha
      cases ha
    rw [hnone]
    rfl

theorem indexDistribution_descend {d : Distribution} {i : Nat} {e : DistributionEntry}
    (h : d.entries[i]? = some e) :
    (indexDistribution d).1.descend ⟨toString i, i⟩ = some (.num (.float e.probability)) := by
  obtain ⟨fields, hfields, hlookup⟩ := lookup_indexDistribution d
  rw [hfields]
  exact (hlookup i).trans (by rw [h]; rfl)

end Positions

variable [RustStd]

def asNumber (field : String) (j : Json) : SchemaResult ℚ :=
  match j.asFloat with
  | some value => .ok value
  | none => .error (.invalidTypeOf field "number" j)

def answerChoice (q : ChoiceQuestion) (j : Json) : SchemaResult DecisionAnswer := do
  let label ← asString q.id.text j
  match q.candidates.find? fun c => c.id.text = label with
  | none => .error (.invalidValue q.id.text ("`" ++ label ++ "` is not an offered candidate"))
  | some candidate => do
    let d ← orInvalid q.id.text (Distribution.fromPairs [(candidate.id.text, 1)])
    let id ← ofCoreSchema (Ident.new q.id.text)
    pure (.choice id candidate.id d 1)

/-- The number is the probability of yes, whatever was decided. -/
def answerBoolean (q : BooleanQuestion) (j : Json) : SchemaResult DecisionAnswer := do
  let yes ← asNumber q.id.text j
  let yes ← unitInterval q.id.text yes
  let value := decide (1 / 2 ≤ yes)
  let probability := if value then yes else 1 - yes
  let id ← ofCoreSchema (Ident.new q.id.text)
  pure (.boolean id value probability probability)

def levelWeight (id : String) (weights : List (String × Json)) (level : ScoreLevel × Nat) :
    SchemaResult (String × ℚ) :=
  let field := id ++ "." ++ toString level.2
  match lookup weights (toString level.2) with
  | none => .error (.missingField field ": score answers must cover every level index")
  | some j => do
    let p ← asNumber field j
    let p ← unitInterval field p
    pure (level.1.label, p)

def answerScore (q : ScoreQuestion) (j : Json) : SchemaResult DecisionAnswer := do
  let weights ← asObject q.id.text j
  let pairs ← q.levels.zipIdx.mapM (levelWeight q.id.text weights)
  let expected := (pairs.zipIdx.map fun e => e.1.2 * (e.2 : ℚ)).sum
  let d ← orInvalid q.id.text (Distribution.fromPairs pairs)
  let id ← ofCoreSchema (Ident.new q.id.text)
  pure (.score id expected (q.levelFor expected).label d d.top.probability)

def answer : DecisionQuestion → Json → SchemaResult DecisionAnswer
  | .choice q => answerChoice q
  | .boolean q => answerBoolean q
  | .score q => answerScore q

def answerNumbers : DecisionAnswer → ℚ × ℚ × ℚ
  | .choice _ _ d _ => (d.top.probability, d.margin, d.entropy)
  | .score _ _ _ d _ => (d.top.probability, d.margin, d.entropy)
  | .boolean _ _ p _ => (p, p, 0)

/-- The report of the least certain answer in each respect. -/
def reportFor (answers : List DecisionAnswer) : ConfidenceReport :=
  let worst := (answers.map answerNumbers).foldl (fun acc n =>
    (if n.1 < acc.1 then n.1 else acc.1, if n.2.1 < acc.2.1 then n.2.1 else acc.2.1,
      if acc.2.2 < n.2.2 then n.2.2 else acc.2.2)) ((1, 1, 0) : ℚ × ℚ × ℚ)
  { topProbability := worst.1
    margin := worst.2.1
    entropy := worst.2.2
    calibratedConfidence := worst.1
    oodScore := 0
    verifierAgreement := none }

def decodeResponse (payload : Value) (request : DecisionRequest) (_limits : Limits) :
    SchemaResult DecisionResponse := do
  let body ← asObject "payload" payload.1
  let fields ← requiredObject body "answers"
  let answers ← answersOf ": the request question has no answer" answer fields request.questions
  reportedAnswers answers (reportFor answers)

section Reading

omit [RustStd] in
theorem asNumber_float (field : String) (value : ℚ) :
    asNumber field (.num (.float value)) = .ok value := rfl

theorem answer_ok {q : DecisionQuestion} {j : Json} {b : DecisionAnswer}
    (h : answer q j = .ok b) : b.questionId = q.id ∧ b.validate = .ok () := by
  cases q with
  | choice q =>
    obtain ⟨label, -, h⟩ := Result.bind_ok.mp h
    split at h
    · cases h
    · obtain ⟨d, -, h⟩ := Result.bind_ok.mp h
      rw [Ident.new_text] at h
      cases h
      exact ⟨rfl, DecisionAnswer.validate_of_unit ⟨zero_le_one, le_rfl⟩ fun _ _ _ _ h => by cases h⟩
  | boolean q =>
    obtain ⟨raw, -, h⟩ := Result.bind_ok.mp h
    obtain ⟨yes, hyes, h⟩ := Result.bind_ok.mp h
    rw [Ident.new_text] at h
    cases h
    obtain ⟨-, h0, h1⟩ := unitInterval_ok hyes
    have hp : 0 ≤ (if decide (1 / 2 ≤ yes) = true then yes else 1 - yes) ∧
        (if decide (1 / 2 ≤ yes) = true then yes else 1 - yes) ≤ 1 := by
      split
      · exact ⟨h0, h1⟩
      · constructor <;> linarith
    refine ⟨rfl, DecisionAnswer.validate_of_unit hp fun _ _ _ _ h => ?_⟩
    cases h
    exact hp
  | score q =>
    obtain ⟨weights, -, h⟩ := Result.bind_ok.mp h
    obtain ⟨pairs, -, h⟩ := Result.bind_ok.mp h
    obtain ⟨d, -, h⟩ := Result.bind_ok.mp h
    rw [Ident.new_text] at h
    cases h
    exact ⟨rfl, DecisionAnswer.validate_of_unit (d.unit _ d.top_mem) fun _ _ _ _ h => by cases h⟩

theorem certain_ok (id key : String) :
    ∃ d, (orInvalid id (Distribution.fromPairs [(key, 1)]) : SchemaResult Distribution) = .ok d := by
  have hnew : Distribution.fromPairs [(key, 1)] = .ok
      ⟨[⟨key, 1⟩], by simp, by simp, by simp, by simp [sumTolerance]⟩ :=
    Distribution.new_self ⟨[⟨key, 1⟩], by simp, by simp, by simp, by simp [sumTolerance]⟩
  exact ⟨_, by rw [hnew]; rfl⟩

theorem answerChoice_iff (q : ChoiceQuestion) (c : CandidateId) :
    (∃ b, answerChoice q (.str c.text) = .ok b ∧ b.decided = .candidate c) ↔
      c ∈ q.candidates.map Candidate.id := by
  constructor
  · rintro ⟨b, hb, hc⟩
    obtain ⟨label, -, hb⟩ := Result.bind_ok.mp hb
    split at hb
    · cases hb
    · rename_i candidate hfind
      obtain ⟨d, -, hb⟩ := Result.bind_ok.mp hb
      rw [Ident.new_text] at hb
      cases hb
      cases hc
      exact List.mem_map_of_mem (List.mem_of_find?_eq_some hfind)
  · intro hc
    obtain ⟨candidate, hm, rfl⟩ := List.mem_map.mp hc
    obtain ⟨found, hfind⟩ : ∃ found,
        q.candidates.find? (fun c => c.id.text = candidate.id.text) = some found := by
      cases hf : q.candidates.find? (fun c => c.id.text = candidate.id.text) with
      | some found => exact ⟨found, rfl⟩
      | none => exact absurd (decide_eq_true rfl) (List.find?_eq_none.mp hf candidate hm)
    have hid : found.id = candidate.id := Ident.ext_text (by simpa using List.find?_some hfind)
    obtain ⟨d, hd⟩ := certain_ok q.id.text found.id.text
    refine ⟨.choice q.id found.id d 1, ?_, by rw [hid]; rfl⟩
    simp [answerChoice, asString, hfind, hd, Ident.new_text, ofCoreSchema, bind, Except.bind,
      pure, Except.pure]

theorem answerBoolean_iff (q : BooleanQuestion) {value : Bool} {yes : ℚ} (hu : 0 ≤ yes ∧ yes ≤ 1) :
    (∃ b, answerBoolean q (.num (.float yes)) = .ok b ∧ b.decided = .truth value) ↔
      value = decide (1 / 2 ≤ yes) := by
  simp [answerBoolean, asNumber_float, unitInterval_of_mem q.id.text hu, Ident.new_text,
    ofCoreSchema, bind, Except.bind, pure, Except.pure, DecisionAnswer.decided, eq_comm]

/-- The levels read their weights in order; there must be an entry for each. -/
theorem levelWeights_ok_iff (id : String) {weights : List (String × Json)} {d : Distribution}
    (hw : ∀ i : Nat, lookup weights (toString i) =
      (d.entries[i]?).map fun e => .num (.float e.probability))
    (levels : List ScoreLevel) (k : Nat) (pairs : List (String × ℚ)) :
    (levels.zipIdx k).mapM (levelWeight id weights) = .ok pairs ↔
      levels.length ≤ (d.entries.drop k).length ∧ pairs = (levels.map ScoreLevel.label).zip
        ((d.entries.drop k).map DistributionEntry.probability) := by
  induction levels generalizing k pairs with
  | nil => simp [pure, Except.pure, eq_comm]
  | cons level levels ih =>
    rw [List.zipIdx_cons, List.mapM_cons]
    cases hk : d.entries[k]? with
    | none =>
      have hdrop : d.entries.drop k = [] := by
        rw [List.drop_eq_nil_iff]
        exact List.getElem?_eq_none_iff.mp hk
      have hweight : ∃ error, levelWeight id weights (level, k) = .error error := by
        unfold levelWeight
        rw [hw, hk]
        exact ⟨_, rfl⟩
      obtain ⟨error, hweight⟩ := hweight
      simp [hweight, hdrop, bind, Except.bind]
    | some e =>
      have hdrop : d.entries.drop k = e :: d.entries.drop (k + 1) := by
        obtain ⟨hlt, he⟩ := List.getElem?_eq_some_iff.mp hk
        rw [List.drop_eq_getElem_cons hlt, he]
      have hweight : levelWeight id weights (level, k) = .ok (level.label, e.probability) := by
        unfold levelWeight
        rw [hw, hk]
        simp [asNumber_float, unitInterval_of_mem _ (d.unit e (List.mem_of_getElem? hk)), bind,
          Except.bind, pure, Except.pure]
      rw [hweight, hdrop, Result.bind_ok]
      constructor
      · rintro ⟨p, hp, h⟩
        obtain ⟨rest, hrest, h⟩ := Result.bind_ok.mp h
        cases hp
        cases h
        obtain ⟨hlen, rfl⟩ := (ih (k + 1) rest).mp hrest
        exact ⟨by simpa using hlen, rfl⟩
      · rintro ⟨hlen, rfl⟩
        refine ⟨_, rfl, Result.bind_ok.mpr ⟨_, (ih (k + 1) _).mpr ⟨?_, rfl⟩, rfl⟩⟩
        simpa using hlen

/-- Position i of the distribution carries the probability of the i-th level. -/
def Positional (q : ScoreQuestion) (d : Distribution) : Prop :=
  ∀ (i : Nat) (level : ScoreLevel), q.levels[i]? = some level →
    ∃ e, d.entries[i]? = some e ∧ d.probabilityOf level.label = some e.probability

/-- The same expected value, and the same probability of every level. -/
def ScoresAlike (q : ScoreQuestion) (expected : ℚ) (d : Distribution) : DecisionAnswer → Prop
  | .score _ expected' _ d' _ => expected = expected' ∧
      ∀ level ∈ q.levels, d.probabilityOf level.label = d'.probabilityOf level.label
  | _ => False

omit [RustStd] in
theorem Positional.length_le {q : ScoreQuestion} {d : Distribution} (h : Positional q d) :
    q.levels.length ≤ d.entries.length := by
  by_contra hlt
  have hi : d.entries.length < q.levels.length := by omega
  obtain ⟨e, he, -⟩ := h _ _ (List.getElem?_eq_getElem hi)
  rw [List.getElem?_eq_none (le_refl _)] at he
  cases he

omit [RustStd] in
theorem entries_length_le {q : ScoreQuestion} {d : Distribution}
    (hk : ∀ e ∈ d.entries, e.key ∈ q.levels.map ScoreLevel.label) :
    d.entries.length ≤ q.levels.length := by
  have hsub : d.entries.map DistributionEntry.key ⊆ q.levels.map ScoreLevel.label := by
    intro key hkey
    obtain ⟨e, he, rfl⟩ := List.mem_map.mp hkey
    exact hk e he
  simpa using (d.unique.subperm hsub).length_le

def relabelledEntries (q : ScoreQuestion) (d : Distribution) : List DistributionEntry :=
  ((q.levels.map ScoreLevel.label).zip (d.entries.map DistributionEntry.probability)).map
    fun p => ⟨p.1, p.2⟩

section Relabelled

variable {q : ScoreQuestion} {d : Distribution} (h : d.entries.length = q.levels.length)

include h

omit [RustStd]

theorem relabelledEntries_keys :
    (relabelledEntries q d).map DistributionEntry.key = q.levels.map ScoreLevel.label := by
  rw [relabelledEntries, List.map_map]
  exact List.map_fst_zip (by simp [h])

theorem relabelledEntries_probabilities :
    (relabelledEntries q d).map DistributionEntry.probability =
      d.entries.map DistributionEntry.probability := by
  rw [relabelledEntries, List.map_map]
  exact List.map_snd_zip (by simp [h])

theorem relabelled_ok :
    ∃ d', Distribution.fromPairs ((q.levels.map ScoreLevel.label).zip
        (d.entries.map DistributionEntry.probability)) = .ok d' ∧
      d'.entries = relabelledEntries q d := by
  have hunit : ∀ e ∈ relabelledEntries q d, 0 ≤ e.probability ∧ e.probability ≤ 1 := by
    intro e he
    have hp := List.mem_map_of_mem (f := DistributionEntry.probability) he
    rw [relabelledEntries_probabilities h] at hp
    obtain ⟨e', he', hsame⟩ := List.mem_map.mp hp
    rw [← hsame]
    exact d.unit e' he'
  have hne : relabelledEntries q d ≠ [] := by
    intro hnil
    have hprobs := relabelledEntries_probabilities h
    rw [hnil] at hprobs
    exact d.entries_ne (List.map_eq_nil_iff.mp hprobs.symm)
  have hunique : ((relabelledEntries q d).map DistributionEntry.key).Nodup := by
    rw [relabelledEntries_keys h]
    exact q.unique
  have hnormalized : |((relabelledEntries q d).map DistributionEntry.probability).sum - 1| ≤
      sumTolerance := by
    rw [relabelledEntries_probabilities h]
    exact d.normalized
  exact ⟨_, Distribution.new_self ⟨relabelledEntries q d, hne, hunique, hunit, hnormalized⟩, rfl⟩

omit h in
theorem relabelled_probabilityOf {d' : Distribution} (hd' : d'.entries = relabelledEntries q d)
    {i : Nat} {level : ScoreLevel} {e : DistributionEntry} (hlevel : q.levels[i]? = some level)
    (he : d.entries[i]? = some e) : d'.probabilityOf level.label = some e.probability := by
  have hmem : (⟨level.label, e.probability⟩ : DistributionEntry) ∈ d'.entries := by
    rw [hd']
    refine List.mem_map.mpr ⟨(level.label, e.probability), List.mem_of_getElem? (i := i) ?_, rfl⟩
    rw [List.getElem?_zip_eq_some]
    simp [hlevel, he]
  exact Distribution.probabilityOf_of_mem hmem

theorem relabelled_expected :
    ((((q.levels.map ScoreLevel.label).zip
      (d.entries.map DistributionEntry.probability)).zipIdx).map
        fun e => e.1.2 * (e.2 : ℚ)).sum = expectedValue d := by
  have hprobs := congrArg List.zipIdx (relabelledEntries_probabilities h)
  rw [relabelledEntries, List.map_map, List.zipIdx_map, List.zipIdx_map] at hprobs
  have hsums := congrArg (fun l => (l.map fun e : ℚ × Nat => e.1 * (e.2 : ℚ)).sum) hprobs
  simpa [expectedValue, Function.comp_def] using hsums

end Relabelled

/-- A score over the levels is read back alike exactly when its entries are by position the
levels' own. -/
theorem answerScore_iff {q : ScoreQuestion} {d : Distribution}
    (hk : ∀ e ∈ d.entries, e.key ∈ q.levels.map ScoreLevel.label) :
    (∃ b, answerScore q (indexDistribution d).1 = .ok b ∧
      b.decided = .level (q.levelFor (expectedValue d)).label ∧
      ScoresAlike q (expectedValue d) d b) ↔ Positional q d := by
  obtain ⟨fields, hfields, hw⟩ := lookup_indexDistribution d
  have hlabels := entries_length_le hk
  constructor
  · rintro ⟨b, hb, -, halike⟩
    rw [hfields] at hb
    obtain ⟨weights, hweights, hb⟩ := Result.bind_ok.mp hb
    cases hweights
    obtain ⟨pairs, hpairs, hb⟩ := Result.bind_ok.mp hb
    obtain ⟨hlen, rfl⟩ := (levelWeights_ok_iff q.id.text hw q.levels 0 pairs).mp hpairs
    rw [List.drop_zero] at hlen hb
    obtain ⟨d', hd', hentries⟩ := relabelled_ok (Nat.le_antisymm hlabels hlen)
    rw [hd', Ident.new_text] at hb
    cases hb
    intro i level hlevel
    have hi : i < d.entries.length := by
      have := (List.getElem?_eq_some_iff.mp hlevel).1
      omega
    have he := List.getElem?_eq_getElem hi
    exact ⟨_, he, (halike.2 level (List.mem_of_getElem? hlevel)).trans
      (relabelled_probabilityOf hentries hlevel he)⟩
  · intro hp
    have hlen := Nat.le_antisymm hlabels hp.length_le
    obtain ⟨d', hd', hentries⟩ := relabelled_ok hlen
    have hpairs := (levelWeights_ok_iff q.id.text hw q.levels 0 _).mpr
      ⟨by simpa using hp.length_le, rfl⟩
    rw [List.drop_zero] at hpairs
    refine ⟨.score q.id (expectedValue d) (q.levelFor (expectedValue d)).label d'
      d'.top.probability, ?_, rfl, rfl, fun level hlevel => ?_⟩
    · simp only [answerScore, hfields, asObject, hpairs, hd', relabelled_expected hlen, Ident.new_text,
        ofCoreSchema, orInvalid, bind, Except.bind, pure, Except.pure]
    · obtain ⟨i, hi⟩ := List.mem_iff_getElem?.mp hlevel
      obtain ⟨e, he, hprob⟩ := hp i level hi
      rw [hprob, relabelled_probabilityOf hentries hi he]

end Reading

end Jev

end OpenCodifier
