import Mathlib.Analysis.SpecialFunctions.Log.Basic
import OpenCodifier.Engine.LexicalSpread
import OpenCodifier.Engine.Sample
import OpenCodifier.Engine.Tempering
set_option autoImplicit false

namespace OpenCodifier

abbrev Masses.Valid {K : Type} [Field K] [LinearOrder K] (pairs : List (String × K)) : Prop :=
  pairs ≠ [] ∧ (pairs.map Prod.fst).Nodup ∧ (∀ e ∈ pairs, 0 ≤ e.2 ∧ e.2 ≤ 1) ∧
    |(pairs.map Prod.snd).sum - 1| ≤ (sumTolerance : K)

def Masses.fromPairs {K : Type} [Field K] [LinearOrder K] (pairs : List (String × K)) :
    Option (Masses K) :=
  if h : Masses.Valid pairs then some ⟨pairs, h.1, h.2.1, h.2.2.1, h.2.2.2⟩ else none

namespace Masses

variable {K : Type} [Field K] [LinearOrder K]

def probabilityOf (d : Masses K) (key : String) : Option K :=
  (d.entries.find? fun e => e.1 = key).map Prod.snd

theorem probabilityOf_of_mem {d : Masses K} {e : String × K} (he : e ∈ d.entries) :
    d.probabilityOf e.1 = some e.2 := by
  rw [probabilityOf, find?_entry d.unique he]
  rfl

end Masses

namespace Lexical

section Counts

theorem countTerm_comm (m : OrdMap String Nat) (s t : String) :
    countTerms (countTerms m [s]) [t] = countTerms (countTerms m [t]) [s] := by
  by_cases hst : s = t
  · rw [hst]
  · apply OrdMap.ext_get?
    intro k
    simp only [countTerms, List.foldl_cons, List.foldl_nil, OrdMap.get?_insert]
    by_cases hs : k = s
    · subst hs
      simp [hst]
    · by_cases ht : k = t
      · subst ht
        simp [hs]
      · simp [hs, ht]

theorem countTerms_perm (counts : OrdMap String Nat) {l l' : List String} (h : l.Perm l') :
    countTerms counts l = countTerms counts l' :=
  h.foldl_eq' (fun s _ t _ m => countTerm_comm m s t) counts

end Counts

section Readouts

variable [RustStd] {K : Type} [Field K] (ln : K → K)

namespace Bm25Index

/-- What the weight of a term is the logarithm of. -/
def rarity (index : Bm25Index) (term : String) : ℚ :=
  let total : ℚ := index.frequencies.length
  let seen : ℚ := index.termCount term
  1 + (total - seen + 1 / 2) / (seen + 1 / 2)

/-- A term's contribution over an arithmetic of its own; all but the logarithm is rational. -/
def termScoreOver (index : Bm25Index) (document : OrdMap String Nat) (length : ℚ)
    (entry : String × Nat) : K :=
  let frequency := (document.get? entry.1).getD 0
  if frequency = 0 then 0
  else ln (index.rarity entry.1 : K) * (index.saturatedFrequency frequency length : K) * entry.2

def scoreTermsOver (index : Bm25Index) (terms : OrdMap String Nat) (position : Nat) : K :=
  match index.frequencies[position]?, index.lengths[position]? with
  | some document, some length => (terms.entries.map (index.termScoreOver ln document length)).sum
  | _, _ => 0

def scoreAllOver (index : Bm25Index) (query : String) : List K :=
  (List.range index.frequencies.length).map (index.scoreTermsOver ln (queryTerms query))

theorem scoreAllOver_rat (index : Bm25Index) (query : String) :
    index.scoreAllOver RustStd.ln query = index.scoreAll query := by
  apply List.map_congr_left
  intro position _
  simp only [scoreTermsOver, scoreTerms]
  cases index.frequencies[position]? with
  | none => rfl
  | some document =>
    cases index.lengths[position]? with
    | none => rfl
    | some length => rfl

end Bm25Index

end Readouts

section Documents

variable [RustStd] {K : Type} [Field K] (ln : K → K)

def frequenciesOf (document : String) : OrdMap String Nat :=
  countTerms OrdMap.empty (tokenize document)

def lengthOf (document : String) : ℚ := ((frequenciesOf document).values.sum : ℚ)

def documentScore (index : Bm25Index) (query document : String) : K :=
  ((queryTerms query).entries.map
    (index.termScoreOver ln (frequenciesOf document) (lengthOf document))).sum

theorem scoreAllOver_new (documents : List String) (query : String) :
    (Bm25Index.new documents).scoreAllOver ln query =
      documents.map (documentScore ln (Bm25Index.new documents) query) := by
  apply List.ext_getElem
  · simp [Bm25Index.scoreAllOver, Bm25Index.new]
  · intro i hi hi'
    have hlt : i < documents.length := by simpa using hi'
    have hfrequencies : (Bm25Index.new documents).frequencies[i]? =
        some (frequenciesOf documents[i]) := by
      simp [Bm25Index.new, frequenciesOf, hlt]
    have hlengths : (Bm25Index.new documents).lengths[i]? = some (lengthOf documents[i]) := by
      simp [Bm25Index.new, frequenciesOf, lengthOf, hlt]
    simp only [Bm25Index.scoreAllOver, List.getElem_map, List.getElem_range,
      Bm25Index.scoreTermsOver, hfrequencies, hlengths]
    rfl

theorem documentScore_perm {documents documents' : List String}
    (h : documents.Perm documents') :
    documentScore ln (Bm25Index.new documents) = documentScore ln (Bm25Index.new documents') := by
  have hcount : (Bm25Index.new documents).documentFrequency =
      (Bm25Index.new documents').documentFrequency := by
    have hflat : ∀ frequencies : List (OrdMap String Nat),
        frequencies.foldl (fun m f => countTerms m f.keys) OrdMap.empty =
          countTerms OrdMap.empty (frequencies.flatMap OrdMap.keys) := by
      intro frequencies
      rw [countTerms, List.foldl_flatMap]
      rfl
    simp only [Bm25Index.new, hflat]
    exact countTerms_perm _ ((h.map _).flatMap_right _)
  have hnumber : (Bm25Index.new documents).frequencies.length =
      (Bm25Index.new documents').frequencies.length := by
    simp [Bm25Index.new, h.length_eq]
  have haverage : (Bm25Index.new documents).averageLength =
      (Bm25Index.new documents').averageLength := by
    have hsum := ((h.map frequenciesOf).map fun f => (f.values.sum : ℚ)).sum_eq
    have hnil : documents = [] ↔ documents' = [] := by
      rw [← List.length_eq_zero_iff, ← List.length_eq_zero_iff, h.length_eq]
    change (if documents.map frequenciesOf = [] then 0 else
      ((documents.map frequenciesOf).map fun f => (f.values.sum : ℚ)).sum /
        (documents.map frequenciesOf).length) =
      if documents'.map frequenciesOf = [] then 0 else
      ((documents'.map frequenciesOf).map fun f => (f.values.sum : ℚ)).sum /
        (documents'.map frequenciesOf).length
    simp only [List.map_eq_nil_iff, hnil, List.length_map, h.length_eq, hsum]
  have hterm : (Bm25Index.new documents).termScoreOver ln =
      (Bm25Index.new documents').termScoreOver ln := by
    funext document length entry
    simp only [Bm25Index.termScoreOver, Bm25Index.rarity, Bm25Index.termCount,
      Bm25Index.saturatedFrequency, hcount, hnumber, haverage]
  funext query document
  rw [documentScore, documentScore, hterm]

end Documents

section Bounded

variable {K : Type} [Field K] [LinearOrder K]

def topScore (scores : List K) : K :=
  match scores with
  | [] => 0
  | first :: rest => rest.foldl max first

theorem topScore_perm {scores scores' : List K} (h : scores.Perm scores') :
    topScore scores = topScore scores' := by
  cases scores with
  | nil =>
    cases scores' with
    | nil => rfl
    | cons first' rest' => simp at h
  | cons first rest =>
    cases scores' with
    | nil => simp at h
    | cons first' rest' =>
      obtain ⟨hmem, hle⟩ := foldl_max_spec first rest
      obtain ⟨hmem', hle'⟩ := foldl_max_spec first' rest'
      exact le_antisymm (hle' _ (h.mem_iff.mp hmem)) (hle _ (h.mem_iff.mpr hmem'))

def boundAt (top s : K) : K := if top ≤ capOver then s else squeeze top s

theorem boundOver_eq (scores : List K) : boundOver scores = scores.map (boundAt (topScore scores)) := by
  cases scores with
  | nil => rfl
  | cons first rest =>
    by_cases hcap : rest.foldl max first ≤ capOver
    · have hid : boundAt (topScore (first :: rest)) = id := by
        funext s
        exact if_pos hcap
      rw [boundOver, if_pos hcap, hid, List.map_id]
    · have hsqueeze : boundAt (topScore (first :: rest)) = squeeze (rest.foldl max first) := by
        funext s
        exact if_neg hcap
      rw [boundOver, if_neg hcap, hsqueeze]

/-- Bounding keeps the largest scores apart from the others. -/
theorem boundAt_maximal_iff [IsStrictOrderedRing K] {scores : List K} {s : K} (hs : s ∈ scores) :
    (∀ b ∈ scores, boundAt (topScore scores) b ≤ boundAt (topScore scores) s) ↔
      ∀ b ∈ scores, b ≤ s := by
  have hzip : scores.zip (boundOver scores) =
      scores.map fun s => (s, boundAt (topScore scores) s) := by
    rw [boundOver_eq]
    simpa using List.zip_map' (f := id) (g := boundAt (topScore scores)) (l := scores)
  have hmaxima := (boundOver_keeps scores).maxima
  rw [hzip] at hmaxima
  simpa using (hmaxima _ (List.mem_map_of_mem hs)).symm

variable (exp : K → K)

def shareAt (scores : List K) (s : K) : K :=
  let terms := scores.map fun s => exp (s - topScore scores)
  if terms.sum ≤ 0 then 1 / (scores.length : K) else exp (s - topScore scores) / terms.sum

theorem softmaxOver_eq (scores : List K) :
    softmaxOver exp scores = scores.map (shareAt exp scores) := by
  cases scores with
  | nil => rfl
  | cons first rest =>
    by_cases hsum : ((first :: rest).map fun s => exp (s - rest.foldl max first)).sum ≤ 0
    · have huniform : shareAt exp (first :: rest) =
          fun _ => 1 / ((first :: rest).length : K) := by
        funext s
        exact if_pos hsum
      rw [softmaxOver, huniform]
      exact if_pos hsum
    · have hshare : shareAt exp (first :: rest) = fun s => exp (s - rest.foldl max first) /
          ((first :: rest).map fun s => exp (s - rest.foldl max first)).sum := by
        funext s
        exact if_neg hsum
      rw [softmaxOver, hshare]
      refine (if_neg hsum).trans ?_
      rw [List.map_map]
      rfl

theorem shareAt_perm {scores scores' : List K} (h : scores.Perm scores') :
    shareAt exp scores = shareAt exp scores' := by
  funext s
  have hsum := (h.map fun s => exp (s - topScore scores')).sum_eq
  simp only [shareAt, topScore_perm h, h.length_eq, hsum]

theorem shareAt_unit [IsStrictOrderedRing K] (hpos : ∀ x, 0 < exp x) {scores : List K} {s : K}
    (hs : s ∈ scores) : (0 ≤ shareAt exp scores s ∧ shareAt exp scores s ≤ 1) ∧
      (scores.map (shareAt exp scores)).sum = 1 := by
  have hterm : ∀ t ∈ scores.map fun s => exp (s - topScore scores), 0 < t := by
    intro t ht
    obtain ⟨s, -, rfl⟩ := List.mem_map.mp ht
    exact hpos _
  have hne : scores.map (fun s => exp (s - topScore scores)) ≠ [] := by
    simpa using List.ne_nil_of_mem hs
  have hsum := List.sum_pos _ hterm hne
  have hshare : shareAt exp scores = fun s => exp (s - topScore scores) /
      (scores.map fun s => exp (s - topScore scores)).sum := by
    funext s
    exact if_neg (not_le.mpr hsum)
  have hle := List.single_le_sum (fun t ht => (hterm t ht).le) _ (List.mem_map_of_mem hs)
  rw [hshare]
  exact ⟨⟨div_nonneg (hpos _).le hsum.le, (div_le_one hsum).mpr hle⟩, Prorata.sum_div hsum.ne'⟩

end Bounded

end Lexical

namespace LexicalClassifier

section Readouts

variable [RustStd] {K : Type} [Field K] [LinearOrder K] (ln exp : K → K)

def bestPositionOver (scores : List K) : Nat :=
  ((Extremum.lastMax Prod.fst scores.zipIdx).map Prod.snd).getD 0

def scoreDocumentsOver (index : Lexical.Bm25Index) (query : String) : List K × ℚ :=
  let scores := Lexical.boundOver (index.scoreAllOver ln query)
  (scores, index.coverage (bestPositionOver scores) query)

def decideChoiceOver (query : String) (question : ChoiceQuestion)
    (index : Option Lexical.Bm25Index) : Option (Masses K × ℚ) := do
  let documents := question.candidates.map Candidate.description
  let scored := scoreDocumentsOver ln (usableIndex documents index) query
  let d ← Masses.fromPairs ((question.candidates.map fun c => c.id.text).zip
    (Lexical.softmaxOver exp scored.1))
  some (d, scored.2)

theorem scoreDocumentsOver_rat (index : Lexical.Bm25Index) (query : String) :
    scoreDocumentsOver RustStd.ln index query = scoreDocuments index query := by
  rw [scoreDocumentsOver, scoreDocuments, Lexical.Bm25Index.scoreAllOver_rat,
    Lexical.boundOver_rat]
  rfl

end Readouts

end LexicalClassifier

theorem Masses.fromPairs_rat (pairs : List (String × ℚ)) :
    (Masses.fromPairs pairs).map Masses.entries =
      (Distribution.fromPairs pairs).toOption.map fun d =>
        d.entries.map DistributionEntry.pair := by
  have hpairs : (pairs.map fun p => (⟨p.1, p.2⟩ : DistributionEntry)).map
      DistributionEntry.pair = pairs := by
    rw [List.map_map]
    exact List.map_id pairs
  have hkeys : (pairs.map fun p => (⟨p.1, p.2⟩ : DistributionEntry)).map
      DistributionEntry.key = pairs.map Prod.fst := by
    rw [List.map_map]
    rfl
  have hmasses : (pairs.map fun p => (⟨p.1, p.2⟩ : DistributionEntry)).map
      DistributionEntry.probability = pairs.map Prod.snd := by
    rw [List.map_map]
    rfl
  by_cases h : Masses.Valid pairs
  · have hnew := Distribution.new_self {
      entries := pairs.map fun p => ⟨p.1, p.2⟩
      entries_ne := by simpa using h.1
      unique := by rw [hkeys]; exact h.2.1
      unit := List.forall_mem_map.mpr h.2.2.1
      normalized := by rw [hmasses, ← Rat.cast_id sumTolerance]; exact h.2.2.2 }
    rw [Masses.fromPairs, dif_pos h, Distribution.fromPairs, hnew]
    exact congrArg some hpairs.symm
  · rw [Masses.fromPairs, dif_neg h]
    cases hd : Distribution.fromPairs pairs with
    | error e => rfl
    | ok d =>
      have hentries := Distribution.new_entries hd
      refine absurd ⟨?_, ?_, ?_, ?_⟩ h
      · simpa [hentries] using d.entries_ne
      · rw [← hkeys, ← hentries]
        exact d.unique
      · intro e he
        exact d.unit ⟨e.1, e.2⟩ (hentries ▸ List.mem_map.mpr ⟨e, he, rfl⟩)
      · rw [← hmasses, ← hentries, Rat.cast_id]
        exact d.normalized

/-- The engine's lexical choice is this one over the rationals. -/
theorem LexicalClassifier.decideChoiceOver_rat [RustStd] (query : String)
    (question : ChoiceQuestion) (index : Option Lexical.Bm25Index) :
    (decideChoiceOver RustStd.ln RustStd.exp query question index).map
        (fun r => (r.1.entries, r.2)) =
      (decideChoiceWithSupport query question index).toOption.map fun r =>
        (r.1.entries.map DistributionEntry.pair, r.2) := by
  rw [decideChoiceOver, scoreDocumentsOver_rat, Lexical.softmaxOver_rat, decideChoiceWithSupport]
  have hpairs := Masses.fromPairs_rat ((question.candidates.map fun c => c.id.text).zip
    (Lexical.softmax (scoreDocuments (usableIndex (question.candidates.map Candidate.description)
      index) query).1))
  simp only [distributionOver]
  cases hd : Distribution.fromPairs ((question.candidates.map fun c => c.id.text).zip
      (Lexical.softmax (scoreDocuments (usableIndex (question.candidates.map Candidate.description)
        index) query).1)) with
  | error e =>
    rw [hd] at hpairs
    rw [Option.map_eq_none_iff.mp hpairs]
    rfl
  | ok d =>
    rw [hd] at hpairs
    obtain ⟨m, hm, hentries⟩ := Option.map_eq_some_iff.mp hpairs
    rw [hm]
    exact congrArg (fun entries => some (entries, _)) hentries

namespace LexicalClassifier

section Order

variable [RustStd] {K : Type} [Field K] [LinearOrder K] (ln exp : K → K) (query : String)

def candidateScore (question : ChoiceQuestion) (candidate : Candidate) : K :=
  Lexical.documentScore ln (Lexical.Bm25Index.new (question.candidates.map Candidate.description))
    query candidate.description

def candidateBound (question : ChoiceQuestion) (candidate : Candidate) : K :=
  Lexical.boundAt (Lexical.topScore (question.candidates.map (candidateScore ln query question)))
    (candidateScore ln query question candidate)

def candidateShare (question : ChoiceQuestion) (candidate : Candidate) : K :=
  Lexical.shareAt exp (question.candidates.map (candidateBound ln query question))
    (candidateBound ln query question candidate)

def candidateCoverage (candidate : Candidate) : ℚ :=
  let terms := Lexical.queryTerms query
  if terms.keys = [] then 0
  else ((terms.keys.filter (Lexical.frequenciesOf candidate.description).contains).length : ℚ) /
    terms.keys.length

structure Reordered (question question' : ChoiceQuestion) : Prop where
  id : question'.id = question.id
  text : question'.text = question.text
  candidates : question'.candidates.Perm question.candidates

variable {question question' : ChoiceQuestion}

omit [LinearOrder K] in
theorem candidateScore_reordered (h : Reordered question question') :
    candidateScore ln query question' = candidateScore ln query question := by
  funext candidate
  rw [candidateScore, candidateScore,
    Lexical.documentScore_perm ln (h.candidates.map Candidate.description)]

theorem candidateBound_reordered (h : Reordered question question') :
    candidateBound ln query question' = candidateBound ln query question := by
  funext candidate
  rw [candidateBound, candidateBound, candidateScore_reordered ln query h,
    Lexical.topScore_perm (h.candidates.map _)]

theorem candidateShare_reordered (h : Reordered question question') :
    candidateShare ln exp query question' = candidateShare ln exp query question := by
  funext candidate
  rw [candidateShare, candidateShare, candidateBound_reordered ln query h,
    Lexical.shareAt_perm exp (h.candidates.map _)]

theorem boundOver_candidates (question : ChoiceQuestion) :
    Lexical.boundOver ((Lexical.Bm25Index.new
      (question.candidates.map Candidate.description)).scoreAllOver ln query) =
        question.candidates.map (candidateBound ln query question) := by
  rw [Lexical.scoreAllOver_new, List.map_map, Lexical.boundOver_eq, List.map_map]
  rfl

/-- A reading of the question: the index, when there is one, is over its own documents. -/
def OwnIndex (question : ChoiceQuestion) (index : Option Lexical.Bm25Index) : Prop :=
  ∀ prebuilt ∈ index,
    prebuilt = Lexical.Bm25Index.new (question.candidates.map Candidate.description)

theorem usableIndex_own {index : Option Lexical.Bm25Index} (h : OwnIndex question index) :
    usableIndex (question.candidates.map Candidate.description) index =
      Lexical.Bm25Index.new (question.candidates.map Candidate.description) := by
  cases index with
  | none => rfl
  | some prebuilt =>
    rw [h prebuilt rfl, usableIndex, if_pos (Lexical.Bm25Index.len_new _)]

/-- The best candidate; among equals the last declared. -/
def bestCandidate (question : ChoiceQuestion) : Candidate :=
  (Extremum.lastMax (candidateBound ln query question) question.candidates).get
    (Extremum.lastMax_isSome question.candidates_ne)

theorem coverage_best (question : ChoiceQuestion) :
    (Lexical.Bm25Index.new (question.candidates.map Candidate.description)).coverage
        (bestPositionOver (question.candidates.map (candidateBound ln query question))) query =
      candidateCoverage query (bestCandidate ln query question) := by
  obtain ⟨e, he⟩ := Option.isSome_iff_exists.mp (Extremum.lastMax_isSome
    (f := candidateBound ln query question ∘ Prod.fst)
    (show question.candidates.zipIdx ≠ [] by simpa using question.candidates_ne))
  have hmem := Extremum.lastMax_mem he
  have hbest : bestCandidate ln query question = e.1 := by
    have hfst := Extremum.lastMax_map (candidateBound ln query question) Prod.fst
      question.candidates.zipIdx
    rw [List.zipIdx_map_fst, he] at hfst
    exact Option.get_of_eq_some _ hfst
  have hposition : bestPositionOver
      (question.candidates.map (candidateBound ln query question)) = e.2 := by
    have hmap := Extremum.lastMax_map Prod.fst
      (Prod.map (candidateBound ln query question) id) question.candidates.zipIdx
    have hcomp : Prod.fst ∘ Prod.map (candidateBound ln query question) id =
      (candidateBound ln query question ∘ Prod.fst : Candidate × Nat → K) := rfl
    rw [hcomp, he] at hmap
    rw [bestPositionOver, List.zipIdx_map, hmap]
    rfl
  have hget : question.candidates[e.2]? = some e.1 := List.mem_zipIdx_iff_getElem?.mp hmem
  rw [hposition, hbest, Lexical.Bm25Index.coverage]
  have hfrequencies : (Lexical.Bm25Index.new
      (question.candidates.map Candidate.description)).frequencies[e.2]? =
        some (Lexical.frequenciesOf e.1.description) := by
    simp [Lexical.Bm25Index.new, Lexical.frequenciesOf, hget]
  rw [hfrequencies]
  rfl

theorem decideChoiceOver_eq {index : Option Lexical.Bm25Index} (h : OwnIndex question index) :
    decideChoiceOver ln exp query question index =
      (Masses.fromPairs (question.candidates.map fun c =>
        (c.id.text, candidateShare ln exp query question c))).map fun d =>
          (d, candidateCoverage query (bestCandidate ln query question)) := by
  have hzip : (question.candidates.map fun c => c.id.text).zip (Lexical.softmaxOver exp
      (question.candidates.map (candidateBound ln query question))) =
        question.candidates.map fun c =>
          (c.id.text, candidateShare ln exp query question c) := by
    rw [Lexical.softmaxOver_eq, List.map_map]
    exact List.zip_map'
  simp only [decideChoiceOver, scoreDocumentsOver]
  rw [usableIndex_own h, boundOver_candidates, coverage_best, hzip]
  cases Masses.fromPairs (question.candidates.map fun c =>
    (c.id.text, candidateShare ln exp query question c)) <;> rfl

variable {exp}

theorem decideChoiceOver_some [IsStrictOrderedRing K] (hpos : ∀ x, 0 < exp x)
    {index : Option Lexical.Bm25Index} (h : OwnIndex question index) :
    ∃ d, decideChoiceOver ln exp query question index =
        some (d, candidateCoverage query (bestCandidate ln query question)) ∧
      d.entries = question.candidates.map fun c =>
        (c.id.text, candidateShare ln exp query question c) := by
  have hshare : ∀ c ∈ question.candidates,
      (0 ≤ candidateShare ln exp query question c ∧ candidateShare ln exp query question c ≤ 1) ∧
        (question.candidates.map (candidateShare ln exp query question)).sum = 1 := by
    intro c hc
    have hunit := Lexical.shareAt_unit exp hpos
      (List.mem_map_of_mem (f := candidateBound ln query question) hc)
    rw [List.map_map] at hunit
    exact hunit
  obtain ⟨first, hfirst⟩ := List.exists_mem_of_ne_nil _ question.candidates_ne
  have hvalid : Masses.Valid (question.candidates.map fun c =>
      (c.id.text, candidateShare ln exp query question c)) := by
    refine ⟨by simpa using question.candidates_ne, ?_, ?_, ?_⟩
    · rw [List.map_map]
      have hids := question.unique.map Ident.text_injective
      rwa [List.map_map] at hids
    · exact List.forall_mem_map.mpr fun c hc => (hshare c hc).1
    · have htolerance : (0 : K) ≤ (sumTolerance : K) := by
        exact_mod_cast (by decide +kernel : (0 : ℚ) ≤ sumTolerance)
      rw [List.map_map]
      have hsum : (question.candidates.map (Prod.snd ∘ fun c : Candidate =>
          (c.id.text, candidateShare ln exp query question c))).sum = 1 := (hshare first hfirst).2
      rwa [hsum, sub_self, abs_zero]
  rw [decideChoiceOver_eq ln exp query h, Masses.fromPairs, dif_pos hvalid]
  exact ⟨_, rfl, rfl⟩

def Best (question : ChoiceQuestion) (candidate : Candidate) : Prop :=
  candidate ∈ question.candidates ∧ ∀ other ∈ question.candidates,
    candidateScore ln query question other ≤ candidateScore ln query question candidate

theorem bestCandidate_best [IsStrictOrderedRing K] (question : ChoiceQuestion) :
    Best ln query question (bestCandidate ln query question) := by
  have hsome : Extremum.lastMax (candidateBound ln query question) question.candidates =
      some (bestCandidate ln query question) := (Option.some_get _).symm
  have hmem := Extremum.lastMax_mem hsome
  refine ⟨hmem, ?_⟩
  have hscores := (Lexical.boundAt_maximal_iff (List.mem_map_of_mem
    (f := candidateScore ln query question) hmem)).mp (List.forall_mem_map.mpr
      (Extremum.le_lastMax hsome))
  exact List.forall_mem_map.mp hscores

theorem exists_reordered_best [IsStrictOrderedRing K] {candidate : Candidate}
    (h : Best ln query question candidate) :
    ∃ question', Reordered question question' ∧
      bestCandidate ln query question' = candidate := by
  have hperm : (question.candidates.erase candidate ++ [candidate]).Perm question.candidates :=
    (List.perm_append_singleton _ _).trans (List.perm_cons_erase h.1).symm
  let question' : ChoiceQuestion := {
    id := question.id
    text := question.text
    candidates := question.candidates.erase candidate ++ [candidate]
    text_ne := question.text_ne
    candidates_ne := by simp
    unique := (hperm.map Candidate.id).nodup_iff.mpr question.unique }
  have hreordered : Reordered question question' := ⟨rfl, rfl, hperm⟩
  refine ⟨question', hreordered, ?_⟩
  have hmax : Extremum.lastMax (candidateBound ln query question') question'.candidates =
      some candidate := by
    apply Extremum.lastMax_append_singleton
    intro other hother
    rw [candidateBound_reordered ln query hreordered]
    have hbound := (Lexical.boundAt_maximal_iff (List.mem_map_of_mem
      (f := candidateScore ln query question) h.1)).mpr (List.forall_mem_map.mpr h.2)
    exact List.forall_mem_map.mp hbound other (List.mem_of_mem_erase hother)
  exact Option.get_of_eq_some _ hmax

variable (exp) in
/-- Every order of the candidates gives each of them the same probability, and the question the
same coverage, with or without an index over its own documents. -/
def OrderFree (question : ChoiceQuestion) : Prop :=
  ∀ question', Reordered question question' → ∀ index index', OwnIndex question index →
    OwnIndex question' index' → ∃ r r',
      decideChoiceOver ln exp query question index = some r ∧
      decideChoiceOver ln exp query question' index' = some r' ∧
      (∀ candidate ∈ question.candidates,
        r'.1.probabilityOf candidate.id.text = r.1.probabilityOf candidate.id.text) ∧
      r'.2 = r.2

/-- The probabilities never depend on the order; the coverage does not exactly when the
candidates that tie for the best score agree on it. -/
theorem orderFree_iff [IsStrictOrderedRing K] (hpos : ∀ x, 0 < exp x)
    (question : ChoiceQuestion) : OrderFree ln exp query question ↔
      ∀ candidate other, Best ln query question candidate → Best ln query question other →
        candidateCoverage query candidate = candidateCoverage query other := by
  constructor
  · intro h
    have hfirst : ∀ candidate, Best ln query question candidate →
        candidateCoverage query candidate =
          candidateCoverage query (bestCandidate ln query question) := by
      intro candidate hbest
      obtain ⟨question', hreordered, hlast⟩ := exists_reordered_best ln query hbest
      have hnone : ∀ q, OwnIndex q none := by simp [OwnIndex]
      obtain ⟨r, r', hr, hr', -, hcoverage⟩ := h question' hreordered none none (hnone _) (hnone _)
      obtain ⟨d, hd, -⟩ := decideChoiceOver_some ln query hpos (hnone question)
      obtain ⟨d', hd', -⟩ := decideChoiceOver_some ln query hpos (hnone question')
      rw [hd, Option.some.injEq] at hr
      rw [hd', Option.some.injEq] at hr'
      rw [← hr, ← hr', hlast] at hcoverage
      exact hcoverage
    intro candidate other hcandidate hother
    rw [hfirst candidate hcandidate, hfirst other hother]
  · intro h question' hreordered index index' hindex hindex'
    obtain ⟨d, hd, hentries⟩ := decideChoiceOver_some ln query hpos hindex
    obtain ⟨d', hd', hentries'⟩ := decideChoiceOver_some ln query hpos hindex'
    have hbest' : Best ln query question (bestCandidate ln query question') := by
      obtain ⟨hmem, hle⟩ := bestCandidate_best ln query question'
      rw [candidateScore_reordered ln query hreordered] at hle
      exact ⟨hreordered.candidates.mem_iff.mp hmem, fun other hother =>
        hle other (hreordered.candidates.mem_iff.mpr hother)⟩
    refine ⟨_, _, hd, hd', fun candidate hcandidate => ?_,
      h _ _ hbest' (bestCandidate_best ln query question)⟩
    rw [Masses.probabilityOf_of_mem (e := (candidate.id.text,
        candidateShare ln exp query question candidate)),
      Masses.probabilityOf_of_mem (e := (candidate.id.text,
        candidateShare ln exp query question candidate))]
    · rw [hentries]
      exact List.mem_map.mpr ⟨candidate, hcandidate, rfl⟩
    · rw [hentries', candidateShare_reordered ln exp query hreordered]
      exact List.mem_map.mpr ⟨candidate, hreordered.candidates.mem_iff.mpr hcandidate, rfl⟩

/-- A readout of the candidates that goes with them wherever they stand. -/
def Commutes {α : Type} (readout : ChoiceQuestion → List α) : Prop :=
  ∀ question question', Reordered question question' →
    (question'.candidates.zip (readout question')).Perm
      (question.candidates.zip (readout question))

omit [RustStd] in
theorem commutes_of_map {α : Type} {readout : ChoiceQuestion → List α}
    {f : ChoiceQuestion → Candidate → α}
    (hreadout : ∀ question, readout question = question.candidates.map (f question))
    (h : ∀ question question', Reordered question question' → f question' = f question) :
    Commutes readout := by
  intro question question' hreordered
  have hzip : ∀ q : ChoiceQuestion, q.candidates.zip (readout q) =
      q.candidates.map fun c => (c, f q c) := by
    intro q
    rw [hreadout]
    simpa using List.zip_map' (f := id) (g := f q) (l := q.candidates)
  rw [hzip, hzip, h question question' hreordered]
  exact hreordered.candidates.map _

end Order

section Real

variable [RustStd] (state : State)

noncomputable def decideChoiceReal (question : ChoiceQuestion)
    (index : Option Lexical.Bm25Index) : Option (Masses ℝ × ℚ) :=
  decideChoiceOver Real.log Real.exp (queryFor state (.choice question)) question index

def indexOf (question : ChoiceQuestion) : Lexical.Bm25Index :=
  Lexical.Bm25Index.new (question.candidates.map Candidate.description)

noncomputable def scoresReal (question : ChoiceQuestion) : List ℝ :=
  (indexOf question).scoreAllOver Real.log (queryFor state (.choice question))

noncomputable def sharesReal (question : ChoiceQuestion) : List ℝ :=
  Lexical.softmaxOver Real.exp (Lexical.boundOver (scoresReal state question))

omit [RustStd] in
theorem queryFor_reordered {question question' : ChoiceQuestion}
    (h : Reordered question question') :
    queryFor state (.choice question') = queryFor state (.choice question) := by
  simp only [queryFor, DecisionQuestion.text, h.text]

theorem scoresReal_commutes : Commutes (scoresReal state) := by
  refine commutes_of_map (f := fun q => candidateScore Real.log (queryFor state (.choice q)) q)
    (fun q => ?_) fun q q' h => ?_
  · rw [scoresReal, indexOf, Lexical.scoreAllOver_new, List.map_map]
    rfl
  · rw [queryFor_reordered state h, candidateScore_reordered _ _ h]

theorem boundsReal_commutes : Commutes fun q => Lexical.boundOver (scoresReal state q) := by
  refine commutes_of_map (f := fun q => candidateBound Real.log (queryFor state (.choice q)) q)
    (fun q => boundOver_candidates _ _ q) fun q q' h => ?_
  rw [queryFor_reordered state h, candidateBound_reordered _ _ h]

theorem sharesReal_commutes : Commutes (sharesReal state) := by
  refine commutes_of_map
    (f := fun q => candidateShare Real.log Real.exp (queryFor state (.choice q)) q)
    (fun q => ?_) fun q q' h => ?_
  · rw [sharesReal, Lexical.softmaxOver_eq, scoresReal, indexOf, boundOver_candidates,
      List.map_map]
    rfl
  · rw [queryFor_reordered state h, candidateShare_reordered _ _ _ h]

/-- Every order of the candidates gives each of them the same probability, and the question the
same coverage, with or without an index over its own documents. -/
def ChoiceOrderFree (question : ChoiceQuestion) : Prop :=
  ∀ question', Reordered question question' →
    ∀ index ∈ [none, some (indexOf question)], ∀ index' ∈ [none, some (indexOf question')],
      ∃ r r', decideChoiceReal state question index = some r ∧
        decideChoiceReal state question' index' = some r' ∧
        (∀ candidate ∈ question.candidates,
          r'.1.probabilityOf candidate.id.text = r.1.probabilityOf candidate.id.text) ∧
        r'.2 = r.2

theorem ownIndex_iff (question : ChoiceQuestion) (index : Option Lexical.Bm25Index) :
    OwnIndex question index ↔ index ∈ [none, some (indexOf question)] := by
  cases index with
  | none => simp [OwnIndex]
  | some prebuilt => simp [OwnIndex, indexOf]

theorem choiceOrderFree_iff (question : ChoiceQuestion) : ChoiceOrderFree state question ↔
    OrderFree Real.log Real.exp (queryFor state (.choice question)) question := by
  constructor
  · intro h question' hreordered index index' hindex hindex'
    have hdecided := h question' hreordered index ((ownIndex_iff _ _).mp hindex) index'
      ((ownIndex_iff _ _).mp hindex')
    simpa only [decideChoiceReal, queryFor_reordered state hreordered] using hdecided
  · intro h question' hreordered index hindex index' hindex'
    have hdecided := h question' hreordered index index' ((ownIndex_iff _ _).mpr hindex)
      ((ownIndex_iff _ _).mpr hindex')
    simpa only [decideChoiceReal, queryFor_reordered state hreordered] using hdecided

/-- The scores, their bounds and the softmax go with the candidates, and the
whole decision does exactly when the candidates that tie for the best score
agree on their coverage. -/
theorem choice_order_law (question : ChoiceQuestion) :
    (Commutes (scoresReal state) ∧ (Commutes fun q => Lexical.boundOver (scoresReal state q)) ∧
      Commutes (sharesReal state)) ∧
    (ChoiceOrderFree state question ↔ ∀ candidate other,
      Best Real.log (queryFor state (.choice question)) question candidate →
      Best Real.log (queryFor state (.choice question)) question other →
        candidateCoverage (queryFor state (.choice question)) candidate =
          candidateCoverage (queryFor state (.choice question)) other) := by
  refine ⟨⟨scoresReal_commutes state, boundsReal_commutes state, sharesReal_commutes state⟩, ?_⟩
  rw [choiceOrderFree_iff, orderFree_iff Real.log _ Real.exp_pos]

end Real

section Tied

attribute [local instance] plainStd

def tiedFirst : Candidate := ⟨Sample.ident "first", "alpha zeta"⟩

def tiedSecond : Candidate := ⟨Sample.ident "second", "beta gamma"⟩

theorem tied_text_ne : "pick" ≠ "" := by decide

theorem tied_candidates_ne : [tiedFirst, tiedSecond] ≠ [] := by decide

theorem tied_unique : ([tiedFirst, tiedSecond].map Candidate.id).Nodup := by decide

/-- Two candidates that share no token; one token of the first is as frequent in the state as two
of the second. -/
def tiedQuestion : ChoiceQuestion where
  id := Sample.ident "area"
  text := "pick"
  candidates := [tiedFirst, tiedSecond]
  text_ne := tied_text_ne
  candidates_ne := tied_candidates_ne
  unique := tied_unique

def tiedQuery : String := "pick alpha alpha beta gamma"

def tiedIndex : Lexical.Bm25Index := Lexical.Bm25Index.new ["alpha zeta", "beta gamma"]

theorem tied_terms : (Lexical.queryTerms tiedQuery).entries =
    [("alpha", 2), ("beta", 1), ("gamma", 1), ("pick", 1)] := by decide +kernel

theorem tied_scores : Lexical.documentScore Real.log tiedIndex tiedQuery "alpha zeta" =
    Lexical.documentScore Real.log tiedIndex tiedQuery "beta gamma" := by
  have hrarity : ∀ term ∈ ["alpha", "beta", "gamma"], tiedIndex.rarity term = 2 := by
    decide +kernel
  have hlength : Lexical.lengthOf "alpha zeta" = 2 ∧ Lexical.lengthOf "beta gamma" = 2 := by
    decide +kernel
  have hfirst : ∀ entry ∈ [("alpha", 1), ("beta", 0), ("gamma", 0), ("pick", 0)],
      ((Lexical.frequenciesOf "alpha zeta").get? entry.1).getD 0 = entry.2 := by decide +kernel
  have hsecond : ∀ entry ∈ [("alpha", 0), ("beta", 1), ("gamma", 1), ("pick", 0)],
      ((Lexical.frequenciesOf "beta gamma").get? entry.1).getD 0 = entry.2 := by decide +kernel
  simp only [List.forall_mem_cons] at hrarity hfirst hsecond
  rw [Lexical.documentScore, Lexical.documentScore, tied_terms]
  simp only [List.map_cons, List.map_nil, List.sum_cons, List.sum_nil,
    Lexical.Bm25Index.termScoreOver, hfirst, hsecond, hrarity, hlength]
  norm_num
  ring

theorem tied_best : ∀ candidate ∈ tiedQuestion.candidates,
    Best Real.log tiedQuery tiedQuestion candidate := by
  intro candidate hcandidate
  refine ⟨hcandidate, fun other hother => le_of_eq ?_⟩
  have hscore : ∀ c ∈ tiedQuestion.candidates, candidateScore Real.log tiedQuery tiedQuestion c =
      Lexical.documentScore Real.log tiedIndex tiedQuery "beta gamma" := by
    intro c hc
    rcases List.mem_pair.mp hc with rfl | rfl
    · exact tied_scores
    · rfl
  rw [hscore candidate hcandidate, hscore other hother]

theorem order_changes_coverage :
    ¬ ChoiceOrderFree (State.fromText "alpha alpha beta gamma") tiedQuestion := by
  have hquery : queryFor (State.fromText "alpha alpha beta gamma") (.choice tiedQuestion) =
    tiedQuery := by decide +kernel
  have hcoverage : candidateCoverage tiedQuery tiedFirst ≠
    candidateCoverage tiedQuery tiedSecond := by decide +kernel
  rw [choiceOrderFree_iff, orderFree_iff Real.log _ Real.exp_pos, hquery]
  intro h
  exact hcoverage (h _ _ (tied_best _ (by decide)) (tied_best _ (by decide)))

end Tied

end LexicalClassifier

end OpenCodifier
