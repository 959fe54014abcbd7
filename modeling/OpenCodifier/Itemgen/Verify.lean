import OpenCodifier.Itemgen.Render
import OpenCodifier.Itemgen.FirstRestored
import OpenCodifier.Itemgen.Healthiest
import OpenCodifier.Itemgen.RootCause
set_option autoImplicit false

namespace OpenCodifier.Itemgen

open Sampling
open Facts (extract isName)
open RelationalSolver (Proves)

section Verifier

/-- Replace the occurrences of a pattern from left to right; so many characters of the last one
are still to be skipped. -/
def replaceFrom (pattern replacement : List Char) : Nat → List Char → List Char
  | _, [] => []
  | skip + 1, _ :: rest => replaceFrom pattern replacement skip rest
  | 0, c :: rest =>
    if pattern.isPrefixOf (c :: rest) then
      replacement ++ replaceFrom pattern replacement (pattern.length - 1) rest
    else c :: replaceFrom pattern replacement 0 rest

/-- The phrasing with the noun of the domain; none when there is no such phrasing. -/
def questionText (score : ScoreFamily) (sampled : Sampled) : Option String :=
  (sampled.family.phrasings score.questions)[sampled.phrasing]?.map fun phrasing =>
    String.ofList (replaceFrom "\x7bnoun\x7d".toList sampled.domain.noun.toList 0 phrasing.toList)

inductive Rejection where
  | roundTrip (text : String) (missing extra : List String)
  | candidate (error : CoreError)
  | phrasing (index : Nat)
  | question (error : CoreError)
  | solver (error : EngineError)
  | unproved (top : String) (probability : ℚ)

/-- The facts as the set of their canonical sentences. -/
def canonicalSentences (facts : List RelationalFact) : OrdMap String Unit :=
  (facts.map canonicalSentence).foldl (fun sentences s => sentences.insert s ()) OrdMap.empty

def without (a b : OrdMap String Unit) : List String := a.keys.filter fun s => !b.contains s

def orReject {ε α : Type} (reject : ε → Rejection) : Except ε α → Except Rejection α
  | .ok a => .ok a
  | .error e => .error (reject e)

variable [RustStd]

def lexicalSolver : Classifier :=
  RelationalSolver.classifier (LexicalClassifier.classifier "builtin-lexical-v2")

/-- Verify an item against its rendered text: the text states its facts, and the solver proves
the gold on its ballot. -/
def verifyItem (score : ScoreFamily) (sampled : Sampled) (text : String) :
    Except Rejection Unit := do
  let expected := canonicalSentences sampled.facts
  let got := canonicalSentences (extract text)
  if got ≠ expected then .error (.roundTrip text (without expected got) (without got expected))
  else
    let candidates ← orReject .candidate (sampled.ballot.mapM fun name =>
      Candidate.new name (sampled.domain.noun ++ " " ++ name))
    let phrased ← (questionText score sampled).elim (.error (.phrasing sampled.phrasing)) .ok
    let question ← orReject .question (ChoiceQuestion.new "q" phrased candidates)
    let distribution ← orReject .solver
      (lexicalSolver.decide (State.fromText text) (.choice question))
    let top := distribution.top
    if 1 / 1000000000 < |top.probability - 1| || top.key ≠ sampled.gold then
      .error (.unproved top.key top.probability)
    else .ok ()

end Verifier

section Solver

variable [RustStd]

/-- From facts that prove the gold the solver gives it all mass, on every ballot with it. -/
theorem decide_proved {inner : Classifier} {question : ChoiceQuestion} {state : State}
    {gold : String} (h : Proves (extract state.text) gold)
    (hgold : gold ∈ RelationalSolver.candidateIds question) :
    ∃ d, RelationalSolver.decide inner state (.choice question) = .ok d ∧
      d.entries = question.candidates.map fun c =>
        ⟨c.id.text, if c.id.text = gold then 1 else 0⟩ := by
  have hprove : RelationalSolver.prove question state = some gold := by
    rw [RelationalSolver.prove_eq, ← RelationalSolver.proven_eq]
    exact RelationalSolver.unanimous_of_proves h hgold
  obtain ⟨d, hd, hentries⟩ := RelationalSolver.certain_ok hgold
  refine ⟨d, ?_, by simpa [RelationalSolver.certainPairs, Function.comp_def] using hentries⟩
  simp only [RelationalSolver.decide, hprove, hd]

omit [RustStd] in
theorem top_certain {d : Distribution} {candidates : List Candidate} {gold : String}
    (hentries : d.entries = candidates.map fun c =>
      ⟨c.id.text, if c.id.text = gold then 1 else 0⟩)
    (hgold : gold ∈ candidates.map fun c => c.id.text) : d.top = ⟨gold, 1⟩ := by
  obtain ⟨c, hc, hcgold⟩ := List.mem_map.mp hgold
  have hone : (⟨gold, 1⟩ : DistributionEntry) ∈ d.entries := by
    rw [hentries]
    exact List.mem_map.mpr ⟨c, hc, by simp [hcgold]⟩
  have hle := d.le_top _ hone
  have hmem := d.top_mem
  rw [hentries] at hmem
  obtain ⟨c', -, htop⟩ := List.mem_map.mp hmem
  rw [← htop] at hle ⊢
  by_cases he : c'.id.text = gold
  · rw [if_pos he, he]
  · rw [if_neg he] at hle
    exact absurd hle (by norm_num)

end Solver

section Sentences

theorem mem_canonicalSentences {facts : List RelationalFact} {s : String} :
    (canonicalSentences facts).contains s = true ↔ s ∈ facts.map canonicalSentence := by
  have hfold : ∀ (l : List String) (sentences : OrdMap String Unit),
      s ∈ (l.foldl (fun sentences s => sentences.insert s ()) sentences).keys ↔
        s ∈ sentences.keys ∨ s ∈ l := by
    intro l
    induction l with
    | nil => simp
    | cons a l ih =>
      intro sentences
      rw [List.foldl_cons, ih, RelationalSolver.mem_keys_insert, List.mem_cons]
      tauto
  rw [OrdMap.contains_iff, canonicalSentences, hfold]
  simp [OrdMap.keys, OrdMap.empty]

theorem canonicalSentences_perm {order facts : List RelationalFact} (h : order.Perm facts) :
    canonicalSentences order = canonicalSentences facts := by
  refine OrdMap.ext_get? fun s => ?_
  have hmem : (canonicalSentences order).contains s = (canonicalSentences facts).contains s := by
    rw [Bool.eq_iff_iff, mem_canonicalSentences, mem_canonicalSentences]
    exact (h.map canonicalSentence).mem_iff
  rw [OrdMap.contains, OrdMap.contains] at hmem
  cases hleft : (canonicalSentences order).get? s <;>
    cases hright : (canonicalSentences facts).get? s <;> simp [hleft, hright] at hmem ⊢

end Sentences

section Questions

theorem replaceFrom_ne_nil {pattern replacement : List Char} {c : Char} {rest : List Char}
    (h : pattern.head? ≠ some c) (hne : pattern ≠ []) :
    replaceFrom pattern replacement 0 (c :: rest) ≠ [] := by
  obtain ⟨p, pattern, rfl⟩ := List.exists_cons_of_ne_nil hne
  have hpc : (p == c) = false := by simpa using h
  rw [replaceFrom, List.isPrefixOf, hpc, Bool.false_and, if_neg Bool.false_ne_true]
  exact List.cons_ne_nil _ _

theorem phrasing_starts (score : ScoreFamily) {family : Family} (hf : family ∈ families)
    {phrasing : String} (h : phrasing ∈ family.phrasings score.questions) :
    ∃ c rest, phrasing.toList = c :: rest ∧ c ≠ '{' := by
  have hpool : ∀ phrasing ∈ rootCauseQuestions ++ healthiestQuestions ++ firstRestoredQuestions,
      phrasing.toList.head?.any (fun c => c ≠ '{') = true := by decide
  have hmem : phrasing ∈ rootCauseQuestions ++ healthiestQuestions ++ firstRestoredQuestions := by
    simp only [families, List.mem_cons, List.not_mem_nil, or_false] at hf
    rcases hf with rfl | rfl | rfl | rfl <;> simp only [Family.phrasings] at h <;>
      simp only [List.mem_append, h, true_or, or_true]
  have hhead := hpool phrasing hmem
  cases hc : phrasing.toList with
  | nil =>
    rw [hc] at hhead
    cases hhead
  | cons c rest =>
    rw [hc] at hhead
    exact ⟨c, rest, rfl, by simpa using hhead⟩

theorem questionText_some (score : ScoreFamily) {sampled : Sampled}
    (hf : sampled.family ∈ families)
    (h : sampled.phrasing < (sampled.family.phrasings score.questions).length) :
    ∃ text, questionText score sampled = some text ∧ text ≠ "" := by
  rw [questionText, List.getElem?_eq_getElem h]
  refine ⟨_, rfl, fun he => ?_⟩
  obtain ⟨c, rest, hc, hne⟩ := phrasing_starts score hf (List.getElem_mem h)
  have hnil := congrArg String.toList he
  rw [String.toList_ofList, hc] at hnil
  exact replaceFrom_ne_nil (by simpa using hne.symm) (by decide) hnil

theorem validateId_of_isName {name : String} (h : isName name = true) :
    validateId name = .ok () := by
  obtain ⟨hne, hlen, hall, -⟩ := ((Facts.isName_iff name).mp h).1
  have hchars : name.toList.all idChar = true := by
    rw [List.all_eq_true] at hall ⊢
    intro c hc
    have hchar := hall c hc
    simp only [Facts.nameChar, idChar, Bool.or_eq_true] at hchar ⊢
    tauto
  have hshort : ¬ name.utf8ByteSize > maxIdLen := by
    have hmax : Facts.maxNameLen ≤ maxIdLen := by decide
    omega
  rw [validateId, if_neg hne, if_neg hshort, hchars]
  rfl

end Questions

section Law

theorem wellFormed_of_about {pool : List String} (hnames : ∀ name ∈ pool, isName name = true)
    {fact : RelationalFact} (h : About pool fact) : WellFormed fact := by
  cases fact with
  | dependsOn x y => exact ⟨hnames x h.1, hnames y h.2⟩
  | health x status => exact hnames x h
  | healthList x statuses => exact ⟨hnames x h.1, h.2⟩
  | restoresAfter x y => exact ⟨hnames x h.1, hnames y h.2⟩
  | deadline x t => exact h.elim
  | event x t => exact h.elim

/-- No sampler of a choice family faults, and what it gives is sound. -/
theorem yields_sampler (score : ScoreFamily) {domain : Domain} (hn : domain.names.Nodup)
    (h5 : 5 ≤ domain.names.length) {family : Family} (hf : family ∈ families) :
    Yields (family.sampler score domain) fun sampled => ∀ family' domain' phrasing,
      Sound domain.names ⟨sampled.facts, sampled.gold, sampled.distractors, family', domain',
        phrasing⟩ := by
  have hroot : ∀ withOrder, Yields (rootCause domain withOrder) fun sampled =>
      ∀ family' domain' phrasing, Sound domain.names ⟨sampled.facts, sampled.gold,
        sampled.distractors, family', domain', phrasing⟩ := by
    intro withOrder
    refine (yields_rootCause hn h5 withOrder).imp ?_
    rintro _ ⟨draw, hfits, rfl⟩
    exact sound_rootCause hfits
  simp only [families, List.mem_cons, List.not_mem_nil, or_false] at hf
  rcases hf with rfl | rfl | rfl | rfl
  · exact hroot false
  · exact hroot true
  · refine (yields_healthiest hn h5).imp ?_
    rintro _ ⟨board, hfits, rfl⟩
    exact sound_board hfits
  · refine (yields_firstRestored hn h5).imp ?_
    rintro _ ⟨order, hfits, rfl⟩
    exact sound_order hfits hn

theorem candidates_ok (noun : String) {names : List String}
    (h : ∀ name ∈ names, isName name = true) :
    ∃ candidates : List Candidate,
      (names.mapM fun name => Candidate.new name (noun ++ " " ++ name)) = .ok candidates ∧
        (candidates.map fun c => c.id.text) = names := by
  induction names with
  | nil => exact ⟨[], rfl, rfl⟩
  | cons name names ih =>
    rw [List.forall_mem_cons] at h
    obtain ⟨candidates, hmap, hids⟩ := ih h.2
    let id : CandidateId := ⟨name, validateId_of_isName h.1⟩
    refine ⟨⟨id, noun ++ " " ++ name⟩ :: candidates, ?_, by rw [List.map_cons, hids]⟩
    have hid : (Ident.new name : CoreResult CandidateId) = .ok id := Ident.new_text id
    rw [List.mapM_cons, hmap, Candidate.new, hid]
    rfl

variable [RustStd]

/-- An item over extractor names passes the verifier on every text that states its facts. -/
theorem verifyItem_ok (score : ScoreFamily) {pool : List String} {sampled : Sampled} {text : String}
    (hsound : Sound pool sampled) (hnames : ∀ name ∈ pool, isName name = true)
    (hphrased : ∃ phrased, questionText score sampled = some phrased ∧ phrased ≠ "")
    (htext : (extract text).Perm sampled.facts) : verifyItem score sampled text = .ok () := by
  obtain ⟨phrased, hquestion, hne⟩ := hphrased
  obtain ⟨candidates, hcandidates, hids⟩ := candidates_ok sampled.domain.noun
    fun name hname => hnames name (hsound.inPool name hname)
  have hunique : (candidates.map Candidate.id).Nodup := by
    refine List.Nodup.of_map Ident.text ?_
    rw [List.map_map]
    exact hids ▸ hsound.distinct
  have hnonempty : candidates ≠ [] := by
    rintro rfl
    exact List.cons_ne_nil _ _ hids.symm
  let question : ChoiceQuestion := ⟨⟨"q", rfl⟩, phrased, candidates, hne, hnonempty, hunique⟩
  have hnew : ChoiceQuestion.new "q" phrased candidates = .ok question := question.new_self
  have hgold : sampled.gold ∈ RelationalSolver.candidateIds question := by
    have hids' : RelationalSolver.candidateIds question = sampled.ballot := hids
    rw [hids']
    exact List.mem_cons_self
  have hproves : Proves (extract (State.fromText text).text) sampled.gold :=
    hsound.proves_perm htext
  obtain ⟨d, hdecide, hentries⟩ :
      ∃ d, lexicalSolver.decide (State.fromText text) (.choice question) = .ok d ∧
        d.entries = question.candidates.map fun c =>
          ⟨c.id.text, if c.id.text = sampled.gold then 1 else 0⟩ := decide_proved hproves hgold
  have htop := top_certain hentries hgold
  rw [verifyItem, canonicalSentences_perm htext, if_neg (not_not.mpr rfl), hcandidates, hquestion]
  simp only [orReject, Option.elim, bind, Except.bind, hnew, hdecide, htop]
  norm_num

theorem renders_ok (hlaws : BlankLaws) (score : ScoreFamily) {pool : List String}
    {sampled : Sampled} (hsound : Sound pool sampled) (hnames : ∀ name ∈ pool, isName name = true)
    (hphrased : ∃ phrased, questionText score sampled = some phrased ∧ phrased ≠ "")
    (drawn : Rng) :
    ∃ text drawn', stateText sampled.facts drawn = .ok (text, drawn') ∧
      verifyItem score sampled text = .ok () := by
  obtain ⟨-, -, order, text, drawn', -, -, hperm, htext, hextract⟩ := stateText_order hlaws
    (fun fact hfact => wellFormed_of_about hnames (hsound.about fact hfact)) drawn
  exact ⟨text, drawn', htext, verifyItem_ok score hsound hnames hphrased (hextract ▸ hperm)⟩

/-- From every pool of at least six different names and every generator a choice family gives an
item: at least five different candidates, and facts from which the solver gives the gold all
mass in whatever order they are read. Where the names are names to the extractor, no rendering of
the item is rejected. -/
theorem sample_proved (hlaws : BlankLaws) (score : ScoreFamily) {domains : List Domain}
    (hne : domains ≠ [])
    (hpool : ∀ domain ∈ domains, domain.names.Nodup ∧ 6 ≤ domain.names.length) {family : Family}
    (hfamily : family ∈ families) (rng : Rng) :
    ∃ sampled rng', sample score domains family rng = .ok (sampled, rng') ∧
      sampled.domain ∈ domains ∧ sampled.family = family ∧
      5 ≤ sampled.ballot.length ∧ sampled.ballot.Nodup ∧
      (∀ (inner : Classifier) (question : ChoiceQuestion) (state : State),
        RelationalSolver.candidateIds question = sampled.ballot →
        (extract state.text).Perm sampled.facts →
        ∃ d, RelationalSolver.decide inner state (.choice question) = .ok d ∧
          d.entries = question.candidates.map fun c =>
            ⟨c.id.text, if c.id.text = sampled.gold then 1 else 0⟩) ∧
      ((∀ name ∈ sampled.domain.names, isName name = true) → ∀ drawn : Rng,
        ∃ text drawn', stateText sampled.facts drawn = .ok (text, drawn') ∧
          verifyItem score sampled text = .ok ()) := by
  have hyields : Yields (sample score domains family) fun sampled =>
      sampled.domain ∈ domains ∧ sampled.family = family ∧
        sampled.phrasing < (family.phrasings score.questions).length ∧
        Sound sampled.domain.names sampled := by
    refine (Draw.yields_pick hne).bind fun domain hdomain => ?_
    obtain ⟨hnodup, hsix⟩ := hpool domain hdomain
    have hphrasings : 0 < (family.phrasings score.questions).length := by
      simp only [families, List.mem_cons, List.not_mem_nil, or_false] at hfamily
      rcases hfamily with rfl | rfl | rfl | rfl <;> exact Nat.succ_pos _
    refine (Draw.yields_below hphrasings).bind fun phrasing hphrasing => ?_
    refine (yields_sampler score hnodup (by omega) hfamily).bind fun sampled hsound => ?_
    exact yields_pure ⟨hdomain, rfl, hphrasing, hsound family domain phrasing⟩
  obtain ⟨sampled, rng', hrun, hdomain, rfl, hphrasing, hsound⟩ := hyields rng
  refine ⟨sampled, rng', hrun, hdomain, rfl, hsound.slots, hsound.distinct,
    fun inner question state hids hfacts =>
      decide_proved (hsound.proves_perm hfacts) (hids ▸ List.mem_cons_self),
    fun hnames drawn => renders_ok hlaws score hsound hnames
      (questionText_some score hfamily hphrasing) drawn⟩

end Law

section Samples

attribute [local instance] plainStd

theorem domains_pooled : ∀ domain ∈ domains, domain.names.Nodup ∧ 6 ≤ domain.names.length ∧
    ∀ name ∈ domain.names, isName name = true := by decide +kernel

/-- The domains of the generator, whatever its score family is. -/
theorem sample_proved_domains :
    (BlankLaws ∧ domains ≠ [] ∧
      (∀ domain ∈ domains, domain.names.Nodup ∧ 6 ≤ domain.names.length) ∧
      Family.firstRestoredChain ∈ families) ∧
    ∃ sampled rng', sample ⟨[], fun _ => throw .outOfRange⟩ domains .firstRestoredChain ⟨3⟩ =
        .ok (sampled, rng') ∧ 5 ≤ sampled.ballot.length ∧ sampled.ballot.Nodup ∧
      ∃ text drawn', stateText sampled.facts rng' = .ok (text, drawn') ∧
        verifyItem ⟨[], fun _ => throw .outOfRange⟩ sampled text = .ok () := by
  have hpool : ∀ domain ∈ domains, domain.names.Nodup ∧ 6 ≤ domain.names.length :=
    fun domain h => ⟨(domains_pooled domain h).1, (domains_pooled domain h).2.1⟩
  have hall := sample_proved plain_blankLaws ⟨[], fun _ => throw .outOfRange⟩
    (show domains ≠ [] by decide) hpool (show Family.firstRestoredChain ∈ families by decide) ⟨3⟩
  obtain ⟨sampled, rng', hrun, hdomain, -, hslots, hdistinct, -, hverified⟩ := hall
  exact ⟨⟨plain_blankLaws, by decide, hpool, by decide⟩, sampled, rng', hrun, hslots, hdistinct,
    hverified (domains_pooled _ hdomain).2.2 rng'⟩

end Samples

end OpenCodifier.Itemgen
