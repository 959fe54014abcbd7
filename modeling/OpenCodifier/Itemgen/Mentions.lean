import OpenCodifier.Lib.Words
import OpenCodifier.Itemgen.Pairs
set_option autoImplicit false

namespace OpenCodifier.Itemgen

open Sampling
open Neighbours (windows)
open Words (words)

section Probe

/-- Letters and digits in lower case, with one blank for what stands between them; whether the
last character was a blank goes along. -/
def normalizeStep (state : List Char × Bool) (c : Char) : List Char × Bool :=
  if c.isAlphanum then (state.1 ++ [c.toLower], false)
  else if state.2 then state
  else (state.1 ++ [' '], true)

variable [RustStd]

def normalize (text : String) : List Char :=
  (text.toList.foldl normalizeStep ([], true)).1.rdropWhile RustStd.isWhitespace

def tokens (text : String) : List String :=
  (words RustStd.isWhitespace (normalize text)).map String.ofList

/-- Whether the gold is the uniquely most-mentioned name in the state. -/
def mentionProbe (sampled : Sampled) (state : String) : Bool :=
  let tokens := tokens state
  let goldCount := tokens.count sampled.gold
  decide (0 < goldCount) && sampled.distractors.all fun d => tokens.count d.name < goldCount

end Probe

section Normalization

def separator (c : Char) : Bool := !c.isAlphanum

def mentions (text : String) : List String :=
  (words separator (text.toList.map Char.toLower)).map String.ofList

theorem isAlphanum_toLower (c : Char) : c.toLower.isAlphanum = c.isAlphanum := by
  by_cases h : c.val ≥ 'A'.val ∧ c.val ≤ 'Z'.val
  · have hval : c.toLower.val = c.val + 32 := by
      have hlow : c.toLower = _ := dif_pos h
      rw [hlow]
      rfl
    have hlower : c.toLower.isLower = true := by
      have h1 := h.1
      have h2 := h.2
      rw [ge_iff_le, UInt32.le_iff_toNat_le] at h1
      rw [UInt32.le_iff_toNat_le] at h2
      change (decide (c.toLower.val ≥ 'a'.val) && decide (c.toLower.val ≤ 'z'.val)) = true
      rw [hval, Bool.and_eq_true, decide_eq_true_iff, decide_eq_true_iff, ge_iff_le,
        UInt32.le_iff_toNat_le, UInt32.le_iff_toNat_le, UInt32.toNat_add]
      simp at h1 h2 ⊢
      omega
    have hupper : c.isUpper = true := decide_eq_true h
    have hclasses : ∀ d : Char, d.isAlphanum = (d.isUpper || d.isLower || d.isDigit) :=
      fun _ => rfl
    simp [hclasses, hlower, hupper]
  · have hself : c.toLower = c := dif_neg h
    rw [hself]

theorem visible_of_isAlphanum {c : Char} (h : c.isAlphanum = true) : '!' ≤ c ∧ c ≤ '~' := by
  have hname : Facts.nameChar c = true := by simp [Facts.nameChar, h]
  exact ⟨(visible_of_nameChar hname).1, (visible_of_nameChar hname).2.1⟩

variable [RustStd]

theorem not_blank_of_isAlphanum (hlaws : BlankLaws) {c : Char} (h : c.isAlphanum = true) :
    RustStd.isWhitespace c = false :=
  hlaws.visible c (visible_of_isAlphanum h).1 (visible_of_isAlphanum h).2

/-- Nothing, or something that ends with a blank. -/
def Parted (chars : List Char) : Prop := chars = [] ∨ ∃ front, chars = front ++ [' ']

theorem words_parted (hlaws : BlankLaws) {chars word : List Char} (h : Parted chars)
    (hne : word ≠ []) (hword : ∀ c ∈ word, c.isAlphanum = true) :
    words RustStd.isWhitespace (chars ++ word) = words RustStd.isWhitespace chars ++ [word] := by
  have hone : words RustStd.isWhitespace word = [word] :=
    Words.words_of_none hne fun c hc => not_blank_of_isAlphanum hlaws (hword c hc)
  rcases h with rfl | ⟨front, rfl⟩
  · rw [List.nil_append, hone, Words.words_nil, List.nil_append]
  · rw [List.append_assoc, List.singleton_append, Words.words_append_cons front word hlaws.blank,
      hone, Words.words_append_singleton front hlaws.blank]

/-- The words of what the normalization makes of a text: between words, and inside one. -/
theorem words_foldl (hlaws : BlankLaws) (text : List Char) :
    (∀ out, Parted out → words RustStd.isWhitespace (text.foldl normalizeStep (out, true)).1 =
      words RustStd.isWhitespace out ++ words separator (text.map Char.toLower)) ∧
    ∀ out word, Parted out → word ≠ [] → (∀ c ∈ word, c.isAlphanum = true) →
      words RustStd.isWhitespace (text.foldl normalizeStep (out ++ word, false)).1 =
        words RustStd.isWhitespace out ++ words separator (word ++ text.map Char.toLower) := by
  have hsep : ∀ word : List Char, word ≠ [] → (∀ c ∈ word, c.isAlphanum = true) →
      words separator word = [word] := fun word hne hword =>
    Words.words_of_none hne fun c hc => by rw [separator, hword c hc]; rfl
  induction text with
  | nil =>
    refine ⟨fun out _ => by simp [Words.words_nil], fun out word hout hne hword => ?_⟩
    rw [List.foldl_nil, List.map_nil, List.append_nil, hsep word hne hword,
      words_parted hlaws hout hne hword]
  | cons c text ih =>
    obtain ⟨hbetween, hinside⟩ := ih
    cases hc : c.isAlphanum with
    | true =>
      have hlower : c.toLower.isAlphanum = true := (isAlphanum_toLower c).trans hc
      refine ⟨fun out hout => ?_, fun out word hout hne hword => ?_⟩
      · rw [List.foldl_cons, normalizeStep, if_pos hc, hinside out [c.toLower] hout
          (List.cons_ne_nil _ _) (by simpa using hlower)]
        rfl
      · have hlonger : ∀ d ∈ word ++ [c.toLower], d.isAlphanum = true := by
          simpa [or_imp, forall_and] using ⟨hword, hlower⟩
        rw [List.foldl_cons, normalizeStep, if_pos hc, List.append_assoc,
          hinside out (word ++ [c.toLower]) hout (by simp) hlonger, List.append_assoc]
        rfl
    | false =>
      have hcut : separator c.toLower = true := by rw [separator, isAlphanum_toLower, hc]; rfl
      refine ⟨fun out hout => ?_, fun out word hout hne hword => ?_⟩
      · rw [List.foldl_cons, normalizeStep, if_neg (by simp [hc]), if_pos rfl, hbetween out hout,
          List.map_cons, Words.words_cons_sep _ hcut]
      · rw [List.foldl_cons, normalizeStep, if_neg (by simp [hc]), if_neg Bool.false_ne_true,
          hbetween _ (Or.inr ⟨out ++ word, rfl⟩), Words.words_append_singleton _ hlaws.blank,
          words_parted hlaws hout hne hword, List.map_cons, Words.words_append_cons _ _ hcut,
          hsep word hne hword, List.append_assoc]

theorem tokens_eq (hlaws : BlankLaws) (text : String) : tokens text = mentions text := by
  have hfold := (words_foldl hlaws text.toList).1 [] (Or.inl rfl)
  rw [Words.words_nil, List.nil_append] at hfold
  rw [tokens, normalize, Words.words_rdropWhile, hfold, mentions]

end Normalization

section Sentences

def LoneWord (name : String) : Prop :=
  name.toList ≠ [] ∧ ∀ c ∈ name.toList, c.isAlphanum = true ∧ c.toLower = c

instance (name : String) : Decidable (LoneWord name) :=
  @instDecidableAnd _ _ inferInstance (List.decidableBAll _ _)

def sentenceWords : List String :=
  ["depends", "on", "is", "healthy", "degraded", "failing", "down", "offline", "comes", "back",
    "online", "only", "after"]

theorem sentenceWords_lone : ∀ word ∈ sentenceWords, LoneWord word := by decide

theorem mentions_lone {name : String} (h : LoneWord name) : mentions name = [name] := by
  have hlower : name.toList.map Char.toLower = name.toList :=
    (List.map_congr_left fun c hc => (h.2 c hc).2).trans (List.map_id _)
  have hnone : ∀ c ∈ name.toList, separator c = false := fun c hc => by
    rw [separator, (h.2 c hc).1]
    rfl
  rw [mentions, hlower, Words.words_of_none h.1 hnone, List.map_singleton, String.ofList_toList]

theorem mentions_loneWords {names : List String} (h : ∀ name ∈ names, LoneWord name) :
    names.flatMap mentions = names := by
  induction names with
  | nil => rfl
  | cons name names ih =>
    rw [List.forall_mem_cons] at h
    rw [List.flatMap_cons, mentions_lone h.1, ih h.2, List.singleton_append]

theorem separator_toLower (c : Char) : separator c.toLower = separator c := by
  rw [separator, isAlphanum_toLower, separator]

/-- A text that is joined from parts mentions what they mention. -/
theorem mentions_intercalate {s : String} (hne : s.toList ≠ [])
    (hsep : s.toList.all separator = true) (parts : List String) :
    mentions (s.intercalate parts) = parts.flatMap mentions := by
  have hlower : (s.intercalate parts).toList.map Char.toLower =
      (s.toList.map Char.toLower).intercalate
        ((parts.map String.toList).map (List.map Char.toLower)) := by
    rw [String.toList_intercalate, Words.map_intercalate]
  have hcut : ∀ c ∈ s.toList.map Char.toLower, separator c = true := by
    intro c hc
    obtain ⟨d, hd, rfl⟩ := List.mem_map.mp hc
    rw [separator_toLower]
    exact List.all_eq_true.mp hsep d hd
  rw [mentions, hlower, Words.words_intercalate (by simpa using hne) hcut, List.flatMap_map,
    List.flatMap_map, List.map_flatMap]
  rfl

/-- The sentence mentions the entities of the fact, and no other name. -/
def Names (fact : RelationalFact) (sentence : String) : Prop :=
  ∀ name, name ∉ sentenceWords → (mentions sentence).count name = (entitiesOf fact).count name

theorem names_of_phrase {fact : RelationalFact} {front phrase back : List String}
    (hphrase : ∀ word ∈ phrase, word ∈ sentenceWords) (hfact : entitiesOf fact = front ++ back)
    (hlone : ∀ entity ∈ entitiesOf fact, LoneWord entity) :
    Names fact (" ".intercalate (front ++ phrase ++ back)) := by
  intro name hname
  have hall : ∀ word ∈ front ++ phrase ++ back, LoneWord word := by
    rw [hfact, List.forall_mem_append] at hlone
    rw [List.forall_mem_append, List.forall_mem_append]
    exact ⟨⟨hlone.1, fun word hword => sentenceWords_lone word (hphrase word hword)⟩, hlone.2⟩
  have hnone : phrase.count name = 0 :=
    List.count_eq_zero_of_not_mem fun hmem => hname (hphrase name hmem)
  rw [mentions_intercalate (by decide) (by decide), mentions_loneWords hall, hfact]
  simp only [List.count_append, hnone, add_zero]

theorem names_dependsOn {x y : String} (hx : LoneWord x) (hy : LoneWord y) :
    Names (.dependsOn x y) (x ++ " depends on " ++ y) := by
  have htext : x ++ " depends on " ++ y = " ".intercalate ([x] ++ ["depends", "on"] ++ [y]) :=
    String.toList_injective (by simp)
  rw [htext]
  exact names_of_phrase (by decide) rfl (by simpa [entitiesOf] using ⟨hx, hy⟩)

theorem names_restoresAfter {x y : String} (hx : LoneWord x) (hy : LoneWord y) :
    Names (.restoresAfter x y) (x ++ " comes back online only after " ++ y) := by
  have htext : x ++ " comes back online only after " ++ y =
      " ".intercalate ([x] ++ ["comes", "back", "online", "only", "after"] ++ [y]) :=
    String.toList_injective (by simp)
  rw [htext]
  exact names_of_phrase (by decide) rfl (by simpa [entitiesOf] using ⟨hx, hy⟩)

theorem names_health {x word : String} (status : Health) (hx : LoneWord x)
    (hword : word ∈ sentenceWords) : Names (.health x status) (x ++ " is " ++ word) := by
  have htext : x ++ " is " ++ word = " ".intercalate ([x] ++ ["is", word] ++ []) :=
    String.toList_injective (by simp)
  have hphrase : ∀ w ∈ ["is", word], w ∈ sentenceWords := by
    rw [List.forall_mem_cons, List.forall_mem_singleton]
    exact ⟨by decide, hword⟩
  rw [htext]
  exact names_of_phrase hphrase rfl (by simpa [entitiesOf] using hx)

theorem names_healthList {x : String} {words : List String} (statuses : List Health)
    (hx : LoneWord x) (hwords : ∀ word ∈ words, word ∈ sentenceWords) :
    Names (.healthList x statuses) (x ++ ": " ++ ", ".intercalate words) := by
  intro name hname
  have htext : x ++ ": " ++ ", ".intercalate words =
      ": ".intercalate [x, ", ".intercalate words] := String.toList_injective (by simp)
  have hnone : words.count name = 0 :=
    List.count_eq_zero_of_not_mem fun hmem => hname (hwords name hmem)
  have hlone : words.flatMap mentions = words :=
    mentions_loneWords fun word hword => sentenceWords_lone word (hwords word hword)
  rw [htext, mentions_intercalate (by decide) (by decide), List.flatMap_cons,
    List.flatMap_singleton, mentions_lone hx, mentions_intercalate (by decide) (by decide), hlone,
    List.count_append, hnone, add_zero, entitiesOf]

theorem yields_statusWord_mem (status : Health) :
    Yields (statusWord status) (· ∈ sentenceWords) := by
  cases status with
  | healthy => exact yields_pure (by decide)
  | degraded => exact yields_pure (by decide)
  | down =>
    have hsub : ∀ word ∈ downWords, word ∈ sentenceWords := by decide
    exact (Draw.yields_pick (List.cons_ne_nil _ _)).imp hsub

variable {pool : List String}

theorem yields_names (hpool : ∀ name ∈ pool, LoneWord name) {fact : RelationalFact}
    (h : About pool fact) : Yields (factSentence fact) (Names fact) := by
  cases fact with
  | dependsOn x y => exact yields_pure (names_dependsOn (hpool x h.1) (hpool y h.2))
  | health x status =>
    refine (yields_statusWord_mem status).bind fun word hword => ?_
    exact yields_pure (names_health status (hpool x h) hword)
  | healthList x statuses =>
    refine (yields_mapM statuses fun status _ => yields_statusWord_mem status).bind
      fun words hwords => yields_pure (names_healthList statuses (hpool x h.1) ?_)
    intro word hword
    obtain ⟨i, hi, rfl⟩ := List.mem_iff_getElem.mp hword
    exact (List.forall₂_iff_get.mp hwords).2 i (by rw [hwords.length_eq]; exact hi) hi
  | restoresAfter x y => exact yields_pure (names_restoresAfter (hpool x h.1) (hpool y h.2))
  | deadline x t => exact h.elim
  | event x t => exact h.elim

def stated (facts : List RelationalFact) (name : String) : Nat :=
  (facts.flatMap entitiesOf).count name

theorem stated_of_names {facts : List RelationalFact} {sentences : List String}
    (h : List.Forall₂ Names facts sentences) {name : String} (hname : name ∉ sentenceWords) :
    (sentences.flatMap mentions).count name = stated facts name := by
  rw [stated]
  induction h with
  | nil => rfl
  | @cons fact sentence facts sentences hfact _ ih =>
    rw [List.flatMap_cons, List.flatMap_cons, List.count_append, List.count_append,
      hfact name hname, ih]

/-- In every order of its sentences, the text mentions a name as often as the facts do. -/
theorem yields_stateText (hpool : ∀ name ∈ pool, LoneWord name) {facts : List RelationalFact}
    (h : ∀ fact ∈ facts, About pool fact) :
    Yields (stateText facts) fun text => ∀ name, name ∉ sentenceWords →
      (mentions text).count name = stated facts name := by
  refine (yields_mapM facts fun fact hfact => yields_names hpool (h fact hfact)).bind
    fun sentences hsentences => ?_
  refine (Draw.yields_shuffle sentences).bind fun order hperm => yields_pure fun name hname => ?_
  have hperiod : mentions (". ".intercalate order ++ ".") = order.flatMap mentions := by
    rw [← @mentions_intercalate ". " (by decide) (by decide), mentions, mentions,
      String.toList_append, List.map_append]
    exact congrArg _ (Words.words_append_singleton _ (by decide))
  rw [hperiod, (hperm.flatMap_right mentions).count_eq, stated_of_names hsentences hname]

end Sentences

section Counts

variable {pool : List String} {draw : RootCauseDraw} {withOrder : Bool}

def RootCauseDraw.reported (draw : RootCauseDraw) : List String :=
  draw.gold :: draw.symptoms ++ draw.standalone ::
    match draw.pair with
    | some (ballot, noise) => [ballot, noise]
    | none => []

/-- In how many pairs of neighbours on a chain a name stands. -/
def links (chain : List String) (name : String) : Nat :=
  ((windows chain).flatMap fun pair => [pair.2, pair.1]).count name

theorem stated_cons (fact : RelationalFact) (facts : List RelationalFact) (name : String) :
    stated (fact :: facts) name = (entitiesOf fact).count name + stated facts name := by
  rw [stated, List.flatMap_cons, List.count_append, stated]

theorem stated_append (front back : List RelationalFact) (name : String) :
    stated (front ++ back) name = stated front name + stated back name := by
  rw [stated, List.flatMap_append, List.count_append, stated, stated]

theorem stated_reports {α : Type} (l : List α) (fact : α → RelationalFact) (entity : α → String)
    (h : ∀ a ∈ l, entitiesOf (fact a) = [entity a]) (name : String) :
    stated (l.map fact) name = (l.map entity).count name := by
  induction l with
  | nil => rfl
  | cons a l ih =>
    rw [List.forall_mem_cons] at h
    rw [List.map_cons, stated_cons, h.1, ih h.2, ← List.count_append]
    rfl

theorem stated_windows (pairs : List (String × String)) (withOrder : Bool) (name : String) :
    stated (pairs.flatMap fun pair => .dependsOn pair.2 pair.1 ::
        (if withOrder then [RelationalFact.restoresAfter pair.2 pair.1] else [])) name =
      (if withOrder then 2 else 1) *
        (pairs.flatMap fun pair => [pair.2, pair.1]).count name := by
  induction pairs with
  | nil => simp [stated]
  | cons pair pairs ih =>
    rw [List.flatMap_cons, stated_append, ih, List.flatMap_cons, List.count_append, Nat.mul_add]
    congr 1
    cases withOrder with
    | true => simp [stated, entitiesOf, List.count_cons]; omega
    | false => simp [stated, entitiesOf]

theorem stated_rootCause (draw : RootCauseDraw) (withOrder : Bool) (name : String) :
    stated (rootCauseFacts draw withOrder) name =
      (if withOrder then 2 else 1) * links draw.chain name + draw.reported.count name := by
  have hsymptoms : stated (draw.symptoms.map fun symptom => .health symptom .down) name =
      draw.symptoms.count name := by
    rw [stated_reports draw.symptoms _ id (fun _ _ => rfl), List.map_id]
  rw [rootCauseFacts, RootCauseDraw.reported]
  simp only [stated_append, stated_windows, hsymptoms]
  rw [← links]
  rcases draw.pair with _ | ⟨ballot, noise⟩
  · simp only [stated, entitiesOf, List.flatMap_cons, List.flatMap_nil, List.append_nil,
      List.count_append, List.count_cons, List.count_nil]
    omega
  · simp only [stated, entitiesOf, List.flatMap_cons, List.flatMap_nil, List.append_nil,
      List.count_append, List.count_cons, List.count_nil]
    omega

theorem RootCauseDraw.Fits.reported_nodup (h : draw.Fits pool) : draw.reported.Nodup := by
  obtain ⟨first, second, far, kept, hchain, hsymptoms, hsub⟩ := h.chain
  refine List.Sublist.nodup ?_ h.distinct
  rw [RootCauseDraw.reported, RootCauseDraw.others, hchain, hsymptoms]
  refine List.Sublist.append (((hsub.cons_cons second).cons_cons first).cons_cons draw.gold) ?_
  exact ((List.Sublist.refl _).cons draw.unrelated).cons_cons draw.standalone

theorem mem_reported {name : String} :
    name ∈ draw.reported ↔ name = draw.gold ∨ name ∈ draw.symptoms ∨ name = draw.standalone ∨
      ∃ ballot noise, draw.pair = some (ballot, noise) ∧ (name = ballot ∨ name = noise) := by
  rw [RootCauseDraw.reported]
  rcases draw.pair with _ | ⟨ballot, noise⟩
  · simp
  · simp

def Matched (facts : List RelationalFact) (gold : String) (distractors : List Distractor) : Prop :=
  ∃ d ∈ distractors, stated facts gold ≤ stated facts d.name

theorem matched_rootCause (h : draw.Fits pool) (withOrder : Bool) :
    Matched (rootCauseFacts draw withOrder) draw.gold (rootCauseDistractors draw) := by
  obtain ⟨first, second, far, kept, hchain, hsymptoms, -⟩ := h.chain
  have hnodup := h.chain_nodup
  have hmem : (⟨first, .symptom⟩ : Distractor) ∈ rootCauseDistractors draw := by
    rw [rootCauseDistractors, topUp_full _ _ _ (by simp [hsymptoms]), hsymptoms]
    simp
  have hreported : first ∈ draw.reported :=
    mem_reported.mpr (Or.inr (Or.inl (by simp [hsymptoms])))
  have hgold : draw.reported.count draw.gold = 1 :=
    List.count_eq_one_of_mem h.reported_nodup (mem_reported.mpr (Or.inl rfl))
  have hfirst : draw.reported.count first = 1 :=
    List.count_eq_one_of_mem h.reported_nodup hreported
  rw [hchain] at hnodup
  have hends : links draw.chain draw.gold = 1 := by
    rw [links, hchain]
    exact @Neighbours.count_neighbours _ _ _ _ [] _ hnodup
  have hinner : links draw.chain first = 2 := by
    rw [links, hchain]
    exact @Neighbours.count_neighbours _ _ _ _ [draw.gold] _ hnodup
  refine ⟨_, hmem, ?_⟩
  rw [stated_rootCause, stated_rootCause, hgold, hfirst, hends, hinner]
  omega

theorem stated_twin (draw : RootCauseDraw) (name : String) :
    stated (twinFacts draw) name = stated (rootCauseFacts draw false) name := by
  rw [rootCauseFacts_eq, twinFacts, stated_append, stated_append, stated_cons, stated_cons]
  rfl

/-- The new gold stands in two pairs; the only other symptom on the ballot does so when the chain
goes on behind it. -/
theorem matched_twin (h : draw.Fits pool) {first second : String} {far : List String}
    (hchain : draw.chain = draw.gold :: first :: second :: far) {ballot noise : String}
    (hpair : draw.pair = some (ballot, noise)) :
    Matched (twinFacts draw) first (twinDistractors draw first) ↔ far ≠ [] := by
  obtain ⟨kept, hsymptoms⟩ := h.symptoms_eq hchain
  have hnodup := h.chain_nodup
  have hstated : ∀ name, stated (twinFacts draw) name =
      links draw.chain name + draw.reported.count name := fun name => by
    rw [stated_twin, stated_rootCause, if_neg Bool.false_ne_true, Nat.one_mul]
  have hsymptom : ∀ name ∈ [first, second], draw.reported.count name = 1 := fun name hname =>
    List.count_eq_one_of_mem h.reported_nodup (mem_reported.mpr (Or.inr (Or.inl (by
      rw [hsymptoms]
      exact List.mem_append_left kept hname))))
  have hother : ∀ name ∈ draw.others, stated (twinFacts draw) name ≤ 1 := fun name hname => by
    rw [hstated, links, Neighbours.count_windows_eq_zero (h.other_notMem hname), Nat.zero_add]
    exact List.nodup_iff_count_le_one.mp h.reported_nodup name
  rw [hchain] at hnodup
  have hgold : stated (twinFacts draw) draw.gold ≤ 2 := by
    have hends : links draw.chain draw.gold = 1 := by
      rw [links, hchain]
      exact @Neighbours.count_neighbours _ _ _ _ [] _ hnodup
    have hone := List.nodup_iff_count_le_one.mp h.reported_nodup draw.gold
    rw [hstated, hends]
    omega
  have hfirst : stated (twinFacts draw) first = 3 := by
    rw [hstated, hsymptom first (by simp), links, hchain]
    exact congrArg (· + 1) (@Neighbours.count_neighbours _ _ _ _ [draw.gold] _ hnodup)
  have hsecond : stated (twinFacts draw) second = 2 + min 1 far.length := by
    rw [hstated, hsymptom second (by simp), links, hchain]
    have hcount := @Neighbours.count_neighbours _ _ _ _ [draw.gold, first] far hnodup
    rw [List.cons_append, List.singleton_append] at hcount
    rw [hcount, List.length_cons]
    omega
  rw [RootCauseDraw.others, hpair] at hother
  simp only [List.forall_mem_cons] at hother
  obtain ⟨hstandalone, hunrelated, hballot, -⟩ := hother
  have hlen : far ≠ [] ↔ 0 < far.length := List.length_pos_iff.symm
  rw [Matched, twinDistractors_eq h hchain hpair, hlen]
  simp only [List.exists_mem_cons_iff, List.not_mem_nil, false_and, exists_false, or_false]
  omega

theorem matched_board {board : HealthBoard} (h : board.Fits pool) :
    Matched board.facts board.winner board.distractors := by
  have hreported : ∀ {entries : List (String × Nat)} {facts : List RelationalFact},
      List.Forall₂ Tallies entries facts → facts.flatMap entitiesOf = entries.map Prod.fst := by
    intro entries facts hall
    induction hall with
    | nil => rfl
    | cons hfact _ ih =>
      rw [List.flatMap_cons, ih, List.map_cons]
      rcases hfact with ⟨rfl, -⟩ | ⟨statuses, rfl, -⟩ <;> rfl
  have hstated : ∀ name, stated board.facts name = board.mentioned.count name := fun name => by
    rw [stated, HealthBoard.facts, List.flatMap_append, hreported h.reported, HealthBoard.mentioned]
    rfl
  have hnodup : board.mentioned.Nodup := by
    have hkeys := h.keys_nodup
    rwa [h.entries, List.map_append] at hkeys
  have hcounted : ∀ entry ∈ board.counted, stated board.facts entry.1 = 1 := fun entry hentry => by
    rw [hstated]
    refine List.count_eq_one_of_mem hnodup (List.mem_append_left _ ?_)
    exact List.mem_map_of_mem hentry
  have hbest := h.best.1
  have hwinner := hcounted (board.winner, board.best)
    (by simp [HealthBoard.counted, show board.best ≠ 0 by omega])
  have hrunner := hcounted (board.runner, board.best - 1)
    (by simp [HealthBoard.counted, show board.best - 1 ≠ 0 by omega])
  refine ⟨⟨board.runner, .runnerUp⟩, List.mem_cons_self, ?_⟩
  exact (hwinner.trans hrunner.symm).le

theorem matched_order {order : BringUp} (h : order.Fits pool) :
    Matched order.facts order.gold (order.distractors pool) := by
  have hstated : ∀ name, stated order.facts name = links order.line name := fun name => by
    rw [stated, BringUp.facts, List.flatMap_map]
    rfl
  have hmem : (⟨order.second, .waiter⟩ : Distractor) ∈ order.distractors pool := by
    obtain ⟨added, hadded, -⟩ := topUp_spec (fun name => !order.chain.contains name) pool
      order.waiters (1 + order.waiters.length)
    rw [BringUp.distractors, hadded]
    exact List.mem_append_left _ List.mem_cons_self
  have hgold : links order.line order.gold = 1 :=
    @Neighbours.count_neighbours _ _ _ _ [] _ h.distinct
  have hsecond : links order.line order.second = 2 := by
    have hcount := @Neighbours.count_neighbours _ _ _ _ [order.gold] _ h.distinct
    refine hcount.trans ?_
    simp only [List.length_append, List.length_cons, List.length_nil]
    omega
  refine ⟨_, hmem, ?_⟩
  rw [hstated, hstated, hgold, hsecond]
  omega

end Counts

section Pairs

variable {pool : List String} {draw : RootCauseDraw} {domain : Domain} {phrasing : Nat}

def isDependency : RelationalFact → Bool
  | .dependsOn _ _ => true
  | _ => false

/-- A root cause item with a healthy statement about another entity than the gold, whose chain has
no more than three nodes. -/
def ShortPair (base : Sampled) : Prop :=
  base.family = .rootCauseChain ∧ base.facts.any (healthySingle base.gold) = true ∧
    base.facts.countP isDependency < 3

theorem countP_isDependency (draw : RootCauseDraw) :
    (rootCauseFacts draw false).countP isDependency = draw.chain.length - 1 := by
  have hall : (chainFacts draw).countP isDependency = (chainFacts draw).length := by
    rw [List.countP_eq_length]
    intro fact hfact
    obtain ⟨pair, -, rfl⟩ := List.mem_map.mp hfact
    rfl
  have hnone : (otherReports draw).countP isDependency = 0 := by
    rw [otherReports]
    rcases draw.pair with _ | ⟨ballot, noise⟩ <;> simp [isDependency]
  rw [rootCauseFacts_eq, List.countP_append, List.countP_cons, hall, hnone, chainFacts,
    List.length_map, windows, List.length_zip, List.length_tail]
  simp [isDependency]

theorem any_healthySingle (h : draw.Fits pool) :
    (rootCauseFacts draw false).any (healthySingle draw.gold) = draw.pair.isSome := by
  cases hpair : draw.pair with
  | none => simp [rootCauseFacts_eq, chainFacts, otherReports, hpair, healthySingle]
  | some pair =>
    obtain ⟨first, rest, hchain⟩ := h.chain_eq
    have hne := h.other_notMem (show pair.1 ∈ draw.others by simp [RootCauseDraw.others, hpair])
    rw [hchain, List.mem_cons, not_or] at hne
    simp [rootCauseFacts_eq, chainFacts, otherReports, hpair, healthySingle, hne.1]

theorem corruptToPair_pair (h : draw.Fits pool) (hpair : draw.pair.isSome = true) :
    ∃ twin, corruptToPair (baseOf draw domain phrasing) = some twin := by
  obtain ⟨first, second, far, kept, hchain, hsymptoms, -⟩ := h.chain
  have hchild : (baseOf draw domain phrasing).facts.findSome?
      (dependentOn (baseOf draw domain phrasing).gold) = some first := by
    simp [baseOf, rootCauseFacts_eq, chainFacts, hchain, Neighbours.windows_cons_cons, dependentOn]
  have hsingle := any_healthySingle h
  have hdown : RelationalFact.health first .down ∈ rootCauseFacts draw false :=
    down_rootCause.mpr (Or.inr (Or.inl (by simp [hsymptoms])))
  refine Option.isSome_iff_exists.mp ?_
  rw [corruptToPair, if_neg (by simp [baseOf]), if_neg (by simp [baseOf, hsingle, hpair]), hchild,
    Option.bind_some, if_neg (by simpa [baseOf] using hdown)]
  rfl

end Pairs

section Law

variable [RustStd]

/-- The text does not give the gold away: some distractor is mentioned as often. -/
def Unsalient (item : Sampled) (text : String) : Prop :=
  mentionProbe item text = false ∧
    ∃ d ∈ item.distractors, (tokens text).count item.gold ≤ (tokens text).count d.name

def Rendered (item : Sampled) : Prop :=
  ∀ drawn, ∃ text drawn', stateText item.facts drawn = .ok (text, drawn') ∧ Unsalient item text

theorem unsalient_iff (item : Sampled) (text : String) : Unsalient item text ↔
    ∃ d ∈ item.distractors, (tokens text).count item.gold ≤ (tokens text).count d.name := by
  constructor
  · exact fun h => h.2
  · rintro ⟨d, hd, hle⟩
    refine ⟨?_, d, hd, hle⟩
    rw [mentionProbe, Bool.and_eq_false_iff, List.all_eq_false]
    exact Or.inr ⟨d, hd, by simpa using hle⟩

variable {pool : List String}

theorem rendered_iff (hlaws : BlankLaws)
    (hpool : ∀ name ∈ pool, LoneWord name ∧ name ∉ sentenceWords) {item : Sampled}
    (h : Sound pool item) :
    Rendered item ↔ Matched item.facts item.gold item.distractors := by
  have htext := yields_stateText (fun name hname => (hpool name hname).1) h.about
  have hgold := (hpool item.gold (h.inPool _ List.mem_cons_self)).2
  have hname : ∀ d ∈ item.distractors, d.name ∉ sentenceWords := fun d hd =>
    (hpool d.name (h.inPool _ (List.mem_cons_of_mem _ (List.mem_map_of_mem hd)))).2
  have hone : ∀ text, (∀ name, name ∉ sentenceWords →
      (mentions text).count name = stated item.facts name) →
      (Unsalient item text ↔ Matched item.facts item.gold item.distractors) := by
    intro text hcount
    rw [unsalient_iff, tokens_eq hlaws, hcount _ hgold, Matched]
    refine exists_congr fun d => and_congr_right fun hd => ?_
    rw [hcount _ (hname d hd)]
  constructor
  · intro hrendered
    obtain ⟨text, drawn', hrun, hunsalient⟩ := hrendered ⟨0⟩
    exact (hone text (htext.of_run hrun)).mp hunsalient
  · intro hmatched drawn
    obtain ⟨text, drawn', hrun, hcount⟩ := htext drawn
    exact ⟨text, drawn', hrun, (hone text hcount).mpr hmatched⟩

/-- A root cause item and its twin, when it has one: the twin's gold stands out on a short chain. -/
theorem rendered_rootCause (hlaws : BlankLaws)
    (hpool : ∀ name ∈ pool, LoneWord name ∧ name ∉ sentenceWords) {draw : RootCauseDraw}
    (h : draw.Fits pool) (domain : Domain) (phrasing : Nat) :
    (∀ item, item = baseOf draw domain phrasing ∨
        corruptToPair (baseOf draw domain phrasing) = some item → Rendered item) ↔
      ¬ ShortPair (baseOf draw domain phrasing) := by
  obtain ⟨first, second, far, kept, hchain, -⟩ := h.chain
  have hbase : Rendered (baseOf draw domain phrasing) :=
    (rendered_iff hlaws hpool (sound_rootCause h .rootCauseChain domain phrasing)).mpr
      (matched_rootCause h false)
  have hshort : ShortPair (baseOf draw domain phrasing) ↔
      draw.pair.isSome = true ∧ far = [] := by
    have hlen : far = [] ↔ far.length = 0 := List.length_eq_zero_iff.symm
    rw [ShortPair, baseOf, any_healthySingle h, countP_isDependency, hchain, hlen]
    simp only [List.length_cons, true_and]
    exact and_congr_right fun _ => by omega
  have htwin : ∀ twin, corruptToPair (baseOf draw domain phrasing) = some twin →
      draw.pair.isSome = true ∧ (Rendered twin ↔ far ≠ []) := by
    intro twin heq
    obtain ⟨hsome, rfl⟩ := corruptToPair_baseOf h hchain heq
    obtain ⟨⟨ballot, noise⟩, hpair⟩ := Option.isSome_iff_exists.mp hsome
    refine ⟨hsome, (rendered_iff hlaws hpool (sound_twin h hchain hpair domain phrasing)).trans ?_⟩
    exact matched_twin h hchain hpair
  rw [hshort]
  constructor
  · rintro hall ⟨hpair, hfar⟩
    obtain ⟨twin, heq⟩ := @corruptToPair_pair pool draw domain phrasing h hpair
    exact (htwin twin heq).2.mp (hall twin (Or.inr heq)) hfar
  · rintro hnot item (rfl | heq)
    · exact hbase
    · obtain ⟨hsome, hiff⟩ := htwin item heq
      exact hiff.mpr fun hfar => hnot ⟨hsome, hfar⟩

/-- No text of an item, and none of its twin, mentions the gold more often than all other
candidates, unless the item is a root cause item with a twin on a chain of three. -/
theorem unsalient_iff_not_shortPair (hlaws : BlankLaws) (score : ScoreFamily)
    {domains : List Domain} (hpools : ∀ domain ∈ domains, domain.names.Nodup ∧
      ∀ name ∈ domain.names, LoneWord name ∧ name ∉ sentenceWords) {family : Family}
    (hfamily : family ∈ families) {rng rng' : Rng} {base : Sampled}
    (hbase : sample score domains family rng = .ok (base, rng')) :
    (∀ item, item = base ∨ corruptToPair base = some item → ∀ drawn, ∃ text drawn',
      stateText item.facts drawn = .ok (text, drawn') ∧ Unsalient item text) ↔
        ¬ ShortPair base := by
  obtain ⟨domain, hdomain, phrasing, -, start, after, drawn, hrun, rfl⟩ := sample_ok hbase
  obtain ⟨hnodup, hpool⟩ := hpools domain hdomain
  -- only the items of one family have a twin
  have halone : ∀ item : Sampled, item.family ≠ .rootCauseChain → Rendered item →
      ((∀ other, other = item ∨ corruptToPair item = some other → Rendered other) ↔
        ¬ ShortPair item) := by
    intro item hne hitem
    refine iff_of_true ?_ fun hshort => hne hshort.1
    rintro other (rfl | htwin)
    · exact hitem
    · rw [corruptToPair, if_pos hne] at htwin
      cases htwin
  simp only [families, List.mem_cons, List.not_mem_nil, or_false] at hfamily
  rcases hfamily with rfl | rfl | rfl | rfl
  · obtain ⟨draw, h, rfl⟩ := (yields_rootCause hnodup (rootCause_room hrun) false).of_run hrun
    exact rendered_rootCause hlaws hpool h domain phrasing
  · obtain ⟨draw, h, rfl⟩ := (yields_rootCause hnodup (rootCause_room hrun) true).of_run hrun
    refine halone _ (show Family.rootCauseAgreeing ≠ .rootCauseChain by decide) ?_
    exact (rendered_iff hlaws hpool (sound_rootCause h _ domain phrasing)).mpr
      (matched_rootCause h true)
  · obtain ⟨board, h, -, rfl⟩ := healthiest_ok hnodup hrun
    refine halone _ (show Family.healthiestBoard ≠ .rootCauseChain by decide) ?_
    exact (rendered_iff hlaws hpool (sound_board h _ domain phrasing)).mpr (matched_board h)
  · obtain ⟨order, h, rfl⟩ := (yields_firstRestored hnodup (firstRestored_room hrun)).of_run hrun
    refine halone _ (show Family.firstRestoredChain ≠ .rootCauseChain by decide) ?_
    exact (rendered_iff hlaws hpool (sound_order h hnodup _ domain phrasing)).mpr (matched_order h)

end Law

section Samples

attribute [local instance] plainStd

theorem domains_lone : ∀ domain ∈ domains, domain.names.Nodup ∧
    ∀ name ∈ domain.names, LoneWord name ∧ name ∉ sentenceWords := by decide +kernel

/-- The board of the regions, drawn as an item. -/
theorem unsalient_iff_not_shortPair_board :
    (BlankLaws ∧ (∀ domain ∈ [regions], domain.names.Nodup ∧
        ∀ name ∈ domain.names, LoneWord name ∧ name ∉ sentenceWords) ∧
      Family.healthiestBoard ∈ families ∧
      sample ⟨[], fun _ => throw .outOfRange⟩ [regions] .healthiestBoard ⟨0xc3910c8d016b07d7⟩ =
        .ok ({ northAhead with phrasing := 1 }, ⟨0xfa8cfc37711c2dba⟩)) ∧
    ∀ drawn, ∃ text drawn', stateText northAhead.facts drawn = .ok (text, drawn') ∧
      Unsalient { northAhead with phrasing := 1 } text := by
  have hpools : ∀ domain ∈ [regions], domain.names.Nodup ∧
      ∀ name ∈ domain.names, LoneWord name ∧ name ∉ sentenceWords := by decide +kernel
  have hbase : sample ⟨[], fun _ => throw .outOfRange⟩ [regions] .healthiestBoard
      ⟨0xc3910c8d016b07d7⟩ = .ok ({ northAhead with phrasing := 1 }, ⟨0xfa8cfc37711c2dba⟩) := by
    decide +kernel
  have hfamily : Family.healthiestBoard ∈ families := by decide
  refine ⟨⟨plain_blankLaws, hpools, hfamily, hbase⟩, ?_⟩
  exact (unsalient_iff_not_shortPair plain_blankLaws ⟨[], fun _ => throw .outOfRange⟩ hpools hfamily
    hbase).mpr (fun hshort => absurd hshort.1 (by decide)) { northAhead with phrasing := 1 }
      (Or.inl rfl)

def fsmText : String :=
  "fsm depends on driver. codec depends on fsm. codec is failing. driver is healthy. " ++
    "serial is healthy. runtime is healthy. linker is failing. fsm is failing."

/-- The third stream of the generator's domains has a twin whose gold is mentioned three times, and
no other candidate more than twice. -/
theorem fsm_salient :
    (∀ domain ∈ domains, domain.names.Nodup ∧
      ∀ name ∈ domain.names, LoneWord name ∧ name ∉ sentenceWords) ∧
    sample ⟨[], fun _ => throw .outOfRange⟩ domains .rootCauseChain ⟨2⟩ =
      .ok (driverDown, ⟨0xcc623af8783354e9⟩) ∧
    corruptToPair driverDown = some fsmDown ∧
    stateText fsmDown.facts ⟨7⟩ = .ok (fsmText, ⟨0x2e2ac13ef8e8d8d9⟩) ∧
    mentionProbe fsmDown fsmText = true := by
  refine ⟨domains_lone, ?_, ?_, ?_, ?_⟩ <;> decide +kernel

end Samples

end OpenCodifier.Itemgen
