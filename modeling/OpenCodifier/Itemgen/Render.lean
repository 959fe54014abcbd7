import OpenCodifier.Engine.Sample
import OpenCodifier.Engine.FactGrammar
import OpenCodifier.Itemgen.Rng
set_option autoImplicit false

namespace OpenCodifier.Itemgen

open Sampling
open Facts (Says accepted parseSentence extract isName)

def downWords : List String := ["failing", "down", "offline"]

def deadlinePhrases : List String := ["is due", "is scheduled", "must land"]

def eventPhrases : List String := ["completed", "started", "was updated"]

/-- The word that a status is stated with; a component that is down has three. -/
def statusWord : Health → Draw String
  | .healthy => pure "healthy"
  | .degraded => pure "degraded"
  | .down => Draw.pick downWords

def factSentence : RelationalFact → Draw String
  | .dependsOn dependent dependency => pure (dependent ++ " depends on " ++ dependency)
  | .health entity status => do
    let word ← statusWord status
    pure (entity ++ " is " ++ word)
  | .healthList entity statuses => do
    let words ← statuses.mapM statusWord
    pure (entity ++ ": " ++ ", ".intercalate words)
  | .restoresAfter later earlier => pure (later ++ " comes back online only after " ++ earlier)
  | .deadline entity time => do
    let phrase ← Draw.pick deadlinePhrases
    pure (entity ++ " " ++ phrase ++ " by " ++ time.toIso)
  | .event entity time => do
    let phrase ← Draw.pick eventPhrases
    pure (entity ++ " " ++ phrase ++ " on " ++ time.toIso)

def canonicalWord : Health → String
  | .healthy => "healthy"
  | .degraded => "degraded"
  | .down => "failing"

/-- The sentence of a fact that no draw decides. -/
def canonicalSentence : RelationalFact → String
  | .dependsOn dependent dependency => dependent ++ " depends on " ++ dependency
  | .health entity status => entity ++ " is " ++ canonicalWord status
  | .healthList entity statuses => entity ++ ": " ++ ", ".intercalate (statuses.map canonicalWord)
  | .restoresAfter later earlier => later ++ " comes back online only after " ++ earlier
  | .deadline entity time => entity ++ " is due by " ++ time.toIso
  | .event entity time => entity ++ " completed on " ++ time.toIso

/-- All facts, each stated once, in a drawn order of the sentences. -/
def stateText (facts : List RelationalFact) : Draw String := do
  let sentences ← facts.mapM factSentence
  let sentences ← Draw.shuffle sentences
  pure (". ".intercalate sentences ++ ".")

/-- The names are names to the extractor, no status list is empty, and times are days of the
calendar in years of at most four digits. -/
def WellFormed : RelationalFact → Prop
  | .dependsOn x y => isName x = true ∧ isName y = true
  | .health x _ => isName x = true
  | .healthList x statuses => isName x = true ∧ statuses ≠ []
  | .restoresAfter x y => isName x = true ∧ isName y = true
  | .deadline x t => isName x = true ∧ t.Valid
  | .event x t => isName x = true ∧ t.Valid

/-- The blank is white space, the visible ASCII characters are not. -/
structure BlankLaws [RustStd] : Prop where
  blank : RustStd.isWhitespace ' ' = true
  visible : ∀ c : Char, '!' ≤ c → c ≤ '~' → RustStd.isWhitespace c = false

def Plain (word : List Char) : Prop :=
  word ≠ [] ∧ ∀ c ∈ word, '!' ≤ c ∧ c ≤ '~' ∧ c ≠ ',' ∧ c ≠ '.'

instance (word : List Char) : Decidable (Plain word) :=
  @instDecidableAnd _ _ inferInstance (List.decidableBAll _ _)

/-- The sentence is words, some with a comma behind, between blanks, and states the fact. -/
def Shows (sentence : List Char) (fact : RelationalFact) : Prop :=
  ∃ raws words, sentence = [' '].intercalate raws ∧ raws ≠ [] ∧
    List.Forall₂ (fun raw word => Plain word ∧ (raw = word ∨ raw = word ++ [','])) raws words ∧
    Says accepted (words.map String.ofList) fact

section Characters

theorem visible_of_range {c : Char} {lo hi : Char} (hlo : '!' ≤ lo) (hhi : hi ≤ '~')
    (h : lo ≤ c ∧ c ≤ hi) : '!' ≤ c ∧ c ≤ '~' := ⟨hlo.trans h.1, h.2.trans hhi⟩

theorem visible_of_nameChar {c : Char} (h : Facts.nameChar c = true) :
    '!' ≤ c ∧ c ≤ '~' ∧ c ≠ ',' ∧ c ≠ '.' := by
  have hcomma : c ≠ ',' := by
    rintro rfl
    exact absurd h (by decide)
  have hperiod : c ≠ '.' := by
    rintro rfl
    exact absurd h (by decide)
  have hrange : '!' ≤ c ∧ c ≤ '~' := by
    have hclass : Facts.nameChar c = (((decide ('A' ≤ c ∧ c ≤ 'Z') ||
        (decide ('a' ≤ c) && decide (c ≤ 'z'))) || (decide ('0' ≤ c) && decide (c ≤ '9'))) ||
          decide (c = '-') || decide (c = '_')) := rfl
    rw [hclass] at h
    simp only [Bool.or_eq_true, Bool.and_eq_true, decide_eq_true_eq] at h
    rcases h with (((h | h) | h) | h) | h
    · exact @visible_of_range c 'A' 'Z' (by decide) (by decide) h
    · exact @visible_of_range c 'a' 'z' (by decide) (by decide) h
    · exact @visible_of_range c '0' '9' (by decide) (by decide) h
    · subst h
      decide
    · subst h
      decide
  exact ⟨hrange.1, hrange.2, hcomma, hperiod⟩

theorem plain_of_isName {word : String} (h : isName word = true) : Plain word.toList := by
  obtain ⟨hne, -, hall, -⟩ := ((Facts.isName_iff word).mp h).1
  refine ⟨fun hnil => hne ?_, fun c hc => visible_of_nameChar (List.all_eq_true.mp hall c hc)⟩
  rw [← String.ofList_toList (s := word), hnil]

theorem visible_of_isDigit {c : Char} (h : c.isDigit = true) :
    '!' ≤ c ∧ c ≤ '~' ∧ c ≠ ',' ∧ c ≠ '.' :=
  visible_of_nameChar (by simp [Facts.nameChar, Char.isAlphanum, h])

theorem plain_toIso (t : Timestamp) : Plain t.toIso.toList := by
  have hdate : ∀ c ∈ t.isoDate, '!' ≤ c ∧ c ≤ '~' ∧ c ≠ ',' ∧ c ≠ '.' := by
    intro c hc
    rcases Timestamp.mem_isoDate hc with hc | rfl
    · exact visible_of_isDigit hc
    · decide
  have hne : t.isoDate ≠ [] := by simp [Timestamp.isoDate]
  unfold Timestamp.toIso
  split
  · rw [String.toList_ofList]
    exact ⟨hne, hdate⟩
  · rw [String.toList_ofList]
    refine ⟨by simp, fun c hc => ?_⟩
    simp only [Timestamp.isoClock, List.mem_append, List.mem_cons] at hc
    rcases hc with hc | rfl | hc | rfl | hc
    · exact hdate c hc
    · decide
    · exact visible_of_isDigit (isDigit_of_mem_padded hc)
    · decide
    · exact visible_of_isDigit (isDigit_of_mem_padded hc)

end Characters

section Sentences

theorem trimCommas_plain {raw word : List Char} (h : Plain word)
    (hraw : raw = word ∨ raw = word ++ [',']) : Facts.trimCommas raw = word := by
  have hcomma : ∀ c ∈ word, c ≠ ',' := fun c hc => (h.2 c hc).2.2.1
  have hhead : word.head? ≠ some ',' := fun he => hcomma ',' (List.mem_of_mem_head? he) rfl
  have hlast : word.getLast? ≠ some ',' := fun he => hcomma ',' (List.mem_of_getLast? he) rfl
  refine (Facts.uncommaed_iff.mp ?_).symm
  rcases hraw with rfl | rfl
  · exact ⟨0, 0, by simp, hhead, hlast⟩
  · exact ⟨0, 1, by simp, hhead, hlast⟩

theorem trim_words {raws words : List (List Char)}
    (h : List.Forall₂ (fun raw word => Plain word ∧ (raw = word ∨ raw = word ++ [','])) raws
      words) :
    (raws.map Facts.trimCommas).filter (fun word => word ≠ []) = words := by
  induction h with
  | nil => rfl
  | @cons raw word raws words hword _ ih =>
    have hne : word ≠ [] := hword.1.1
    rw [List.map_cons, trimCommas_plain hword.1 hword.2, List.filter_cons_of_pos (by simpa using hne),
      ih]

variable [RustStd]

theorem not_blank (hlaws : BlankLaws) {raw word : List Char} (h : Plain word)
    (hraw : raw = word ∨ raw = word ++ [',']) : ∀ c ∈ raw, RustStd.isWhitespace c = false := by
  intro c hc
  rcases hraw with rfl | rfl
  · exact hlaws.visible c (h.2 c hc).1 (h.2 c hc).2.1
  · rcases List.mem_append.mp hc with hc | hc
    · exact hlaws.visible c (h.2 c hc).1 (h.2 c hc).2.1
    · rw [List.mem_singleton.mp hc]
      exact hlaws.visible ',' (by decide) (by decide)

theorem splitOnP_blanks (hlaws : BlankLaws) {raws : List (List Char)} (hne : raws ≠ [])
    (h : ∀ raw ∈ raws, ∀ c ∈ raw, RustStd.isWhitespace c = false) :
    ([' '].intercalate raws).splitOnP RustStd.isWhitespace = raws := by
  induction raws with
  | nil => exact absurd rfl hne
  | cons raw rest ih =>
    have hraw := h raw List.mem_cons_self
    cases rest with
    | nil =>
      rw [List.intercalate_singleton]
      exact List.splitOnP_eq_singleton hraw
    | cons next rest =>
      rw [List.intercalate_cons_of_ne_nil (List.cons_ne_nil _ _), List.append_assoc,
        List.singleton_append,
        List.splitOnP_append_cons_of_forall_mem hraw ' ' hlaws.blank,
        ih (List.cons_ne_nil _ _) fun r hr => h r (List.mem_cons_of_mem _ hr)]

theorem blanks_of_forall₂ (hlaws : BlankLaws) {raws words : List (List Char)}
    (h : List.Forall₂ (fun raw word => Plain word ∧ (raw = word ∨ raw = word ++ [','])) raws
      words) : ∀ raw ∈ raws, ∀ c ∈ raw, RustStd.isWhitespace c = false := by
  induction h with
  | nil => simp
  | cons hword _ ih =>
    intro raw hraw
    rcases List.mem_cons.mp hraw with rfl | hraw
    · exact not_blank hlaws hword.1 hword.2
    · exact ih raw hraw

/-- A sentence that shows a fact is read as that fact, also after a blank. -/
theorem parse_of_shows (hlaws : BlankLaws) {sentence : List Char} {fact : RelationalFact}
    (h : Shows sentence fact) :
    parseSentence (Facts.normalize sentence) = some fact ∧
      parseSentence (Facts.normalize (' ' :: sentence)) = some fact := by
  obtain ⟨raws, words, rfl, hne, hwords, hform⟩ := h
  have hblank := blanks_of_forall₂ hlaws hwords
  have hfirst : Facts.normalize ([' '].intercalate raws) = words.map String.ofList := by
    rw [Facts.normalize, splitOnP_blanks hlaws hne hblank, trim_words hwords]
  have hafter : Facts.normalize (' ' :: [' '].intercalate raws) = words.map String.ofList := by
    have hjoin : ' ' :: [' '].intercalate raws = [' '].intercalate ([] :: raws) := by
      rw [List.intercalate_cons_of_ne_nil hne]
      rfl
    have hblank' : ∀ raw ∈ [] :: raws, ∀ c ∈ raw, RustStd.isWhitespace c = false := by
      simpa using hblank
    rw [Facts.normalize, hjoin, splitOnP_blanks hlaws (List.cons_ne_nil _ _) hblank', List.map_cons]
    exact congrArg (List.map String.ofList) (trim_words hwords)
  rw [hfirst, hafter]
  exact ⟨Facts.parseSentence_of_form hform, Facts.parseSentence_of_form hform⟩

omit [RustStd] in
theorem period_notMem {raws words : List (List Char)}
    (h : List.Forall₂ (fun raw word => Plain word ∧ (raw = word ∨ raw = word ++ [','])) raws
      words) : '.' ∉ [' '].intercalate raws := by
  induction h with
  | nil => simp
  | @cons raw word raws words hword _ ih =>
    have hraw : '.' ∉ raw := by
      intro hm
      rcases hword.2 with rfl | rfl
      · exact (hword.1.2 '.' hm).2.2.2 rfl
      · rcases List.mem_append.mp hm with hm | hm
        · exact (hword.1.2 '.' hm).2.2.2 rfl
        · exact absurd hm (by decide)
    cases raws with
    | nil => simpa using hraw
    | cons next raws =>
      rw [List.intercalate_cons_of_ne_nil (List.cons_ne_nil _ _)]
      simp only [List.mem_append, not_or]
      exact ⟨⟨hraw, by decide⟩, ih⟩

end Sentences

section Forms

theorem same_words {words : List (List Char)} (h : ∀ word ∈ words, Plain word) :
    List.Forall₂ (fun raw word => Plain word ∧ (raw = word ∨ raw = word ++ [','])) words words :=
  List.forall₂_same.mpr fun word hword => ⟨h word hword, Or.inl rfl⟩

theorem shows_of_tokens {tokens : List String} {fact : RelationalFact} (hne : tokens ≠ [])
    (hplain : ∀ token ∈ tokens, Plain token.toList) (hform : Says accepted tokens fact) :
    Shows (" ".intercalate tokens).toList fact := by
  refine ⟨tokens.map String.toList, tokens.map String.toList, String.toList_intercalate,
    by simpa using hne, same_words (by simpa using hplain), ?_⟩
  simpa [Function.comp_def] using hform

theorem shows_dependsOn {x y : String} (hx : isName x = true) (hy : isName y = true) :
    Shows (x ++ " depends on " ++ y).toList (.dependsOn x y) := by
  have htext : x ++ " depends on " ++ y = " ".intercalate [x, "depends", "on", y] :=
    String.toList_injective (by simp)
  rw [htext]
  refine shows_of_tokens (List.cons_ne_nil _ _) ?_ (.dependsOn (by decide) (by decide) hx hy)
  simp only [List.forall_mem_cons, List.not_mem_nil, false_imp_iff, implies_true, and_true]
  exact ⟨plain_of_isName hx, by decide, by decide, plain_of_isName hy⟩

theorem shows_health {x word : String} {status : Health} (hx : isName x = true)
    (hplain : Plain word.toList) (hstatus : Health.parse word = some status) :
    Shows (x ++ " is " ++ word).toList (.health x status) := by
  have htext : x ++ " is " ++ word = " ".intercalate [x, "is", word] :=
    String.toList_injective (by simp)
  rw [htext]
  refine shows_of_tokens (List.cons_ne_nil _ _) ?_ (.health (by decide) hstatus hx)
  simp only [List.forall_mem_cons, List.not_mem_nil, false_imp_iff, implies_true, and_true]
  exact ⟨plain_of_isName hx, by decide, hplain⟩

theorem shows_restoresAfter {x y : String} (hx : isName x = true) (hy : isName y = true) :
    Shows (x ++ " comes back online only after " ++ y).toList (.restoresAfter x y) := by
  have htext : x ++ " comes back online only after " ++ y =
      " ".intercalate (x :: (["comes", "back", "online", "only", "after"] ++ [y])) :=
    String.toList_injective (by simp)
  rw [htext]
  refine shows_of_tokens (List.cons_ne_nil _ _) ?_ (.restoresAfter (by decide) hx hy)
  simp only [List.cons_append, List.nil_append, List.forall_mem_cons, List.not_mem_nil,
    false_imp_iff, implies_true, and_true]
  exact ⟨plain_of_isName hx, by decide, by decide, by decide, by decide, by decide,
    plain_of_isName hy⟩

def DrawnPhrase (text : String) (phrase : List String) : Prop :=
  text = " ".intercalate phrase ∧ Facts.Phrase phrase ∧ (∀ word ∈ phrase, Plain word.toList) ∧
    phrase.map toAsciiLowercase ≠ ["depends"]

instance (text : String) (phrase : List String) : Decidable (DrawnPhrase text phrase) :=
  inferInstanceAs (Decidable (_ ∧ (_ ∧ _ ∧ _) ∧ _ ∧ _))

theorem dated_text {text prep x word : String} {phrase : List String}
    (h : DrawnPhrase text phrase) :
    x ++ " " ++ text ++ (" " ++ prep ++ " ") ++ word =
      " ".intercalate (x :: (phrase ++ [prep, word])) := by
  have hne : phrase ≠ [] := h.2.1.1
  rw [String.intercalate_cons_of_ne_nil (by simp), String.intercalate_append_of_ne_nil hne (by simp),
    ← h.1]
  exact String.toList_injective (by simp)

theorem plain_dated {x prep : String} {phrase : List String} {t : Timestamp}
    (hx : isName x = true) (hprep : Plain prep.toList) (hphrase : ∀ word ∈ phrase, Plain word.toList) :
    ∀ token ∈ x :: (phrase ++ [prep, t.toIso]), Plain token.toList := by
  simp only [List.forall_mem_cons, List.forall_mem_append, List.not_mem_nil, false_imp_iff,
    implies_true, and_true]
  exact ⟨plain_of_isName hx, hphrase, hprep, plain_toIso t⟩

theorem shows_deadline {x text : String} {phrase : List String} {t : Timestamp}
    (hx : isName x = true) (ht : t.Valid) (h : DrawnPhrase text phrase) :
    Shows (x ++ " " ++ text ++ " by " ++ t.toIso).toList (.deadline x t) := by
  have htext : x ++ " " ++ text ++ " by " ++ t.toIso =
      " ".intercalate (x :: (phrase ++ ["by", t.toIso])) := by
    rw [show " by " = " " ++ "by" ++ " " by decide]
    exact dated_text h
  rw [htext]
  exact shows_of_tokens (List.cons_ne_nil _ _) (plain_dated hx (by decide) h.2.2.1)
    (.deadline h.2.1 (by decide) (Timestamp.parse_toIso ht) hx)

theorem shows_event {x text : String} {phrase : List String} {t : Timestamp}
    (hx : isName x = true) (ht : t.Valid) (h : DrawnPhrase text phrase) :
    Shows (x ++ " " ++ text ++ " on " ++ t.toIso).toList (.event x t) := by
  have htext : x ++ " " ++ text ++ " on " ++ t.toIso =
      " ".intercalate (x :: (phrase ++ ["on", t.toIso])) := by
    rw [show " on " = " " ++ "on" ++ " " by decide]
    exact dated_text h
  rw [htext]
  exact shows_of_tokens (List.cons_ne_nil _ _) (plain_dated hx (by decide) h.2.2.1)
    (.event h.2.1 h.2.2.2 (by decide) (Timestamp.parse_toIso ht) hx)

def listed : List String → List (List Char)
  | [] => []
  | [word] => [word.toList]
  | word :: next :: rest => (word.toList ++ [',']) :: listed (next :: rest)

theorem listed_ne_nil (word : String) (rest : List String) : listed (word :: rest) ≠ [] := by
  cases rest <;> simp [listed]

theorem toList_commas (words : List String) :
    (", ".intercalate words).toList = [' '].intercalate (listed words) := by
  induction words with
  | nil => simp [listed]
  | cons word rest ih =>
    cases rest with
    | nil => simp [listed]
    | cons next rest =>
      rw [String.intercalate_cons_of_ne_nil (List.cons_ne_nil _ _), String.toList_append, ih, listed,
        List.intercalate_cons_of_ne_nil (listed_ne_nil next rest)]
      simp

theorem forall₂_listed {words : List String} (h : ∀ word ∈ words, Plain word.toList) :
    List.Forall₂ (fun raw word => Plain word ∧ (raw = word ∨ raw = word ++ [','])) (listed words)
      (words.map String.toList) := by
  induction words with
  | nil => exact .nil
  | cons word rest ih =>
    have hword := h word List.mem_cons_self
    have hrest := ih fun w hw => h w (List.mem_cons_of_mem _ hw)
    cases rest with
    | nil => exact .cons ⟨hword, Or.inl rfl⟩ .nil
    | cons next rest => exact .cons ⟨hword, Or.inr rfl⟩ hrest

theorem words_of_statuses {statuses : List Health} {words : List String}
    (h : List.Forall₂ (fun status word => Plain word.toList ∧ Health.parse word = some status)
      statuses words) :
    (∀ word ∈ words, Plain word.toList) ∧ words.map Health.parse = statuses.map some := by
  induction h with
  | nil => simp
  | cons hword _ ih =>
    rw [List.forall_mem_cons, List.map_cons, List.map_cons, hword.2, ih.2]
    exact ⟨⟨hword.1, ih.1⟩, rfl⟩

theorem shows_healthList {x : String} {words : List String} {statuses : List Health}
    (hx : isName x = true) (hne : words ≠ [])
    (hwords : List.Forall₂ (fun status word => Plain word.toList ∧ Health.parse word = some status)
      statuses words) :
    Shows (x ++ ": " ++ ", ".intercalate words).toList (.healthList x statuses) := by
  obtain ⟨hplain, hparse⟩ := words_of_statuses hwords
  have hname : Plain (x ++ ":").toList := by
    refine ⟨by simp, fun c hc => ?_⟩
    rw [String.toList_append, List.mem_append] at hc
    rcases hc with hc | hc
    · exact (plain_of_isName hx).2 c hc
    · rw [List.mem_singleton.mp hc]
      decide
  obtain ⟨word, rest, rfl⟩ := List.exists_cons_of_ne_nil hne
  refine ⟨(x ++ ":").toList :: listed (word :: rest),
    ((x ++ ":") :: (word :: rest)).map String.toList, ?_, List.cons_ne_nil _ _,
    .cons ⟨hname, Or.inl rfl⟩ (forall₂_listed hplain), ?_⟩
  · rw [List.intercalate_cons_of_ne_nil (listed_ne_nil word rest), ← toList_commas]
    simp
  · have htokens : (((x ++ ":") :: (word :: rest)).map String.toList).map String.ofList =
        (x ++ ":") :: (word :: rest) := by
      simp [Function.comp_def]
    rw [htokens]
    exact .healthList (k := 1) (by simp) le_rfl (List.cons_ne_nil _ _) hparse hx

end Forms

section Drawing

theorem yields_statusWord (status : Health) :
    Yields (statusWord status) fun word =>
      Plain word.toList ∧ Health.parse word = some status := by
  cases status with
  | healthy => exact yields_pure ⟨by decide, by decide⟩
  | degraded => exact yields_pure ⟨by decide, by decide⟩
  | down =>
    refine (Draw.yields_pick (List.cons_ne_nil _ _)).imp fun word hword => ?_
    simp only [List.mem_cons, List.not_mem_nil, or_false] at hword
    rcases hword with rfl | rfl | rfl <;> exact ⟨by decide, by decide⟩

theorem drawn_deadline {text : String} (h : text ∈ deadlinePhrases) :
    ∃ phrase, DrawnPhrase text phrase := by
  simp only [deadlinePhrases, List.mem_cons, List.not_mem_nil, or_false] at h
  rcases h with rfl | rfl | rfl
  · exact ⟨["is", "due"], by decide⟩
  · exact ⟨["is", "scheduled"], by decide⟩
  · exact ⟨["must", "land"], by decide⟩

theorem drawn_event {text : String} (h : text ∈ eventPhrases) :
    ∃ phrase, DrawnPhrase text phrase := by
  simp only [eventPhrases, List.mem_cons, List.not_mem_nil, or_false] at h
  rcases h with rfl | rfl | rfl
  · exact ⟨["completed"], by decide⟩
  · exact ⟨["started"], by decide⟩
  · exact ⟨["was", "updated"], by decide⟩

theorem yields_factSentence {fact : RelationalFact} (h : WellFormed fact) :
    Yields (factSentence fact) fun sentence => Shows sentence.toList fact := by
  cases fact with
  | dependsOn x y => exact yields_pure (shows_dependsOn h.1 h.2)
  | health x status =>
    refine (yields_statusWord status).bind fun word hword => ?_
    exact yields_pure (shows_health h hword.1 hword.2)
  | healthList x statuses =>
    refine (yields_mapM statuses fun status _ => yields_statusWord status).bind
      fun words hwords => ?_
    refine yields_pure (shows_healthList h.1 ?_ hwords)
    rintro rfl
    exact h.2 (List.forall₂_nil_right_iff.mp hwords)
  | restoresAfter x y => exact yields_pure (shows_restoresAfter h.1 h.2)
  | deadline x t =>
    refine (Draw.yields_pick (List.cons_ne_nil _ _)).bind fun text htext => ?_
    obtain ⟨phrase, hphrase⟩ := drawn_deadline htext
    exact yields_pure (shows_deadline h.1 h.2 hphrase)
  | event x t =>
    refine (Draw.yields_pick (List.cons_ne_nil _ _)).bind fun text htext => ?_
    obtain ⟨phrase, hphrase⟩ := drawn_event htext
    exact yields_pure (shows_event h.1 h.2 hphrase)

theorem canonicalWord_parse (status : Health) :
    Plain (canonicalWord status).toList ∧ Health.parse (canonicalWord status) = some status := by
  cases status <;> exact ⟨by decide, by decide⟩

theorem shows_canonicalSentence {fact : RelationalFact} (h : WellFormed fact) :
    Shows (canonicalSentence fact).toList fact := by
  cases fact with
  | dependsOn x y => exact shows_dependsOn h.1 h.2
  | health x status =>
    exact shows_health h (canonicalWord_parse status).1 (canonicalWord_parse status).2
  | healthList x statuses =>
    refine shows_healthList h.1 (by simpa using h.2) ?_
    rw [List.forall₂_map_right_iff, List.forall₂_same]
    exact fun status _ => canonicalWord_parse status
  | restoresAfter x y => exact shows_restoresAfter h.1 h.2
  | deadline x t =>
    have hphrase : DrawnPhrase "is due" ["is", "due"] := by decide
    have htext : canonicalSentence (.deadline x t) = x ++ " " ++ "is due" ++ " by " ++ t.toIso :=
      String.toList_injective (by simp [canonicalSentence])
    rw [htext]
    exact shows_deadline h.1 h.2 hphrase
  | event x t =>
    have hphrase : DrawnPhrase "completed" ["completed"] := by decide
    have htext : canonicalSentence (.event x t) = x ++ " " ++ "completed" ++ " on " ++ t.toIso :=
      String.toList_injective (by simp [canonicalSentence])
    rw [htext]
    exact shows_event h.1 h.2 hphrase

end Drawing

section Texts

def following (sentences : List String) : List Char :=
  sentences.flatMap fun sentence => ' ' :: (sentence.toList ++ ['.'])

theorem toList_joined (first : String) (rest : List String) :
    (". ".intercalate (first :: rest) ++ ".").toList =
      first.toList ++ '.' :: following rest := by
  induction rest generalizing first with
  | nil => simp [following]
  | cons next rest ih =>
    have hnext := ih next
    rw [String.toList_append] at hnext
    rw [String.intercalate_cons_of_ne_nil (List.cons_ne_nil _ _), String.toList_append,
      String.toList_append, List.append_assoc, hnext]
    simp [following]

theorem split_period {chars : List Char} (h : '.' ∉ chars) (rest : List Char) :
    (chars ++ '.' :: rest).splitOnP (fun c => c = '.') =
      chars :: rest.splitOnP fun c => c = '.' := by
  have hno : ∀ c ∈ chars, decide (c = '.') = false := fun c hc =>
    decide_eq_false fun he => h (he ▸ hc)
  exact List.splitOnP_append_cons_of_forall_mem hno '.' (by decide) rest

variable [RustStd]

theorem parse_blank : parseSentence (Facts.normalize []) = none := by
  have hnone : Facts.normalize [] = [] := by
    rw [Facts.normalize, List.splitOnP_nil]
    rfl
  rw [hnone]
  rfl

theorem facts_following (hlaws : BlankLaws) {sentences : List String}
    {facts : List RelationalFact}
    (h : List.Forall₂ (fun fact sentence => Shows sentence.toList fact) facts sentences) :
    ((following sentences).splitOnP fun c => c = '.').filterMap
      (fun sentence => parseSentence (Facts.normalize sentence)) = facts := by
  induction h with
  | nil => simp [following, parse_blank]
  | @cons fact sentence facts sentences hshow _ ih =>
    have hperiod : '.' ∉ ' ' :: sentence.toList := by
      obtain ⟨raws, words, hraws, -, hwords, -⟩ := hshow
      rw [hraws]
      simpa using period_notMem hwords
    have hsplit : following (sentence :: sentences) =
        (' ' :: sentence.toList) ++ '.' :: following sentences := by
      simp [following]
    rw [hsplit, split_period hperiod]
    simp only [List.filterMap_cons, (parse_of_shows hlaws hshow).2, ih]

theorem extract_joined (hlaws : BlankLaws) {sentences : List String}
    {facts : List RelationalFact}
    (h : List.Forall₂ (fun fact sentence => Shows sentence.toList fact) facts sentences) :
    extract (". ".intercalate sentences ++ ".") = facts := by
  cases h with
  | nil =>
    have hsplit : (['.'] : List Char).splitOnP (fun c => c = '.') = [[], []] := by decide
    simp [extract, hsplit, parse_blank]
  | @cons fact sentence facts sentences hshow hrest =>
    have hperiod : '.' ∉ sentence.toList := by
      obtain ⟨raws, words, hraws, -, hwords, -⟩ := hshow
      rw [hraws]
      exact period_notMem hwords
    rw [extract, toList_joined, split_period hperiod]
    simp only [List.filterMap_cons, (parse_of_shows hlaws hshow).1, facts_following hlaws hrest]

theorem extract_one (hlaws : BlankLaws) {sentence : String} {fact : RelationalFact}
    (h : Shows sentence.toList fact) : extract sentence = [fact] := by
  have hperiod : ∀ c ∈ sentence.toList, decide (c = '.') = false := by
    obtain ⟨raws, words, hraws, -, hwords, -⟩ := h
    rw [hraws]
    exact fun c hc => decide_eq_false fun he => period_notMem hwords (he ▸ hc)
  rw [extract, List.splitOnP_eq_singleton hperiod]
  simp only [List.filterMap_cons, (parse_of_shows hlaws h).1, List.filterMap_nil]

omit [RustStd] in
theorem shuffle_both {facts : List RelationalFact} {sentences : List String}
    (h : List.Forall₂ (fun fact sentence => Shows sentence.toList fact) facts sentences)
    (rng : Rng) :
    ∃ order shuffled rng', Draw.shuffle facts rng = .ok (order, rng') ∧ order.Perm facts ∧
      Draw.shuffle sentences rng = .ok (shuffled, rng') ∧
      List.Forall₂ (fun fact sentence => Shows sentence.toList fact) order shuffled := by
  have hlen := h.length_eq
  obtain ⟨pairs, rng', hrun, hperm⟩ := Draw.yields_shuffle (facts.zip sentences) rng
  have hfacts : (facts.zip sentences).map Prod.fst = facts :=
    List.map_fst_zip hlen.le
  have hsentences : (facts.zip sentences).map Prod.snd = sentences :=
    List.map_snd_zip hlen.ge
  refine ⟨pairs.map Prod.fst, pairs.map Prod.snd, rng', ?_, hfacts ▸ hperm.map Prod.fst, ?_, ?_⟩
  · rw [← hfacts, Draw.shuffle_map]
    exact Draw.map_run hrun
  · rw [← hsentences, Draw.shuffle_map]
    exact Draw.map_run hrun
  · rw [List.forall₂_map_left_iff, List.forall₂_map_right_iff, List.forall₂_same]
    intro pair hpair
    exact List.forall₂_iff_zip.mp h |>.2 (hperm.mem_iff.mp hpair)

/-- The text of well-formed facts is read as the facts in the order of its sentences. -/
theorem stateText_order (hlaws : BlankLaws) {facts : List RelationalFact}
    (h : ∀ fact ∈ facts, WellFormed fact) (rng : Rng) :
    ∃ sentences drawn order text rng',
      facts.mapM factSentence rng = .ok (sentences, drawn) ∧
      Draw.shuffle facts drawn = .ok (order, rng') ∧ order.Perm facts ∧
      stateText facts rng = .ok (text, rng') ∧ extract text = order := by
  obtain ⟨sentences, drawn, hdrawn, hshow⟩ :=
    yields_mapM facts (fun fact hfact => yields_factSentence (h fact hfact)) rng
  obtain ⟨order, shuffled, rng', hfacts, hperm, hsentences, hboth⟩ := shuffle_both hshow drawn
  refine ⟨sentences, drawn, order, ". ".intercalate shuffled ++ ".", rng', hdrawn, hfacts, hperm,
    ?_, extract_joined hlaws hboth⟩
  rw [stateText, run_bind hdrawn, run_bind hsentences]
  rfl

/-- From the text of well-formed facts, drawn from any generator, the facts are extracted in the
order that the shuffle of the sentences gives them; and each fact alone from its canonical
sentence. -/
theorem extract_stateText (hlaws : BlankLaws) (facts : List RelationalFact)
    (h : ∀ fact ∈ facts, WellFormed fact) (rng : Rng) :
    (∃ sentences drawn order text rng',
      facts.mapM factSentence rng = .ok (sentences, drawn) ∧
      Draw.shuffle facts drawn = .ok (order, rng') ∧ order.Perm facts ∧
      stateText facts rng = .ok (text, rng') ∧ extract text = order) ∧
    ∀ fact ∈ facts, extract (canonicalSentence fact) = [fact] :=
  ⟨stateText_order hlaws h rng,
    fun fact hfact => extract_one hlaws (shows_canonicalSentence (h fact hfact))⟩

end Texts

section Samples

attribute [local instance] plainStd

theorem plain_blankLaws : BlankLaws where
  blank := by decide
  visible := by
    intro c hlo hhi
    by_contra h
    simp only [Bool.not_eq_false] at h
    have hblank : Char.isWhitespace c = true := h
    simp only [Char.isWhitespace, Bool.or_eq_true, decide_eq_true_eq] at hblank
    rcases hblank with ((rfl | rfl) | rfl) | rfl <;> exact absurd hlo (by decide)

def board : List RelationalFact :=
  [.dependsOn "billing" "catalog", .healthList "north" [.healthy, .down],
    .event "audit" ⟨2026, 1, 15, 9, 30⟩]

theorem board_wellFormed : ∀ fact ∈ board, WellFormed fact := by
  simp only [board, List.forall_mem_cons, List.not_mem_nil, false_imp_iff, implies_true, and_true]
  exact ⟨⟨by decide, by decide⟩, ⟨by decide, by decide⟩, by decide,
    ⟨by decide, by decide, by decide, by decide, by decide⟩⟩

theorem extract_stateText_board :
    (BlankLaws ∧ ∀ fact ∈ board, WellFormed fact) ∧
      (∃ text rng' order, stateText board ⟨7⟩ = .ok (text, rng') ∧ order.Perm board ∧
        extract text = order) ∧
      ∀ fact ∈ board, extract (canonicalSentence fact) = [fact] := by
  obtain ⟨⟨sentences, drawn, order, text, rng', -, -, hperm, htext, hextract⟩, hone⟩ :=
    extract_stateText plain_blankLaws board board_wellFormed ⟨7⟩
  exact ⟨⟨plain_blankLaws, board_wellFormed⟩, ⟨text, rng', order, htext, hperm, hextract⟩, hone⟩

end Samples

end OpenCodifier.Itemgen
