import Mathlib.Data.List.ReduceOption
import OpenCodifier.Engine.Timestamp
import OpenCodifier.Engine.Sample
set_option autoImplicit false

namespace OpenCodifier

namespace Facts

/-- What the sentence forms leave open: the names, the colons after the name of a group report,
the status words and the times. -/
structure Grammar where
  name : String → Prop
  colons : Nat → Prop
  status : String → Option Health
  time : String → Timestamp → Prop

/-- One to three words between an entity and its preposition. -/
def Phrase (phrase : List String) : Prop :=
  phrase ≠ [] ∧ phrase.length ≤ 3 ∧ ∀ word ∈ phrase, isPhraseWord word = true

/-- The tokens of a sentence have one of the six forms and state the fact. -/
inductive Says (g : Grammar) : List String → RelationalFact → Prop
  | dependsOn {x depends on y : String} (hdepends : toAsciiLowercase depends = "depends")
      (hon : toAsciiLowercase on = "on") (hx : g.name x) (hy : g.name y) :
      Says g [x, depends, on, y] (.dependsOn x y)
  | health {x is word : String} {status : Health} (his : toAsciiLowercase is = "is")
      (hstatus : g.status word = some status) (hx : g.name x) :
      Says g [x, is, word] (.health x status)
  | restoresAfter {x y : String} {words : List String}
      (hwords : words.map toAsciiLowercase = ["comes", "back", "online", "only", "after"])
      (hx : g.name x) (hy : g.name y) : Says g (x :: (words ++ [y])) (.restoresAfter x y)
  | healthList {x head : String} {k : Nat} {words : List String} {statuses : List Health}
      (hhead : head.toList = x.toList ++ List.replicate k ':') (hk : g.colons k)
      (hne : words ≠ []) (hstatuses : words.map g.status = statuses.map some) (hx : g.name x) :
      Says g (head :: words) (.healthList x statuses)
  | deadline {x by' word : String} {phrase : List String} {t : Timestamp}
      (hphrase : Phrase phrase) (hby : toAsciiLowercase by' = "by") (ht : g.time word t)
      (hx : g.name x) : Says g (x :: (phrase ++ [by', word])) (.deadline x t)
  -- a dependency takes the words "depends on" for itself, on a date too
  | event {x on word : String} {phrase : List String} {t : Timestamp}
      (hphrase : Phrase phrase) (hdepends : phrase.map toAsciiLowercase ≠ ["depends"])
      (hon : toAsciiLowercase on = "on") (ht : g.time word t) (hx : g.name x) :
      Says g (x :: (phrase ++ [on, word])) (.event x t)

/-- A run of name characters of bounded length that is no ISO time. -/
def WellNamed (word : String) : Prop :=
  word ≠ "" ∧ word.utf8ByteSize ≤ maxNameLen ∧ word.toList.all nameChar = true ∧
    ∀ t, ¬ Timestamp.Iso word t

def documented (spoken : String → Bool) : Grammar where
  name := WellNamed
  colons k := k = 1
  status word := if spoken word then Health.parse word else none
  time := Timestamp.Iso

def accepted : Grammar where
  name word := isName word = true
  colons k := 1 ≤ k
  status := Health.parse
  time word t := Timestamp.parse word = some t

/-- The forms with all that either of the two allows. -/
def lax : Grammar where
  name := WellNamed
  colons k := 1 ≤ k
  status := Health.parse
  time word t := Timestamp.parse word = some t

section Names

theorem isName_iff (word : String) :
    isName word = true ↔ WellNamed word ∧ Timestamp.parse word = none := by
  simp only [isName, WellNamed, Bool.and_eq_true, decide_eq_true_eq, Bool.not_eq_true',
    Bool.and_eq_false_iff]
  constructor
  · rintro ⟨⟨⟨hne, hlen⟩, hall⟩, htime⟩
    have hnone : Timestamp.parse word = none := by
      cases hparse : Timestamp.parse word with
      | none => rfl
      | some t =>
        have hdash := Timestamp.dash_mem_of_parse hparse
        rw [hparse] at htime
        simp [hdash] at htime
    refine ⟨⟨hne, hlen, hall, fun t ht => ?_⟩, hnone⟩
    rw [Timestamp.parse_of_iso ht] at hnone
    cases hnone
  · rintro ⟨⟨hne, hlen, hall, -⟩, hnone⟩
    exact ⟨⟨⟨hne, hlen⟩, hall⟩, Or.inr (by rw [hnone]; rfl)⟩

theorem colon_notMem {word : String} (h : WellNamed word) : ':' ∉ word.toList := by
  intro hm
  exact absurd (List.all_eq_true.mp h.2.2.1 ':' hm) (by decide)

theorem last_of_wellNamed {word : String} (h : WellNamed word) :
    word.toList.getLast? ≠ some ':' := fun hl => colon_notMem h (List.mem_of_getLast? hl)

theorem rdropWhile_colons {x head : String} {k : Nat} (hx : WellNamed x)
    (hhead : head.toList = x.toList ++ List.replicate k ':') :
    String.ofList (head.toList.rdropWhile fun c => c = ':') = x := by
  rw [hhead]
  have hdrop : (x.toList ++ List.replicate k ':').rdropWhile (fun c => c = ':') = x.toList := by
    clear hhead
    induction k with
    | zero =>
      rw [List.replicate_zero, List.append_nil, List.rdropWhile_eq_self_iff]
      intro hne hlast
      refine last_of_wellNamed hx ?_
      rw [List.getLast?_eq_some_getLast hne, of_decide_eq_true hlast]
    | succ k ih =>
      rw [List.replicate_succ', ← List.append_assoc, List.rdropWhile_concat_pos _ _ _ (by simp)]
      exact ih
  rw [hdrop, String.ofList_toList]

theorem last_colon {x head : String} {k : Nat} (hk : 1 ≤ k)
    (hhead : head.toList = x.toList ++ List.replicate k ':') :
    head.toList.getLast? = some ':' := by
  obtain ⟨j, rfl⟩ : ∃ j, k = j + 1 := ⟨k - 1, by omega⟩
  rw [hhead, List.replicate_succ', ← List.append_assoc, List.getLast?_concat]

end Names

section Words

theorem toLower_idem (c : Char) : c.toLower.toLower = c.toLower := by
  by_cases h : c.val ≥ 'A'.val ∧ c.val ≤ 'Z'.val
  · have hval : c.toLower.val = c.val + 32 := by
      have hlow : c.toLower = _ := dif_pos h
      rw [hlow]
      rfl
    have hnot : ¬ (c.toLower.val ≥ 'A'.val ∧ c.toLower.val ≤ 'Z'.val) := by
      rw [hval]
      intro hrange
      have h1 := h.1
      have h2 := h.2
      have h3 := hrange.2
      rw [UInt32.le_iff_toNat_le, UInt32.toNat_add] at h3
      rw [ge_iff_le, UInt32.le_iff_toNat_le] at h1
      rw [UInt32.le_iff_toNat_le] at h2
      simp at h1 h2 h3
      omega
    exact dif_neg hnot
  · have hself : c.toLower = c := dif_neg h
    rw [hself, hself]

theorem toAsciiLowercase_idem (word : String) :
    toAsciiLowercase (toAsciiLowercase word) = toAsciiLowercase word := by
  simp only [toAsciiLowercase, String.toList_ofList, List.map_map, Function.comp_def, toLower_idem]

theorem status_lowercase (word : String) :
    Health.parse (toAsciiLowercase word) = Health.parse word := by
  rw [Health.parse, toAsciiLowercase_idem, Health.parse]

theorem status_words {word : String} {status : Health} (h : Health.parse word = some status) :
    toAsciiLowercase word ∈ ["healthy", "ok", "degraded", "down", "failing", "offline"] := by
  unfold Health.parse at h
  split at h <;> simp_all

end Words

section Acceptance

theorem mapM_status {words : List String} {statuses : List Health} :
    (words.map toAsciiLowercase).mapM Health.parse = some statuses ↔
      words.map Health.parse = statuses.map some := by
  induction words generalizing statuses with
  | nil => cases statuses <;> simp
  | cons word words ih =>
    rw [List.map_cons, List.mapM_cons, status_lowercase]
    cases hword : Health.parse word with
    | none => cases statuses <;> simp [hword]
    | some status =>
      cases statuses with
      | nil =>
        cases (words.map toAsciiLowercase).mapM Health.parse with
        | none => simp
        | some read => simp
      | cons s rest =>
        cases hrest : (words.map toAsciiLowercase).mapM Health.parse with
        | none =>
          have hne : words.map Health.parse ≠ rest.map some := by
            intro he
            rw [ih.mpr he] at hrest
            cases hrest
          simp [hword, hne]
        | some read =>
          have hread := ih.mp hrest
          simp [hword, hread, (Option.some_injective _).list_map.eq_iff]

theorem head_of_name {x : String} (h : isName x = true) : x.toList.getLast? ≠ some ':' :=
  last_of_wellNamed ((isName_iff x).mp h).1

/-- Every sentence of an accepted form is read as its fact. -/
theorem parseSentence_of_form {tokens : List String} {fact : RelationalFact}
    (h : Says accepted tokens fact) : parseSentence tokens = some fact := by
  cases h with
  | @dependsOn x depends on y hdepends hon hx hy =>
    have hx' : isName x = true := hx
    have hy' : isName y = true := hy
    simp [parseSentence, hdepends, hon, hx', hy']
  | @health x is word status his hstatus hx =>
    have hx' : isName x = true := hx
    have hs : Health.parse word = some status := hstatus
    simp [parseSentence, his, hx', status_lowercase, hs]
  | @restoresAfter x y words hwords hx hy =>
    have hx' : isName x = true := hx
    have hy' : isName y = true := hy
    have hlen : words.length = 5 := by
      have := congrArg List.length hwords
      simpa using this
    obtain ⟨a, b, c, d, e, rfl⟩ : ∃ a b c d e, words = [a, b, c, d, e] := by
      match words, hlen with
      | [a, b, c, d, e], _ => exact ⟨a, b, c, d, e, rfl⟩
    simp only [List.map_cons, List.map_nil, List.cons.injEq, and_true] at hwords
    simp [parseSentence, hwords, hx', hy']
  | @healthList x head k words statuses hhead hk hne hstatuses hx =>
    have hx' : isName x = true := hx
    have hlast := last_colon hk hhead
    have hdrop := rdropWhile_colons ((isName_iff x).mp hx').1 hhead
    have hmap := mapM_status.mpr hstatuses
    obtain ⟨word, rest, rfl⟩ := List.exists_cons_of_ne_nil hne
    cases statuses with
    | nil => simp at hstatuses
    | cons status others =>
      have hword : Health.parse word = some status := by
        have hs : accepted.status word = some status := by
          have := congrArg List.head? hstatuses
          simpa using this
        exact hs
      have hmem := status_words hword
      have hdepends : toAsciiLowercase word ≠ "depends" := by
        intro he
        rw [he] at hmem
        exact absurd hmem (by decide)
      have his : toAsciiLowercase word ≠ "is" := by
        intro he
        rw [he] at hmem
        exact absurd hmem (by decide)
      have hcomes : toAsciiLowercase word ≠ "comes" := by
        intro he
        rw [he] at hmem
        exact absurd hmem (by decide)
      rw [List.map_cons] at hmap
      simp [parseSentence, hdepends, his, hcomes, hlast, hdrop, hmap, hx', -List.mapM_cons,
        -List.mapM_map]
  | @deadline x prep word phrase t hphrase hby ht hx =>
    have hx' : isName x = true := hx
    have hhead := head_of_name hx'
    have htime : Timestamp.parse word = some t := ht
    obtain ⟨hne, hlen, hwords⟩ := hphrase
    match phrase, hne, hlen, hwords with
    | [a], _, _, hwords => simp_all [parseSentence]
    | [a, b], _, _, hwords => simp_all [parseSentence]
    | [a, b, c], _, _, hwords => simp_all [parseSentence]
  | @event x prep word phrase t hphrase hdepends hon ht hx =>
    have hx' : isName x = true := hx
    have hhead := head_of_name hx'
    have htime : Timestamp.parse word = some t := ht
    obtain ⟨hne, hlen, hwords⟩ := hphrase
    match phrase, hne, hlen, hwords with
    | [a], _, _, hwords => simp_all [parseSentence]
    | [a, b], _, _, hwords => simp_all [parseSentence]
    | [a, b, c], _, _, hwords => simp_all [parseSentence]

theorem colons_of_last {head : String} (h : head.toList.getLast? = some ':') :
    ∃ k, 1 ≤ k ∧ head.toList =
      (String.ofList (head.toList.rdropWhile fun c => c = ':')).toList ++
        List.replicate k ':' := by
  have hsplit : (head.toList.rdropWhile fun c => c = ':') ++
      (head.toList.rtakeWhile fun c => c = ':') = head.toList := List.rdropWhile_append_rtakeWhile
  have hall : ∀ c ∈ head.toList.rtakeWhile (fun c => c = ':'), c = ':' := by
    intro c hc
    simpa using List.mem_rtakeWhile_imp hc
  refine ⟨(head.toList.rtakeWhile fun c => c = ':').length, ?_, ?_⟩
  · refine List.length_pos_of_ne_nil fun hnil => ?_
    rw [List.rtakeWhile_eq_nil_iff] at hnil
    have hne : head.toList ≠ [] := by
      intro he
      rw [he] at h
      cases h
    rw [List.getLast?_eq_some_getLast hne, Option.some.injEq] at h
    exact hnil hne (decide_eq_true h)
  · rw [String.toList_ofList, ← List.eq_replicate_of_mem hall]
    exact hsplit.symm

theorem three_of_length {l : List String} (h : l.length = 3) : ∃ a b c, l = [a, b, c] := by
  match l, h with
  | [a, b, c], _ => exact ⟨a, b, c, rfl⟩

theorem four_of_length {l : List String} (h : l.length = 4) : ∃ a b c d, l = [a, b, c, d] := by
  match l, h with
  | [a, b, c, d], _ => exact ⟨a, b, c, d, rfl⟩

theorem seven_of_length {l : List String} (h : l.length = 7) :
    ∃ a b c d e f g, l = [a, b, c, d, e, f, g] := by
  match l, h with
  | [a, b, c, d, e, f, g], _ => exact ⟨a, b, c, d, e, f, g, rfl⟩

theorem dated_of_length {l : List String} (h : 4 ≤ l.length ∧ l.length ≤ 6) :
    ∃ x phrase prep word, l = x :: (phrase ++ [prep, word]) ∧ phrase ≠ [] ∧
      phrase.length ≤ 3 := by
  match l, h with
  | [x, a, prep, word], _ => exact ⟨x, [a], prep, word, by simp⟩
  | [x, a, b, prep, word], _ => exact ⟨x, [a, b], prep, word, by simp⟩
  | [x, a, b, c, prep, word], _ => exact ⟨x, [a, b, c], prep, word, by simp⟩

/-- What is read from a sentence is stated by an accepted form. -/
theorem form_of_parseSentence {tokens : List String} {fact : RelationalFact}
    (h : parseSentence tokens = some fact) : Says accepted tokens fact := by
  unfold parseSentence at h
  simp only [Bool.and_eq_true, Bool.or_eq_true, decide_eq_true_eq] at h
  split at h
  · rename_i hform
    obtain ⟨x, depends, on, y, rfl⟩ := four_of_length hform.1.1
    simp only [Option.ite_none_right_eq_some, Option.some.injEq] at h
    obtain ⟨hnames, rfl⟩ := h
    exact .dependsOn hform.1.2 hform.2 hnames.1 hnames.2
  split at h
  · rename_i hform
    obtain ⟨x, is, word, rfl⟩ := three_of_length hform.1
    obtain ⟨status, hstatus, h⟩ := Option.bind_eq_some_iff.mp h
    simp only [Option.ite_none_right_eq_some, Option.some.injEq] at h
    obtain ⟨hx, rfl⟩ := h
    exact .health hform.2 ((status_lowercase word).symm.trans hstatus) hx
  split at h
  · rename_i hform
    obtain ⟨x, a, b, c, d, e, y, rfl⟩ := seven_of_length hform.1
    simp only [Option.ite_none_right_eq_some, Option.some.injEq] at h
    obtain ⟨hnames, rfl⟩ := h
    exact @Says.restoresAfter accepted x y [a, b, c, d, e] hform.2 hnames.1 hnames.2
  split at h
  · rename_i hform
    obtain ⟨head, rest, rfl⟩ := List.exists_cons_of_length_pos (show 0 < tokens.length by omega)
    obtain ⟨statuses, hstatuses, h⟩ := Option.bind_eq_some_iff.mp h
    simp only [Option.ite_none_right_eq_some, Option.some.injEq] at h
    obtain ⟨hx, rfl⟩ := h
    obtain ⟨k, hk, hhead⟩ := colons_of_last hform.2
    refine .healthList hhead hk ?_ (mapM_status.mp hstatuses) hx
    rintro rfl
    exact absurd hform.1 (by simp)
  split at h
  · rename_i hdep _ _ _ hform
    obtain ⟨x, phrase, prep, word, rfl, hne, hlen⟩ := dated_of_length hform.1
    have hlow : ((x :: (phrase ++ [prep, word])).map toAsciiLowercase).getD
        ((x :: (phrase ++ [prep, word])).length - 2) "" = toAsciiLowercase prep := by
      simp [List.getD_eq_getElem?_getD]
    have hlast : (x :: (phrase ++ [prep, word])).getD
        ((x :: (phrase ++ [prep, word])).length - 1) "" = word := by
      simp [List.getD_eq_getElem?_getD]
    have hmid : ((x :: (phrase ++ [prep, word])).drop 1).take
        ((x :: (phrase ++ [prep, word])).length - 3) = phrase := by
      simp
    rw [hlow, hlast, hmid] at h
    rw [hlow] at hform
    obtain ⟨t, ht, h⟩ := Option.bind_eq_some_iff.mp h
    split at h
    · cases h
    · rename_i hwords
      simp only [Bool.not_eq_true', not_or, Bool.not_eq_false, List.all_eq_true] at hwords
      split at h
      · rename_i hby
        cases h
        exact .deadline ⟨hne, hlen, hwords.2⟩ hby ht hwords.1
      · rename_i hby
        cases h
        refine .event ⟨hne, hlen, hwords.2⟩ ?_ (hform.2.resolve_left hby) ht hwords.1
        intro hdepends
        obtain ⟨a, rfl⟩ : ∃ a, phrase = [a] := by
          rw [← List.length_eq_one_iff, ← List.length_map (f := toAsciiLowercase), hdepends]
          rfl
        exact hdep ⟨⟨rfl, by simpa using hdepends⟩, hform.2.resolve_left hby⟩
  · cases h

end Acceptance

theorem parseSentence_iff {tokens : List String} {fact : RelationalFact} :
    parseSentence tokens = some fact ↔ Says accepted tokens fact :=
  ⟨form_of_parseSentence, parseSentence_of_form⟩

section Differences

def names : RelationalFact → List String
  | .dependsOn x y => [x, y]
  | .health x _ => [x]
  | .healthList x _ => [x]
  | .restoresAfter x y => [x, y]
  | .deadline x _ => [x]
  | .event x _ => [x]

/-- None of the names is read as a time. -/
def Undated (fact : RelationalFact) : Prop := ∀ name ∈ names fact, Timestamp.parse name = none

/-- The sentence keeps to the documented colon, status words and times. -/
def Tidy (spoken : String → Bool) (tokens : List String) : RelationalFact → Prop
  | .health _ _ => ∀ word ∈ tokens.getLast?, spoken word = true
  | .healthList _ _ => (∀ head ∈ tokens.head?, ¬ [':', ':'] <:+ head.toList) ∧
      ∀ word ∈ tokens.tail, spoken word = true
  | .deadline _ t => ∀ word ∈ tokens.getLast?, Timestamp.Iso word t
  | .event _ t => ∀ word ∈ tokens.getLast?, Timestamp.Iso word t
  | .dependsOn _ _ => True
  | .restoresAfter _ _ => True

theorem getLast?_dated {x prep word : String} (phrase : List String) :
    (x :: (phrase ++ [prep, word])).getLast? = some word := by
  simp [List.getLast?_cons]

theorem says_accepted_iff {tokens : List String} {fact : RelationalFact} :
    Says accepted tokens fact ↔ Says lax tokens fact ∧ Undated fact := by
  constructor
  · intro h
    cases h with
    | dependsOn hdepends hon hx hy =>
      have hx' := (isName_iff _).mp hx
      have hy' := (isName_iff _).mp hy
      exact ⟨.dependsOn hdepends hon hx'.1 hy'.1, by simp [Undated, names, hx'.2, hy'.2]⟩
    | health his hstatus hx =>
      have hx' := (isName_iff _).mp hx
      exact ⟨.health his hstatus hx'.1, by simp [Undated, names, hx'.2]⟩
    | restoresAfter hwords hx hy =>
      have hx' := (isName_iff _).mp hx
      have hy' := (isName_iff _).mp hy
      exact ⟨.restoresAfter hwords hx'.1 hy'.1, by simp [Undated, names, hx'.2, hy'.2]⟩
    | healthList hhead hk hne hstatuses hx =>
      have hx' := (isName_iff _).mp hx
      exact ⟨.healthList hhead hk hne hstatuses hx'.1, by simp [Undated, names, hx'.2]⟩
    | deadline hphrase hby ht hx =>
      have hx' := (isName_iff _).mp hx
      exact ⟨.deadline hphrase hby ht hx'.1, by simp [Undated, names, hx'.2]⟩
    | event hphrase hdepends hon ht hx =>
      have hx' := (isName_iff _).mp hx
      exact ⟨.event hphrase hdepends hon ht hx'.1, by simp [Undated, names, hx'.2]⟩
  · rintro ⟨h, hu⟩
    have hname : ∀ x ∈ names fact, WellNamed x → accepted.name x :=
      fun x hm hx => (isName_iff x).mpr ⟨hx, hu x hm⟩
    cases h with
    | dependsOn hdepends hon hx hy =>
      exact .dependsOn hdepends hon (hname _ (by simp [names]) hx) (hname _ (by simp [names]) hy)
    | health his hstatus hx => exact .health his hstatus (hname _ (by simp [names]) hx)
    | restoresAfter hwords hx hy =>
      exact .restoresAfter hwords (hname _ (by simp [names]) hx) (hname _ (by simp [names]) hy)
    | healthList hhead hk hne hstatuses hx =>
      exact .healthList hhead hk hne hstatuses (hname _ (by simp [names]) hx)
    | deadline hphrase hby ht hx =>
      exact .deadline hphrase hby ht (hname _ (by simp [names]) hx)
    | event hphrase hdepends hon ht hx =>
      exact .event hphrase hdepends hon ht (hname _ (by simp [names]) hx)

theorem one_colon_iff {x head : String} {k : Nat} (hx : WellNamed x) (hk : 1 ≤ k)
    (hhead : head.toList = x.toList ++ List.replicate k ':') :
    k = 1 ↔ ¬ [':', ':'] <:+ head.toList := by
  rw [hhead]
  constructor
  · rintro rfl ⟨before, hbefore⟩
    have hx' : before ++ [':'] = x.toList := by
      have : (before ++ [':']) ++ [':'] = x.toList ++ [':'] := by simpa using hbefore
      exact List.append_cancel_right this
    exact last_of_wellNamed hx (by rw [← hx', List.getLast?_concat])
  · intro hno
    by_contra hne
    obtain ⟨j, rfl⟩ : ∃ j, k = j + 2 := ⟨k - 2, by omega⟩
    refine hno ⟨x.toList ++ List.replicate j ':', ?_⟩
    rw [List.append_assoc, List.replicate_add]
    rfl

theorem spoken_statuses {spoken : String → Bool} {words : List String} {statuses : List Health} :
    words.map (documented spoken).status = statuses.map some ↔
      words.map Health.parse = statuses.map some ∧ ∀ word ∈ words, spoken word = true := by
  induction words generalizing statuses with
  | nil => cases statuses <;> simp
  | cons word words ih =>
    cases statuses with
    | nil => simp
    | cons status statuses =>
      rw [List.map_cons, List.map_cons, List.map_cons, List.cons.injEq, List.cons.injEq, ih]
      simp only [documented, List.mem_cons, forall_eq_or_imp, Option.ite_none_right_eq_some]
      tauto

theorem says_documented_iff {spoken : String → Bool} {tokens : List String}
    {fact : RelationalFact} :
    Says (documented spoken) tokens fact ↔ Says lax tokens fact ∧ Tidy spoken tokens fact := by
  constructor
  · intro h
    cases h with
    | dependsOn hdepends hon hx hy => exact ⟨.dependsOn hdepends hon hx hy, trivial⟩
    | health his hstatus hx =>
      obtain ⟨hspoken, hstatus⟩ := Option.ite_none_right_eq_some.mp hstatus
      exact ⟨.health his hstatus hx, by simpa [Tidy] using hspoken⟩
    | restoresAfter hwords hx hy => exact ⟨.restoresAfter hwords hx hy, trivial⟩
    | healthList hhead hk hne hstatuses hx =>
      obtain ⟨hstatuses, hspoken⟩ := spoken_statuses.mp hstatuses
      have hone : 1 ≤ _ := (show _ = 1 from hk).ge
      refine ⟨.healthList hhead hone hne hstatuses hx, ?_, by simpa using hspoken⟩
      simpa using (one_colon_iff hx hone hhead).mp hk
    | deadline hphrase hby ht hx =>
      refine ⟨.deadline hphrase hby (Timestamp.parse_of_iso ht) hx, ?_⟩
      simpa [Tidy, getLast?_dated, documented] using ht
    | event hphrase hdepends hon ht hx =>
      refine ⟨.event hphrase hdepends hon (Timestamp.parse_of_iso ht) hx, ?_⟩
      simpa [Tidy, getLast?_dated, documented] using ht
  · rintro ⟨h, htidy⟩
    cases h with
    | dependsOn hdepends hon hx hy => exact .dependsOn hdepends hon hx hy
    | health his hstatus hx =>
      refine .health his (Option.ite_none_right_eq_some.mpr ⟨?_, hstatus⟩) hx
      simpa [Tidy] using htidy
    | restoresAfter hwords hx hy => exact .restoresAfter hwords hx hy
    | healthList hhead hk hne hstatuses hx =>
      refine .healthList hhead ?_ hne (spoken_statuses.mpr ⟨hstatuses, by simpa using htidy.2⟩) hx
      exact (one_colon_iff hx hk hhead).mpr (by simpa using htidy.1)
    | deadline hphrase hby ht hx =>
      exact .deadline hphrase hby (by simpa [Tidy, getLast?_dated, documented] using htidy) hx
    | event hphrase hdepends hon ht hx =>
      exact .event hphrase hdepends hon (by simpa [Tidy, getLast?_dated, documented] using htidy) hx

end Differences

section Tokens

def Uncommaed (raw word : List Char) : Prop :=
  ∃ a b, raw = List.replicate a ',' ++ word ++ List.replicate b ',' ∧
    word.head? ≠ some ',' ∧ word.getLast? ≠ some ','

theorem dropWhile_commas (a : Nat) {rest : List Char} (h : rest.head? ≠ some ',') :
    (List.replicate a ',' ++ rest).dropWhile (fun c => c = ',') = rest := by
  induction a with
  | zero =>
    cases rest with
    | nil => rfl
    | cons c rest =>
      have hc : c ≠ ',' := fun he => h (by rw [he]; rfl)
      simp [hc]
  | succ a ih => simpa [List.replicate_succ] using ih

theorem rdropWhile_commas (b : Nat) {rest : List Char} (h : rest.getLast? ≠ some ',') :
    (rest ++ List.replicate b ',').rdropWhile (fun c => c = ',') = rest := by
  have hrev : (rest ++ List.replicate b ',').reverse =
      List.replicate b ',' ++ rest.reverse := by simp
  rw [List.rdropWhile, hrev, dropWhile_commas b (by rwa [List.head?_reverse]), List.reverse_reverse]

theorem commas_of_all {l : List Char} (h : ∀ c ∈ l, c = ',') :
    l = List.replicate l.length ',' := List.eq_replicate_of_mem h

theorem uncommaed_iff {raw word : List Char} : Uncommaed raw word ↔ word = trimCommas raw := by
  constructor
  · rintro ⟨a, b, rfl, hhead, hlast⟩
    by_cases hnil : word = []
    · subst hnil
      have hall : List.replicate a ',' ++ [] ++ List.replicate b ',' =
          List.replicate (a + b) ',' ++ [] := by simp
      rw [trimCommas, hall, dropWhile_commas (a + b) (by simp)]
      rfl
    · have hfront : (word ++ List.replicate b ',').head? ≠ some ',' := by
        rwa [List.head?_append_of_ne_nil _ hnil]
      rw [trimCommas, List.append_assoc, dropWhile_commas a hfront, rdropWhile_commas b hlast]
  · rintro rfl
    have hfront := List.takeWhile_append_dropWhile (p := fun c => decide (c = ',')) (l := raw)
    have hback : ((raw.dropWhile fun c => c = ',').rdropWhile fun c => c = ',') ++
        ((raw.dropWhile fun c => c = ',').rtakeWhile fun c => c = ',') =
        raw.dropWhile fun c => c = ',' := List.rdropWhile_append_rtakeWhile
    refine ⟨(raw.takeWhile fun c => c = ',').length,
      ((raw.dropWhile fun c => c = ',').rtakeWhile fun c => c = ',').length, ?_, ?_, ?_⟩
    · rw [← commas_of_all fun c hc => by simpa using List.mem_takeWhile_imp hc,
        ← commas_of_all fun c hc => by simpa using List.mem_rtakeWhile_imp hc, trimCommas,
        List.append_assoc, hback, hfront]
    · intro hhead
      have hprefix : trimCommas raw <+: raw.dropWhile fun c => c = ',' :=
        List.rdropWhile_prefix _ _
      have hdrop : (raw.dropWhile fun c => c = ',').head? = some ',' := by
        obtain ⟨rest, hrest⟩ := hprefix
        rw [← hrest, List.head?_append, hhead]
        rfl
      have hnot := List.head?_dropWhile_not (fun c => decide (c = ',')) raw
      rw [hdrop] at hnot
      simp at hnot
    · intro hlast
      have hne : trimCommas raw ≠ [] := by
        intro he
        rw [he] at hlast
        cases hlast
      have hnot := List.rdropWhile_last_not (fun c => decide (c = ','))
        (raw.dropWhile fun c => c = ',') hne
      rw [List.getLast?_eq_some_getLast hne, Option.some.injEq] at hlast
      exact hnot (decide_eq_true hlast)

theorem forall₂_uncommaed {raws words : List (List Char)} :
    List.Forall₂ Uncommaed raws words ↔ words = raws.map trimCommas := by
  induction raws generalizing words with
  | nil => simp
  | cons raw raws ih =>
    cases words with
    | nil => simp
    | cons word words => simp [ih, uncommaed_iff]

variable [RustStd]

def Words (sentence : List Char) (tokens : List String) : Prop :=
  ∃ words, List.Forall₂ Uncommaed (sentence.splitOnP RustStd.isWhitespace) words ∧
    tokens = (words.filter fun word => word ≠ []).map String.ofList

theorem words_iff {sentence : List Char} {tokens : List String} :
    Words sentence tokens ↔ tokens = normalize sentence := by
  simp [Words, forall₂_uncommaed, normalize]

end Tokens

section Texts

theorem eq_of_length_reduceOption {α : Type} {l m : List (Option α)}
    (h : List.Forall₂ (fun o c => o = none ∨ o = c) l m) :
    l.reduceOption.length ≤ m.reduceOption.length ∧
      (l.reduceOption.length = m.reduceOption.length → l = m) := by
  induction h with
  | nil => simp
  | @cons o c l m hoc _ ih =>
    cases o with
    | none =>
      cases c with
      | none => simpa using ih
      | some x =>
        simp only [List.reduceOption_cons_of_none, List.reduceOption_cons_of_some,
          List.length_cons]
        refine ⟨by omega, fun he => ?_⟩
        omega
    | some x =>
      have hc : some x = c := hoc.resolve_left (by simp)
      subst hc
      simpa using ih

variable [RustStd]

def sentences (text : String) : List (List Char) := text.toList.splitOnP fun c => c = '.'

/-- In the order of the sentences, the one fact that each sentence of a documented form states. -/
def Documented (spoken : String → Bool) (text : String) (facts : List RelationalFact) : Prop :=
  ∃ stated : List (Option RelationalFact),
    List.Forall₂ (fun sentence o => ∃ tokens, Words sentence tokens ∧
      ∀ fact, o = some fact ↔ Says (documented spoken) tokens fact) (sentences text) stated ∧
    facts = stated.reduceOption

/-- Where the laxest reading of the sentence states a fact, none of its names is read as a time
exactly when the sentence is tidy. -/
def Regular (spoken : String → Bool) (sentence : List Char) : Prop :=
  ∀ fact, Says lax (normalize sentence) fact →
    (Undated fact ↔ Tidy spoken (normalize sentence) fact)

theorem extract_eq (text : String) :
    extract text =
      ((sentences text).map fun sentence => parseSentence (normalize sentence)).reduceOption := by
  rw [extract, List.reduceOption, List.filterMap_map]
  rfl

theorem documented_of_regular {spoken : String → Bool} {text : String}
    (h : ∀ sentence ∈ sentences text, Regular spoken sentence) :
    Documented spoken text (extract text) := by
  refine ⟨_, ?_, extract_eq text⟩
  rw [List.forall₂_map_right_iff, List.forall₂_same]
  intro sentence hs
  refine ⟨normalize sentence, words_iff.mpr rfl, fun fact => ?_⟩
  rw [parseSentence_iff, says_accepted_iff, says_documented_iff]
  exact and_congr_right (h sentence hs fact)

theorem regular_of_documented {spoken : String → Bool} {text : String}
    (h : Documented spoken text (extract text)) :
    ∀ sentence ∈ sentences text, Regular spoken sentence := by
  obtain ⟨stated, hall, heq⟩ := h
  -- a documented fact is in the extracted list, so its names are undated and it is accepted
  have hundated : ∀ fact ∈ stated.reduceOption, Undated fact := by
    intro fact hfact
    rw [← heq, extract_eq, List.reduceOption_mem_iff, List.mem_map] at hfact
    obtain ⟨sentence, -, hparse⟩ := hfact
    exact (says_accepted_iff.mp (form_of_parseSentence hparse)).2
  have hpairs : List.Forall₂ (fun o c => o = none ∨ o = c) stated
      ((sentences text).map fun sentence => parseSentence (normalize sentence)) := by
    rw [List.forall₂_map_right_iff]
    have hboth := (List.forall₂_and_left _ _).mpr
      ⟨fun o (ho : o ∈ stated) fact (he : o = some fact) =>
        hundated fact (List.reduceOption_mem_iff.mpr (he ▸ ho)), hall.flip⟩
    refine hboth.imp ?_
    rintro o sentence ⟨hnames, tokens, hwords, hreads⟩
    cases o with
    | none => exact Or.inl rfl
    | some fact =>
      right
      have hlax := (says_documented_iff.mp ((hreads fact).mp rfl)).1
      rw [words_iff.mp hwords] at hlax
      exact (parseSentence_of_form (says_accepted_iff.mpr ⟨hlax, hnames fact rfl⟩)).symm
  have hlen : stated.reduceOption.length = ((sentences text).map fun sentence =>
      parseSentence (normalize sentence)).reduceOption.length := by
    rw [← heq, extract_eq]
  rw [(eq_of_length_reduceOption hpairs).2 hlen, List.forall₂_map_right_iff,
    List.forall₂_same] at hall
  intro sentence hs fact hlax
  obtain ⟨tokens, hwords, hreads⟩ := hall sentence hs
  have hfact := hreads fact
  rw [words_iff.mp hwords, parseSentence_iff, says_accepted_iff, says_documented_iff] at hfact
  exact and_congr_right_iff.mp hfact hlax

/-- The extractor returns the documented facts of a text exactly when every sentence is regular,
whichever of the status words count as documented. -/
theorem documented_extract_iff (spoken : String → Bool) (text : String) :
    Documented spoken text (extract text) ↔
      ∀ sentence ∈ sentences text, Regular spoken sentence :=
  ⟨regular_of_documented, documented_of_regular⟩

end Texts

section Samples

attribute [local instance] plainStd

def inTable (word : String) : Bool :=
  toAsciiLowercase word ∈ ["healthy", "degraded", "down", "failing"]

/-- A group report with two colons is no documented form, but a fact is read from it. -/
theorem two_colons :
    extract "north:: healthy." = [.healthList "north" [.healthy]] ∧
      ¬ Documented inTable "north:: healthy." (extract "north:: healthy.") := by
  have htokens : normalize "north:: healthy".toList = ["north::", "healthy"] := by decide
  have hname := (isName_iff "north").mp (by decide)
  refine ⟨by decide, fun h => ?_⟩
  have hregular := regular_of_documented h "north:: healthy".toList (by decide)
    (.healthList "north" [.healthy])
  rw [htokens] at hregular
  have hlax : Says lax ["north::", "healthy"] (.healthList "north" [.healthy]) :=
    @Says.healthList lax "north" "north::" 2 ["healthy"] [.healthy] (by decide) one_le_two
      (by decide) rfl hname.1
  have htidy := (hregular hlax).mp (by simpa [Undated, names] using hname.2)
  exact htidy.1 "north::" rfl (by decide)

end Samples

end Facts

end OpenCodifier
