import OpenCodifier.Schema.MacjevQuestions
import OpenCodifier.Engine.Sample
set_option autoImplicit false

namespace OpenCodifier

open Json

section States

open DecisionSftPrep

theorem length_le_intercalate {s t : String} {l : List String} (h : t ∈ l) :
    t.length ≤ (s.intercalate l).length := by
  induction l with
  | nil => cases h
  | cons a l ih =>
    by_cases hl : l = []
    · rw [hl, List.mem_singleton] at h
      rw [hl, String.intercalate_singleton, h]
    · rw [String.intercalate_cons_of_ne_nil hl, String.length_append, String.length_append]
      rcases List.mem_cons.mp h with rfl | h
      · omega
      · have := ih h
        omega

theorem setItem_map {α β : Type} (f : α → β) (d : List (String × α)) (key : String) (x : α) :
    setItem (d.map fun e => (e.1, f e.2)) key (f x) =
      (setItem d key x).map fun e => (e.1, f e.2) := by
  have hkeys : (d.map fun e => (e.1, f e.2)).map Prod.fst = d.map Prod.fst := by simp
  rw [setItem, setItem, hkeys]
  split
  · rw [List.map_map, List.map_map]
    refine List.map_congr_left fun e _ => ?_
    by_cases he : e.1 = key <;> simp [he]
  · simp

variable [PythonTexts]

theorem dumpsMembers_map (members d : List (String × Json)) :
    dumpsMembers members (d.map fun e => (e.1, dumps e.2)) =
      (members.foldl (fun d e => setItem d e.1 e.2) d).map fun e => (e.1, dumps e.2) := by
  induction members generalizing d with
  | nil => rfl
  | cons e members ih =>
    obtain ⟨key, j⟩ := e
    rw [dumpsMembers, setItem_map dumps, ih, List.foldl_cons]

theorem length_le_dumps {members : List (String × Json)} {key text : String}
    (h : lookup (dict members) key = some (.str text)) :
    text.length + 2 ≤ (dumps (.obj members)).length := by
  obtain ⟨e, he, hval⟩ := Option.map_eq_some_iff.mp h
  have hmem := List.mem_of_find?_eq_some he
  have hdict := dumpsMembers_map members []
  rw [List.map_nil] at hdict
  have hline : dumpsStr e.1 ++ ": " ++ dumps e.2 ∈
      (dumpsMembers members []).map fun e => dumpsStr e.1 ++ ": " ++ e.2 := by
    rw [hdict]
    exact List.mem_map.mpr ⟨_, List.mem_map_of_mem hmem, rfl⟩
  have hle := length_le_intercalate (s := ", ") hline
  have hescape : text.toList.length ≤ (text.toList.flatMap escape).length := by
    induction text.toList with
    | nil => simp
    | cons c l ih =>
      have hc : 1 ≤ (escape c).length := by
        unfold escape
        repeat' split
        all_goals simp
      rw [List.flatMap_cons, List.length_append, List.length_cons]
      omega
  have htext : text.length ≤ (dumps e.2).length := by
    rw [hval, dumps, dumpsStr, String.length_ofList]
    simp only [List.length_cons, List.length_append]
    rw [← String.length_toList]
    omega
  rw [dumps]
  simp only [String.length_append] at hle ⊢
  have hbrace : "\x7b".length = 1 := rfl
  have hbrace' : "\x7d".length = 1 := rfl
  omega

theorem length_pyStrip_lt_dumps {members : List (String × Json)} {text : String}
    (h : lookup (dict members) "text" = some (.str text)) :
    (Macjev.pyStrip text).length < (dumps (.obj members)).length := by
  have hle := length_le_dumps h
  have hstrip := Strip.strip_length_le Macjev.blank text.toList
  rw [Macjev.pyStrip, String.length_ofList]
  rw [String.length_toList] at hstrip
  omega

end States

section Records

open DecisionSftPrep

/-- The outcomes are the same, and so are the state, the rows and the skips. -/
def SameOutcome : MacjevOutcome → Outcome → Prop
  | .suiteRow, .suiteRow => True
  | .emptyState, .emptyState => True
  | .stateOverBudget chars, .stateOverBudget chars' => chars = chars'
  | .rendered render, .rendered state questions =>
    render.state = state ∧
      List.Forall₂ RowAlike render.rows (questions.filterMap fun e => e.2.toOption) ∧
      render.skips.map (fun e => (e.1, e.2.bucket)) =
        questions.filterMap fun e => (bucketOf e.2).map fun bucket => (e.1, bucket)
  | _, _ => False
where
  bucketOf : Except Bucket Row → Option Bucket
    | .error bucket => some bucket
    | .ok _ => none

def requestOf (record : List (String × Json)) : List (String × Json) :=
  objectOf (lookup record "request")

def questionsOf (record : List (String × Json)) : List (String × Json) :=
  objectOf (lookup (requestOf record) "questions")

def targetOf (record : List (String × Json)) (name : String) : Option Json :=
  lookup (objectOf (lookup record "target")) name

/-- A record of the documented class: its parts are objects where they are given, texts are strings,
and its state has no floats. -/
structure RecordInClass (record : List (String × Json)) : Prop where
  recordId : LabelInClass (lookup record "record_id")
  source : OptionalText (lookup record "source")
  request : DictLike (lookup record "request")
  questions : DictLike (lookup (requestOf record) "questions")
  targets : DictLike (lookup record "target")
  floats : ∀ state, lookup (requestOf record) "state" = some (.obj state) →
    Everywhere noFloat (.obj state)
  question : ∀ e ∈ questionsOf record, ∃ question, e.2 = .obj question ∧
    QuestionInClass question (targetOf record e.1)

/-- Whatever is read by name has one value, what is gone through has no name twice, and an integer that
is dumped or names the record is read as one. -/
structure RecordRead (record : List (String × Json)) : Prop where
  recordId : Reads record "record_id"
  word : LabelInWord (lookup record "record_id")
  source : Reads record "source"
  request : Reads record "request"
  target : Reads record "target"
  state : Reads (requestOf record) "state"
  questions : Reads (requestOf record) "questions"
  text : ∀ state, lookup (requestOf record) "state" = some (.obj state) → Reads state "text"
  dumped : ∀ state, lookup (requestOf record) "state" = some (.obj state) →
    Macjev.pyStrip (textOf (lookup state "text")) = "" → Everywhere dumpsAlike (.obj state)
  names : ((questionsOf record).map Prod.fst).Nodup
  targets : ∀ e ∈ questionsOf record, Reads (objectOf (lookup record "target")) e.1
  question : ∀ e ∈ questionsOf record, ∀ question, e.2 = .obj question →
    QuestionRead question (targetOf record e.1)

/-- The state is stripped alike. -/
def StatePlain (record : List (String × Json)) : Prop :=
  match lookup (requestOf record) "state" with
  | some (.str text) => StripsAlike text
  | some (.obj state) => StripsAlike (textOf (lookup state "text"))
  | _ => True

section State

variable [RustStd] [LongIntegers]

theorem stateText_ofJson (record : List (String × Json)) :
    Macjev.stateText (Jv.ofJson (.obj record)) =
      match lookup (requestOf record) "state" with
      | some (.str text) => Macjev.pyStrip text
      | some (.obj state) =>
        if Macjev.pyStrip (textOf (lookup state "text")) ≠ "" then
          Macjev.pyStrip (textOf (lookup state "text"))
        else if state = [] then "" else Macjev.pyDumps (Jv.ofJson (.obj state))
      | _ => "" := by
  rw [Macjev.stateText, get_ofJson_obj, get_ofJson, ← requestOf]
  cases lookup (requestOf record) "state" with
  | none => rfl
  | some j =>
    cases j with
    | obj state =>
      have hnil : Jv.ofFields state = [] ↔ state = [] := by
        rw [Jv.ofFields_eq]
        simp
      have hblank : Macjev.pyStrip "" = "" := rfl
      simp only [Option.map_some, Jv.ofJson, find_ofFields, hnil]
      cases lookup state "text" with
      | none => simp [textOf, hblank]
      | some value =>
        cases value with
        | str text => rfl
        | num value => cases value <;> simp [textOf, asStr, hblank, Jv.ofJson]
        | _ => simp [textOf, asStr, hblank, Jv.ofJson]
    | num value => cases value <;> rfl
    | _ => rfl

omit [RustStd] [LongIntegers] in
theorem strip_eq_of_length {text : String}
    (h : (Macjev.pyStrip text).length = (DecisionSftPrep.strip text).length) :
    Macjev.pyStrip text = DecisionSftPrep.strip text := by
  rw [Macjev.pyStrip, DecisionSftPrep.strip, String.length_ofList, String.length_ofList] at h
  rw [Macjev.pyStrip, DecisionSftPrep.strip, Strip.strip_eq_of_length isSpace_of_blank h]

variable [PythonTexts]

omit [RustStd] [LongIntegers] [PythonTexts] in
theorem str_of_textOf {j : Option Json} (h : textOf j ≠ "") : j = some (.str (textOf j)) := by
  cases j with
  | none => exact absurd rfl h
  | some value =>
    cases value with
    | str text => rfl
    | _ => exact absurd rfl h

omit [RustStd] [LongIntegers] in
theorem dictText_eq {state : List (String × Json)}
    (h : lookup (dict state) "text" = lookup state "text") :
    (match lookup (dict state) "text" with
      | some (.str text) =>
        if strip text ≠ "" then some (strip text)
        else if dict state = [] then some "" else some (dumps (.obj state))
      | _ => if dict state = [] then some "" else some (dumps (.obj state))) =
      some (if strip (textOf (lookup state "text")) ≠ "" then
          strip (textOf (lookup state "text"))
        else if state = [] then "" else dumps (.obj state)) := by
  have hblank : strip "" = "" := rfl
  rw [h]
  simp only [dict_eq_nil_iff]
  cases lookup state "text" with
  | none => by_cases hs : state = [] <;> simp [textOf, hblank, hs]
  | some value =>
    cases value with
    | str text =>
      by_cases ht : strip text = "" <;> by_cases hs : state = [] <;> simp [textOf, asStr, ht, hs]
    | _ => by_cases hs : state = [] <;> simp [textOf, asStr, hblank, hs]

/-- The state texts of both: the same exactly when the state is stripped alike, and different in
length when they differ. -/
theorem stateText_compare {record : List (String × Json)} (hclass : RecordInClass record)
    (hread : RecordRead record) : ∃ text, stateText (dict record) = some text ∧
      (Macjev.stateText (Jv.ofJson (.obj record)) = text ↔ StatePlain record) ∧
      ((Macjev.stateText (Jv.ofJson (.obj record))).length = text.length →
        Macjev.stateText (Jv.ofJson (.obj record)) = text) ∧
      (Macjev.stateText (Jv.ofJson (.obj record)) = "" → text = "") := by
  have hrequest : orDict (lookup (dict record) "request") = some (dict (requestOf record)) := by
    rw [show lookup (dict record) "request" = lookup record "request" from hread.request]
    exact orDict_of_dictLike hclass.request
  have hstate : lookup (dict (requestOf record)) "state" = lookup (requestOf record) "state" :=
    hread.state
  rw [stateText_ofJson]
  simp only [stateText, hrequest, bind, Option.bind_some, hstate, StatePlain]
  cases hvalue : lookup (requestOf record) "state" with
  | none => exact ⟨"", rfl, by simp⟩
  | some j =>
    cases j with
    | str text =>
      exact ⟨_, rfl, pyStrip_eq_iff text, strip_eq_of_length, pyStrip_eq_empty⟩
    | obj state =>
      have htext : lookup (dict state) "text" = lookup state "text" := hread.text state hvalue
      refine ⟨_, dictText_eq htext, ?_⟩
      by_cases hrust : Macjev.pyStrip (textOf (lookup state "text")) = ""
      · have hdumps := dumps_eq (.obj state) (hclass.floats state hvalue)
          (hread.dumped state hvalue hrust)
        have halike : StripsAlike (textOf (lookup state "text")) := by
          rw [← pyStrip_eq_iff, hrust, pyStrip_eq_empty hrust]
        simp [hrust, pyStrip_eq_empty hrust, halike, hdumps]
      · by_cases hpython : strip (textOf (lookup state "text")) = ""
        · have hstr := str_of_textOf fun h => hrust (by rw [h]; rfl)
          have hlonger := length_pyStrip_lt_dumps (htext.trans hstr)
          have hsome : state ≠ [] := by
            rintro rfl
            cases hstr
          have hdiffer : ¬ StripsAlike (textOf (lookup state "text")) := by
            rw [← pyStrip_eq_iff, hpython]
            exact hrust
          simp only [hrust, hpython, hsome, ne_eq, not_false_eq_true, not_true_eq_false, if_true,
            if_false, hdiffer, iff_false, false_imp_iff, and_true]
          exact ⟨fun h => by rw [h] at hlonger; omega, fun h => by omega⟩
        · simp only [hrust, hpython, ne_eq, not_false_eq_true, if_true]
          exact ⟨pyStrip_eq_iff _, strip_eq_of_length, False.elim⟩
    | _ => exact ⟨"", rfl, by simp⟩

end State

section Rows

theorem mem_skips_rendered {rendered : List (String × Except MacjevSkip MacjevRow)}
    {e : String × Bucket}
    (h : e ∈ (rendered.filterMap fun e => (Macjev.skipOf e.2).map fun skip => (e.1, skip)).map
      fun e => (e.1, e.2.bucket)) : e.1 ∈ rendered.map Prod.fst := by
  obtain ⟨skipped, hskipped, rfl⟩ := List.mem_map.mp h
  obtain ⟨entry, hentry, hsome⟩ := List.mem_filterMap.mp hskipped
  obtain ⟨skip, -, rfl⟩ := Option.map_eq_some_iff.mp hsome
  exact List.mem_map_of_mem hentry

theorem mem_skips_prepared {prepared : List (String × Except Bucket Row)} {e : String × Bucket}
    (h : e ∈ prepared.filterMap fun e =>
      (SameOutcome.bucketOf e.2).map fun bucket => (e.1, bucket)) :
    e.1 ∈ prepared.map Prod.fst := by
  obtain ⟨entry, hentry, hsome⟩ := List.mem_filterMap.mp h
  obtain ⟨bucket, -, rfl⟩ := Option.map_eq_some_iff.mp hsome
  exact List.mem_map_of_mem hentry

/-- Rows and skips of questions of one list of names agree exactly when the questions do. -/
theorem questions_alike_iff {rendered : List (String × Except MacjevSkip MacjevRow)}
    {prepared : List (String × Except Bucket Row)}
    (hnames : rendered.map Prod.fst = prepared.map Prod.fst)
    (hdistinct : (prepared.map Prod.fst).Nodup) :
    (List.Forall₂ RowAlike (rendered.filterMap fun e => e.2.toOption)
        (prepared.filterMap fun e => e.2.toOption) ∧
      (rendered.filterMap fun e => (Macjev.skipOf e.2).map fun skip => (e.1, skip)).map
          (fun e => (e.1, e.2.bucket)) =
        prepared.filterMap fun e => (SameOutcome.bucketOf e.2).map fun bucket => (e.1, bucket)) ↔
      List.Forall₂ (fun e e' => QuestionAlike e.2 e'.2) rendered prepared := by
  induction rendered generalizing prepared with
  | nil =>
    cases prepared with
    | nil => simp
    | cons e' prepared => simp at hnames
  | cons e rendered ih =>
    cases prepared with
    | nil => simp at hnames
    | cons e' prepared =>
      obtain ⟨name, question⟩ := e
      obtain ⟨name', question'⟩ := e'
      simp only [List.map_cons, List.cons.injEq] at hnames
      obtain ⟨rfl, hnames⟩ := hnames
      rw [List.map_cons, List.nodup_cons] at hdistinct
      have ih := ih hnames hdistinct.2
      rw [List.forall₂_cons, ← ih]
      cases question with
      | ok row =>
        cases question' with
        | ok row' =>
          simp [Except.toOption, Macjev.skipOf, SameOutcome.bucketOf, QuestionAlike, and_assoc]
        | error bucket =>
          -- the prep's skip is of a name that the renderer did not skip
          refine iff_of_false (fun h => hdistinct.1 ?_) fun h => h.1
          rw [← hnames]
          exact mem_skips_rendered (e := (name, bucket))
            (h.2.symm ▸ List.mem_cons_self : (name, bucket) ∈ _)
      | error skip =>
        cases question' with
        | ok row' =>
          refine iff_of_false (fun h => hdistinct.1 ?_) fun h => h.1
          exact mem_skips_prepared (e := (name, skip.bucket))
            (h.2 ▸ List.mem_cons_self : (name, skip.bucket) ∈ _)
        | error bucket =>
          simp only [Except.toOption, Macjev.skipOf, SameOutcome.bucketOf, QuestionAlike,
            List.filterMap_cons, Option.map_some, List.map_cons, List.cons.injEq, Prod.mk.injEq,
            true_and]
          exact and_left_comm

end Rows

section Runs

variable [RustStd] [LongIntegers] [PythonTexts]

omit [PythonTexts] in
theorem renderQuestions_ofJson (record : List (String × Json)) (state : String) :
    Macjev.renderQuestions (Jv.ofJson (.obj record)) state =
      (questionsOf record).map fun e => (e.1, Macjev.renderQuestion
        ((((lookup record "record_id").map Jv.ofJson).bind Jv.labelText).getD "") e.1 (Jv.ofJson e.2)
        ((targetOf record e.1).map Jv.ofJson) state) := by
  simp only [Macjev.renderQuestions, get_ofJson_obj, get_ofJson, questionsOf, requestOf, targetOf]
  generalize ((lookup record "record_id").map Jv.ofJson).bind Jv.labelText = recordId
  generalize objectOf (lookup record "request") = request
  cases lookup request "questions" with
  | none => rfl
  | some j =>
    cases j with
    | obj questions =>
      simp only [Option.map_some, Jv.ofJson, Jv.ofFields_eq, List.map_map, objectOf]
      rfl
    | num value => cases value <;> rfl
    | _ => rfl

/-- The record is not named by the integer 0, which is no name to the prep. -/
def Named (record : List (String × Json)) : Prop :=
  lookup record "record_id" ≠ some (.num (.int 0))

theorem recordId_eq_iff {record : List (String × Json)}
    (hclass : LabelInClass (lookup record "record_id"))
    (hword : LabelInWord (lookup record "record_id")) (hread : Reads record "record_id") :
    (((lookup record "record_id").map Jv.ofJson).bind Jv.labelText).getD "" =
      orText (lookup (dict record) "record_id") ↔ Named record := by
  rw [labelText_ofJson hclass hword, Named,
    show lookup (dict record) "record_id" = lookup record "record_id" from hread]
  cases hvalue : lookup record "record_id" with
  | none => simp [labelOf, orText]
  | some value =>
    rcases hclass value hvalue with rfl | ⟨s, rfl⟩ | ⟨n, rfl⟩
    · simp [labelOf, orText, truthy]
    · by_cases hs : s = "" <;> simp [labelOf, orText, truthy, DecisionSftPrep.str, hs]
    · by_cases hn : n = 0
      · subst hn
        exact iff_of_false (show ¬ "0" = "" by decide) fun h => h rfl
      · simp [labelOf, orText, truthy, DecisionSftPrep.str, hn]

def QuestionsPlain (record : List (String × Json)) : Prop :=
  ∀ e ∈ questionsOf record, ∀ question, e.2 = .obj question →
    QuestionPlain (Named record) question (targetOf record e.1)

theorem questionRows {record : List (String × Json)} (hclass : RecordInClass record)
    (hread : RecordRead record) (state : String) :
    ∃ rows, (questionsOf record).mapM (questionRow (dict record) state) = some rows ∧
      rows.map Prod.fst = (questionsOf record).map Prod.fst ∧
      (List.Forall₂ (fun e e' => QuestionAlike e.2 e'.2)
        ((questionsOf record).map fun e => (e.1, Macjev.renderQuestion
          ((((lookup record "record_id").map Jv.ofJson).bind Jv.labelText).getD "") e.1
          (Jv.ofJson e.2) ((targetOf record e.1).map Jv.ofJson) state)) rows ↔
        QuestionsPlain record) := by
  have hid := recordId_eq_iff hclass.recordId hread.word hread.recordId
  generalize (((lookup record "record_id").map Jv.ofJson).bind Jv.labelText).getD "" = recordId
    at hid ⊢
  have htarget : lookup (dict record) "target" = lookup record "target" := hread.target
  have hone : ∀ e ∈ questionsOf record, ∃ prep,
      questionRow (dict record) state e = some (e.1, prep) ∧
        (QuestionAlike (Macjev.renderQuestion recordId e.1 (Jv.ofJson e.2)
          ((targetOf record e.1).map Jv.ofJson) state) prep ↔
          ∀ question, e.2 = .obj question →
            QuestionPlain (Named record) question (targetOf record e.1)) := by
    intro e he
    obtain ⟨name, j⟩ := e
    obtain ⟨question, rfl, hquestion⟩ := hclass.question _ he
    have hentry : ((orDict (lookup (dict record) "target")).bind fun targets =>
        orDict (lookup targets name)) = some (dict (objectOf (targetOf record name))) := by
      rw [htarget, orDict_of_dictLike hclass.targets, Option.bind_some,
        show lookup (dict (objectOf (lookup record "target"))) name = targetOf record name
          from hread.targets _ he]
      exact orDict_of_dictLike hquestion.targetDict
    obtain ⟨prep, hrow, hiff⟩ := questionAlike_iff recordId name state hid hquestion
      (hread.question _ he question rfl) hentry
    refine ⟨prep, hrow, hiff.trans ⟨fun h question' heq => ?_, fun h => h question rfl⟩⟩
    cases heq
    exact h
  rw [QuestionsPlain]
  generalize questionsOf record = questions at hone
  induction questions with
  | nil => exact ⟨[], rfl, rfl, by simp⟩
  | cons e questions ih =>
    obtain ⟨prep, hrow, hiff⟩ := hone e List.mem_cons_self
    obtain ⟨rows, hrows, hnames, hall⟩ := ih fun e he => hone e (List.mem_cons_of_mem _ he)
    refine ⟨(e.1, prep) :: rows, ?_, ?_, ?_⟩
    · rw [List.mapM_cons, hrow, hrows]
      rfl
    · rw [List.map_cons, List.map_cons, hnames]
    · rw [List.map_cons, List.forall₂_cons, hall, hiff, List.forall_mem_cons]

/-- The record is a suite row, or its state is stripped alike and, when it is rendered, all of its
questions are plain. -/
def RecordPlain (record : List (String × Json)) (maxStateChars : Nat) : Prop :=
  "suite".toList.isPrefixOf (textOf (lookup record "source")).toList = false →
    StatePlain record ∧
      (Macjev.stateText (Jv.ofJson (.obj record)) ≠ "" →
        (Macjev.stateText (Jv.ofJson (.obj record))).length ≤ maxStateChars →
          QuestionsPlain record)

theorem sameOutcome_iff {record : List (String × Json)} (maxStateChars : Nat)
    (hclass : RecordInClass record) (hread : RecordRead record) :
    ∃ prep, prepRecord record maxStateChars = some prep ∧
      (SameOutcome (Macjev.renderObject record maxStateChars) prep ↔
        RecordPlain record maxStateChars) := by
  have hsource : orText (lookup (dict record) "source") = textOf (lookup record "source") := by
    rw [show lookup (dict record) "source" = lookup record "source" from hread.source]
    exact orText_of_optionalText hclass.source
  have hrust : (((Jv.ofJson (.obj record)).get "source").bind Jv.asStr).getD "" =
      textOf (lookup record "source") := by
    rw [get_ofJson_obj, asStr_ofJson]
    rfl
  have hrequest : orDict (lookup (dict record) "request") = some (dict (requestOf record)) := by
    rw [show lookup (dict record) "request" = lookup record "request" from hread.request]
    exact orDict_of_dictLike hclass.request
  have hquestions : orDict (lookup (dict (requestOf record)) "questions") =
      some (questionsOf record) := by
    rw [show lookup (dict (requestOf record)) "questions" = lookup (requestOf record) "questions"
      from hread.questions, orDict_of_dictLike hclass.questions]
    exact congrArg some (dict_of_nodup hread.names)
  obtain ⟨text, htext, hplain, hlength, hempty⟩ := stateText_compare hclass hread
  simp only [Macjev.renderObject, prepRecord, RecordPlain, hrust, hsource, htext, hrequest,
    hquestions, bind, Option.bind_some]
  by_cases hsuite : "suite".toList.isPrefixOf (textOf (lookup record "source")).toList = true
  · refine ⟨.suiteRow, by rw [if_pos hsuite], ?_⟩
    rw [if_pos hsuite]
    exact iff_of_true trivial fun h => by rw [hsuite] at h; cases h
  rw [if_neg hsuite, if_neg hsuite]
  simp only [Bool.not_eq_true] at hsuite
  simp only [hsuite, true_imp_iff, ← hplain]
  generalize Macjev.stateText (Jv.ofJson (.obj record)) = state at hlength hempty ⊢
  have hrendered := renderQuestions_ofJson record state
  by_cases hstate : state = ""
  · exact ⟨.emptyState, by rw [if_pos (hempty hstate)], by
      simp [hstate, hempty hstate, SameOutcome]⟩
  obtain ⟨rows, hrows, hnames, hiff⟩ := questionRows hclass hread text
  simp only [hstate, if_false, hrows, ne_eq, not_false_eq_true, true_imp_iff]
  by_cases htextEmpty : text = ""
  · refine ⟨.emptyState, by rw [if_pos htextEmpty], ?_⟩
    refine iff_of_false ?_ fun h => hstate (h.1.trans htextEmpty)
    split <;> exact not_false
  rw [if_neg htextEmpty]
  by_cases hover : maxStateChars < text.length
  · refine ⟨_, by rw [if_pos hover], ?_⟩
    by_cases hrustOver : maxStateChars < state.length
    · rw [if_pos hrustOver]
      refine ⟨fun h => ⟨hlength h, fun h' => absurd h' (by omega)⟩, fun h => ?_⟩
      exact congrArg String.length h.1
    · rw [if_neg hrustOver]
      refine iff_of_false not_false fun h => ?_
      rw [h.1] at hrustOver
      exact hrustOver hover
  refine ⟨_, by rw [if_neg hover]; rfl, ?_⟩
  by_cases hrustOver : maxStateChars < state.length
  · rw [if_pos hrustOver]
    refine iff_of_false not_false fun h => ?_
    rw [h.1] at hrustOver
    exact hover hrustOver
  rw [if_neg hrustOver, hrendered]
  have hdistinct : (rows.map Prod.fst).Nodup := hnames ▸ hread.names
  have hsame : ∀ questions : List (String × Except MacjevSkip MacjevRow),
      questions.map Prod.fst = (questionsOf record).map Prod.fst →
      (SameOutcome (.rendered ⟨state, questions.filterMap fun e => e.2.toOption,
          questions.filterMap fun e => (Macjev.skipOf e.2).map fun skip => (e.1, skip)⟩)
        (.rendered text rows) ↔
      state = text ∧ List.Forall₂ (fun e e' => QuestionAlike e.2 e'.2) questions rows) :=
    fun questions hquestionNames => and_congr_right fun _ =>
      questions_alike_iff (hquestionNames.trans hnames.symm) hdistinct
  rw [hsame _ (by simp [Function.comp_def])]
  refine and_congr_right fun h => ?_
  rw [h, hiff]
  exact ⟨fun h _ => h, fun h => h (by rw [← ‹state = text›]; omega)⟩

end Runs

section Verdicts

/-- One verdict for each slot, and the only yes is that of the slot of the label. -/
def VerdictsAt (row : MacjevRow) (slots : List Macjev.MacjevSlot) : Prop :=
  row.nOptions = slots.length ∧ ∃ i, slots[i]?.map Macjev.MacjevSlot.id = some row.label ∧
    (row.segments.filter MacjevSegment.supervised).map MacjevSegment.text =
      (List.range slots.length).map fun k => if k = i then " yes" else " no"

theorem verdicts_slotSegments (yesAt : Option Nat) (slots : List Macjev.MacjevSlot) (k : Nat) :
    (((slots.zipIdx k).flatMap (Macjev.slotSegments yesAt)).filter
      MacjevSegment.supervised).map MacjevSegment.text =
      (List.range' k slots.length).map fun k => if yesAt = some k then " yes" else " no" := by
  induction slots generalizing k with
  | nil => rfl
  | cons slot slots ih =>
    rw [List.zipIdx_cons, List.flatMap_cons, List.filter_append, List.map_append, ih,
      List.length_cons, List.range'_succ, List.map_cons]
    rfl

theorem verdictsAt_of_renderQuestion {recordId name state : String} {question : Jv}
    {target : Option Jv} {row : MacjevRow}
    (h : Macjev.renderQuestion recordId name question target state = .ok row) :
    row.question = name ∧
      ∃ slots, Macjev.optionSlots row.qtype (question.get "criteria") = some slots ∧
        VerdictsAt row slots := by
  unfold Macjev.renderQuestion at h
  split at h
  · cases h
  rename_i qtype _
  split at h
  · cases h
  rename_i slots hslots
  simp only at h
  split_ifs at h with hlabel hinstructions
  cases h
  refine ⟨rfl, slots, hslots, rfl, ?_⟩
  simp only [not_or, not_not] at hlabel
  obtain ⟨label, hsome, hany⟩ := (Option.any_eq_true _ _).mp hlabel.2
  rw [hsome]
  simp only [Option.getD_some]
  have hfound : (slots.findIdx? fun slot => slot.id = label).isSome := by
    rw [List.findIdx?_isSome]
    exact hany
  obtain ⟨i, hi⟩ := Option.isSome_iff_exists.mp hfound
  obtain ⟨hlt, hid, -⟩ := List.findIdx?_eq_some_iff_getElem.mp hi
  refine ⟨i, ?_, ?_⟩
  · rw [List.getElem?_eq_getElem hlt]
    simpa using hid
  · have hverdicts := verdicts_slotSegments (some i) slots 0
    rw [Macjev.renderSegments, hi, List.filter_cons_of_neg (by simp), List.filter_append,
      List.map_append, hverdicts, List.range_eq_range']
    simp [eq_comm]

/-- Every row is of a question of the record and judges each of its options once, with yes only for
the label. -/
def RowsJudged [RustStd] [LongIntegers] (record : List (String × Json)) (outcome : MacjevOutcome) : Prop :=
  ∀ render, outcome = .rendered render → ∀ row ∈ render.rows,
    ∃ question, (row.question, question) ∈ questionsOf record ∧
      ∃ slots, Macjev.optionSlots row.qtype ((Jv.ofJson question).get "criteria") = some slots ∧
        VerdictsAt row slots

theorem rowsJudged [RustStd] [LongIntegers] (record : List (String × Json)) (maxStateChars : Nat) :
    RowsJudged record (Macjev.renderObject record maxStateChars) := by
  intro render hrender row hrow
  have hquestions :=
    renderQuestions_ofJson record (Macjev.stateText (Jv.ofJson (.obj record)))
  simp only [Macjev.renderObject] at hrender
  split_ifs at hrender
  cases hrender
  rw [hquestions] at hrow
  obtain ⟨e, he, hok⟩ := List.mem_filterMap.mp hrow
  obtain ⟨e, hmem, rfl⟩ := List.mem_map.mp he
  generalize (((lookup record "record_id").map Jv.ofJson).bind Jv.labelText).getD "" = recordId
    at hok
  cases hrun : Macjev.renderQuestion recordId e.1 (Jv.ofJson e.2)
      ((targetOf record e.1).map Jv.ofJson) (Macjev.stateText (Jv.ofJson (.obj record))) with
  | error skip =>
    rw [hrun] at hok
    cases hok
  | ok made =>
    rw [hrun] at hok
    cases hok
    obtain ⟨hname, slots, hslots, hverdicts⟩ := verdictsAt_of_renderQuestion hrun
    exact ⟨e.2, by rw [hname]; exact hmem, slots, hslots, hverdicts⟩

end Verdicts

/-- Every row judges each option once, with yes only for the label. A record of the documented class,
read without ambiguity, has the same outcome in both languages exactly when it is plain. -/
theorem renderRecord_prepRecord_iff [RustStd] [LongIntegers] [PythonTexts]
    (record : List (String × Json)) (maxStateChars : Nat) :
    ∃ outcome, Macjev.renderRecord (.ok (.obj record)) maxStateChars = .ok outcome ∧
      RowsJudged record outcome ∧
      (RecordInClass record → RecordRead record → ∃ prep, prepRecord record maxStateChars = some prep ∧
        (SameOutcome outcome prep ↔ RecordPlain record maxStateChars)) :=
  ⟨_, rfl, rowsJudged record maxStateChars, sameOutcome_iff maxStateChars⟩

end Records

section Samples

open DecisionSftPrep

attribute [local instance] plainStd

abbrev plainPython : PythonTexts where
  repr _ := ""
  float _ := ""

attribute [local instance] plainPython

abbrev plainIntegers : LongIntegers where
  float _ := 0

attribute [local instance] plainIntegers

def posed (question target : List (String × Json)) : List (String × Json) :=
  [("record_id", .str "r1"), ("source", .str "corpus"),
    ("request", .obj [("state", .str " A door. "), ("questions", .obj [("q", .obj question)])]),
    ("target", .obj [("q", .obj target)])]

theorem inClass_posed {question target : List (String × Json)}
    (h : QuestionInClass question (some (.obj target))) : RecordInClass (posed question target) where
  recordId := by rintro _ ⟨⟩; exact Or.inr (Or.inl ⟨_, rfl⟩)
  source := by rintro _ ⟨⟩; exact Or.inr ⟨_, rfl⟩
  request := by rintro _ ⟨⟩ _; exact ⟨_, rfl⟩
  questions := by rintro _ ⟨⟩ _; exact ⟨_, rfl⟩
  targets := by rintro _ ⟨⟩ _; exact ⟨_, rfl⟩
  floats := by rintro _ ⟨⟩
  question := List.forall_mem_singleton.mpr ⟨question, rfl, h⟩

theorem read_posed {question target : List (String × Json)}
    (h : QuestionRead question (some (.obj target))) : RecordRead (posed question target) where
  recordId := rfl
  word := by rintro _ ⟨⟩
  source := rfl
  request := rfl
  target := rfl
  state := rfl
  questions := rfl
  text := by rintro _ ⟨⟩
  dumped := by rintro _ ⟨⟩
  names := List.nodup_singleton _
  targets := List.forall_mem_singleton.mpr rfl
  question := List.forall_mem_singleton.mpr fun _ heq => by cases heq; exact h

/-- Whether the door is open, answered by yes. -/
def door : List (String × Json) :=
  [("type", .str "noul"), ("instructions", .str "Is it open?"),
    ("criteria", .obj [("true", .str "It is open. ")])]

def opened : List (String × Json) := [("type", .str "noul"), ("label", .str "true")]

theorem inClass_door : QuestionInClass door (some (.obj opened)) where
  criteria := by
    rintro _ ⟨⟩
    exact ⟨by rintro _ ⟨⟩; exact Or.inr ⟨_, rfl⟩, by rintro _ ⟨⟩⟩
  instructions := by rintro _ ⟨⟩; exact Or.inr ⟨_, rfl⟩
  targetDict := by rintro _ ⟨⟩ _; exact ⟨_, rfl⟩
  label := by rintro _ ⟨⟩; exact Or.inr (Or.inl ⟨_, rfl⟩)

theorem read_door : QuestionRead door (some (.obj opened)) where
  type := rfl
  criteria := rfl
  options := by rintro _ ⟨⟩; exact ⟨rfl, rfl⟩
  instructions := rfl
  targetType := rfl
  label := rfl
  word := by rintro _ ⟨⟩

theorem plain_door : QuestionPlain (Named (posed door opened)) door (some (.obj opened)) := by
  rintro _ _ ⟨⟩ ⟨⟩ -
  refine ⟨trivial, fun _ _ => ⟨by rintro ⟨⟩, ?_, ?_⟩⟩
  · rw [← pyStrip_eq_iff]
    rfl
  · intro o ho
    rw [← pyStrip_eq_iff]
    rcases List.mem_pair.mp ho with rfl | rfl <;> rfl

theorem renderRecord_prepRecord_door :
    ∃ outcome prep, Macjev.renderRecord (.ok (.obj (posed door opened))) 100 = .ok outcome ∧
      prepRecord (posed door opened) 100 = some prep ∧ SameOutcome outcome prep := by
  obtain ⟨outcome, hrun, -, hsame⟩ := renderRecord_prepRecord_iff (posed door opened) 100
  obtain ⟨prep, hprep, hiff⟩ := hsame (inClass_posed inClass_door) (read_posed read_door)
  refine ⟨outcome, prep, hrun, hprep, hiff.mpr fun _ => ⟨?_, fun _ _ => ?_⟩⟩
  · show StripsAlike " A door. "
    rw [← pyStrip_eq_iff]
    rfl
  · exact List.forall_mem_singleton.mpr fun _ heq => by cases heq; exact plain_door

/-- How wide it is open, on a scale whose first level is chosen by its number. -/
def width : List (String × Json) :=
  [("type", .str "score"), ("instructions", .str "How wide?"),
    ("criteria", .arr [.str "ajar", .str "wide"])]

def ajar : List (String × Json) := [("type", .str "score"), ("label", .num (.int 0))]

theorem inClass_width : QuestionInClass width (some (.obj ajar)) where
  criteria := by
    rintro _ ⟨⟩ level hlevel
    rcases List.mem_pair.mp hlevel with rfl | rfl <;> exact ⟨_, rfl⟩
  instructions := by rintro _ ⟨⟩; exact Or.inr ⟨_, rfl⟩
  targetDict := by rintro _ ⟨⟩ _; exact ⟨_, rfl⟩
  label := by rintro _ ⟨⟩; exact Or.inr (Or.inr ⟨0, rfl⟩)

/-- The label 0 is a level to the renderer and no label to the prep. -/
theorem renderRecord_prepRecord_width :
    RecordInClass (posed width ajar) ∧
      ∃ outcome prep, Macjev.renderRecord (.ok (.obj (posed width ajar))) 100 = .ok outcome ∧
        prepRecord (posed width ajar) 100 = some prep ∧ ¬ SameOutcome outcome prep := by
  refine ⟨inClass_posed inClass_width, _, _, rfl, rfl, ?_⟩
  rintro ⟨-, h, -⟩
  exact absurd h.length_eq (by decide +kernel)

end Samples

end OpenCodifier
