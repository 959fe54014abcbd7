import OpenCodifier.Engine.LadderFit
import OpenCodifier.Http.Feedback
set_option autoImplicit false

namespace OpenCodifier

open Json

inductive CliError where
  | input (code message : String)
  deriving DecidableEq

namespace Cli

section Feedback

variable [RustStd]

def feedback (file : List EvidenceLine) (args : FeedbackRow) :
    List EvidenceLine × Except CliError Unit :=
  if ¬ (0 ≤ args.pTrue ∧ args.pTrue ≤ 1) then
    (file, .error (.input "schema.invalid_value"
      ("--p-true " ++ RustStd.display args.pTrue ++ " is not within [0, 1]")))
  else if args.source ∉ FeedbackRow.sources then
    (file, .error (.input "schema.invalid_value"
      ("--source `" ++ args.source ++ "` is not one of: human, host_model, outcome")))
  else (file ++ [args.line], .ok ())

end Feedback

section Ladder

variable [RustStd] [SerdeTexts]

def EvidenceRow.deserialize (j : Json) : Option BooleanEvidence := do
  let f ← j.fields? 2
  if !f.once ["p_true", "label"] then none
  let pTrue ← f.required 0 "p_true" asFloat
  let label ← f.required 1 "label" asBool
  some ⟨pTrue, label⟩

def readLine (path : String) (parsed : Except String Json) (number : Nat) :
    Except CliError BooleanEvidence :=
  let refuse (error : String) : Except CliError BooleanEvidence :=
    .error (.input "schema.invalid_json" (path ++ " line " ++ toString number ++ ": " ++ error))
  match parsed with
  | .error error => refuse error
  | .ok document =>
    match EvidenceRow.deserialize document with
    | none => refuse (SerdeTexts.refusal "EvidenceRow" document)
    | some row =>
      if ¬ (0 ≤ row.pTrue ∧ row.pTrue ≤ 1) then
        refuse ("p_true " ++ RustStd.display row.pTrue ++ " is not a probability")
      else .ok row

def readEvidence (path : String) : List EvidenceLine → Nat → Except CliError (List BooleanEvidence)
  | [], _ => .ok []
  | .blank :: lines, number => readEvidence path lines (number + 1)
  | .text parsed :: lines, number => do
    let row ← readLine path parsed number
    let rows ← readEvidence path lines (number + 1)
    .ok (row :: rows)

def fitBoolean (path id : String) (file : List EvidenceLine) (base : Option DecisionPolicy) :
    Except CliError (BooleanThresholdFit × Value) :=
  if id = "" ∨ id = "none" then
    .error (.input "cli.ladder_id_refused"
      "the profile id is empty or \"none\"; the id decorates every cache key (D25)")
  else do
    let evidence ← readEvidence path file 1
    match LadderFit.fitBooleanThreshold evidence with
    | none =>
      .error (.input "cli.ladder_empty_evidence" (path ++ ": no evidence rows to fit"))
    | some fit =>
      match LadderFit.emitBooleanProfile id fit (base.getD .defaults) with
      | .error error => .error (.input "cli.invalid_ladder" error.display)
      | .ok document => .ok (fit, document)

end Ladder

end Cli

open Json

section Appenders

variable [RustStd] [SerdeTexts]

/-- One call of either appender. -/
inductive Append where
  | http (body : Http.Body)
  | cli (args : FeedbackRow)

namespace Append

def run (file : List EvidenceLine) : Append → List EvidenceLine
  | http body => (Http.feedbackHandler (some file) body).1.getD file
  | cli args => (Cli.feedback file args).1

def row? : Append → Option FeedbackRow
  | http body => (Http.feedbackRow body).toOption
  | cli args => if args.Recorded then some args else none

theorem run_eq (file : List EvidenceLine) (call : Append) :
    call.run file = file ++ (call.row?.map FeedbackRow.line).toList := by
  cases call with
  | http body =>
    cases hrow : Http.feedbackRow body <;>
      simp [run, row?, Http.feedbackHandler, hrow, Except.toOption]
  | cli args =>
    by_cases hp : 0 ≤ args.pTrue ∧ args.pTrue ≤ 1
    · by_cases hs : args.source ∈ FeedbackRow.sources <;>
        simp [run, row?, Cli.feedback, hp, hs, FeedbackRow.Recorded]
    · simp [run, row?, Cli.feedback, hp, FeedbackRow.Recorded]

omit [RustStd] in
theorem recorded_of_row? {call : Append} {row : FeedbackRow} (h : call.row? = some row) :
    row.Recorded := by
  cases call with
  | http body => exact Http.feedbackRow_recorded (Result.toOption_eq_some.mp h)
  | cli args =>
    rw [row?] at h
    split at h
    · cases h
      assumption
    · cases h

end Append

def evidenceFile (calls : List Append) : List EvidenceLine :=
  calls.foldl (fun file call => call.run file) []

def recordedRows (calls : List Append) : List FeedbackRow := calls.filterMap Append.row?

theorem evidenceFile_eq (calls : List Append) :
    evidenceFile calls = (recordedRows calls).map FeedbackRow.line := by
  have hrun : ∀ (calls : List Append) (file : List EvidenceLine),
      calls.foldl (fun file call => call.run file) file =
        file ++ (recordedRows calls).map FeedbackRow.line := by
    intro calls
    induction calls with
    | nil => simp [recordedRows]
    | cons call calls ih =>
      intro file
      rw [List.foldl_cons, ih, Append.run_eq, List.append_assoc, recordedRows, recordedRows]
      cases hrow : call.row? <;> simp [hrow]
  exact hrun calls []

omit [RustStd] in
theorem recorded_of_mem {calls : List Append} {row : FeedbackRow}
    (h : row ∈ recordedRows calls) : row.Recorded := by
  obtain ⟨call, -, hrow⟩ := List.mem_filterMap.mp h
  exact Append.recorded_of_row? hrow

omit [RustStd] in
theorem recordedRows_cli {rows : List FeedbackRow} (h : ∀ row ∈ rows, row.Recorded) :
    recordedRows (rows.map .cli) = rows := by
  rw [recordedRows, List.filterMap_map]
  exact (List.filterMap_congr fun row hrow => if_pos (h row hrow)).trans List.filterMap_some

end Appenders

section Fits

variable [RustStd] [SerdeTexts]

def FeedbackRow.evidence (row : FeedbackRow) : BooleanEvidence := ⟨row.pTrue, row.label⟩

theorem readLine_line (path : String) {row : FeedbackRow} (h : row.Recorded) (number : Nat) :
    Cli.readLine path (.ok row.value.1) number = .ok row.evidence := by
  have hread : Cli.EvidenceRow.deserialize row.value.1 = some row.evidence := by
    simp [Cli.EvidenceRow.deserialize, FeedbackRow.value, FeedbackRow.evidence, Fields.required,
      asFloat, asBool, Value.float, Value.bool]
  have hp : 0 ≤ row.evidence.pTrue ∧ row.evidence.pTrue ≤ 1 := h.1
  simp only [Cli.readLine, hread, not_not.mpr hp, if_false]

theorem readEvidence_lines (path : String) {rows : List FeedbackRow}
    (h : ∀ row ∈ rows, row.Recorded) (number : Nat) :
    Cli.readEvidence path (rows.map FeedbackRow.line) number =
      .ok (rows.map FeedbackRow.evidence) := by
  induction rows generalizing number with
  | nil => rfl
  | cons row rows ih =>
    rw [List.map_cons, FeedbackRow.line, Cli.readEvidence,
      readLine_line path (h row List.mem_cons_self) number,
      ih (fun row hrow => h row (List.mem_cons_of_mem _ hrow)) (number + 1)]
    rfl

def humanRows (calls : List Append) : List FeedbackRow :=
  (recordedRows calls).filter fun row => row.source = "human"

/-- The other recorded rows come from the given sources only. -/
def OthersFrom (others : List String) (calls : List Append) : Prop :=
  ∀ row ∈ recordedRows calls, row.source = "human" ∨ row.source ∈ others

/-- Whatever is computed from an evidence file depends only on the human rows, which are these,
when the other rows come from the given sources. -/
def DependsOnHuman {α : Type} (others : List String) (human : List FeedbackRow)
    (result : List EvidenceLine → α) : Prop :=
  ∀ calls calls', OthersFrom others calls → OthersFrom others calls' →
    humanRows calls = human → humanRows calls' = human →
    result (evidenceFile calls) = result (evidenceFile calls')

def fittedThreshold (path id : String) (base : Option DecisionPolicy) (file : List EvidenceLine) :
    Except CliError ℚ :=
  (Cli.fitBoolean path id file base).map fun made => made.1.threshold

/-- Rows of other sources can be recorded. -/
def SelfConfirming (others : List String) : Prop :=
  "host_model" ∈ others ∨ "outcome" ∈ others

omit [RustStd] in
theorem humanRows_of_others {others : List String} (h : ¬ SelfConfirming others)
    {calls : List Append} (hothers : OthersFrom others calls) :
    humanRows calls = recordedRows calls := by
  refine List.filter_eq_self.mpr fun row hrow => ?_
  rcases hothers row hrow with hhuman | hother
  · simpa using hhuman
  · have hsource := (recorded_of_mem hrow).2
    simp only [FeedbackRow.sources, List.mem_cons, List.not_mem_nil, or_false] at hsource
    rcases hsource with hs | hs | hs
    · simpa using hs
    · exact absurd (Or.inl (hs ▸ hother)) h
    · exact absurd (Or.inr (hs ▸ hother)) h

omit [RustStd] in
theorem humanRows_append {human rows : List FeedbackRow}
    (hhuman : ∀ row ∈ human, row.Recorded ∧ row.source = "human")
    (hrows : ∀ row ∈ rows, row.Recorded ∧ row.source ≠ "human") :
    recordedRows ((human ++ rows).map .cli) = human ++ rows ∧
      humanRows ((human ++ rows).map .cli) = human := by
  have hrecorded : recordedRows ((human ++ rows).map .cli) = human ++ rows := by
    refine recordedRows_cli fun row hrow => ?_
    rcases List.mem_append.mp hrow with hrow | hrow
    · exact (hhuman row hrow).1
    · exact (hrows row hrow).1
  refine ⟨hrecorded, ?_⟩
  rw [humanRows, hrecorded, List.filter_append,
    List.filter_eq_self.mpr fun row hrow => by simpa using (hhuman row hrow).2,
    List.filter_eq_nil_iff.mpr fun row hrow => by simpa using (hrows row hrow).2,
    List.append_nil]

theorem fittedThreshold_recorded (path : String) {id : String} (hid : ¬ (id = "" ∨ id = "none"))
    (base : Option DecisionPolicy) (calls : List Append) {fit : BooleanThresholdFit}
    (h : LadderFit.fitBooleanThreshold ((recordedRows calls).map FeedbackRow.evidence) = some fit) :
    fittedThreshold path id base (evidenceFile calls) =
      match (base.getD .defaults).withBooleanThreshold fit.threshold with
      | .error error =>
        .error (.input "cli.invalid_ladder" (EngineError.invalidConfig error.display).display)
      | .ok _ => .ok fit.threshold := by
  rw [fittedThreshold, Cli.fitBoolean, if_neg hid, evidenceFile_eq,
    readEvidence_lines path (fun _ => recorded_of_mem) 1]
  simp only [bind, Except.bind, h, LadderFit.emitBooleanProfile, if_neg hid]
  cases (base.getD .defaults).withBooleanThreshold fit.threshold <;> rfl

def otherRow (source : String) (row : BooleanEvidence) : FeedbackRow :=
  ⟨row.pTrue, row.label, source, none⟩

omit [RustStd] [SerdeTexts] in
theorem evidence_otherRow (source : String) (rows : List BooleanEvidence) :
    (rows.map (otherRow source)).map FeedbackRow.evidence = rows := by
  simp [Function.comp_def, otherRow, FeedbackRow.evidence]

def withOthers (calls : List Append) (source : String) (rows : List BooleanEvidence) :
    List Append :=
  (humanRows calls ++ rows.map (otherRow source)).map .cli

section WithOthers

variable (calls : List Append) {source : String} {rows : List BooleanEvidence}

omit [RustStd] in
variable (rows) in
theorem withOthers_rows (hsource : source ∈ FeedbackRow.sources) (hother : source ≠ "human")
    (hrows : ∀ row ∈ rows, 0 ≤ row.pTrue ∧ row.pTrue ≤ 1) :
    recordedRows (withOthers calls source rows) = humanRows calls ++ rows.map (otherRow source) ∧
      humanRows (withOthers calls source rows) = humanRows calls := by
  refine humanRows_append (fun row hrow => ?_) fun row hrow => ?_
  · obtain ⟨hrow, hsource⟩ := List.mem_filter.mp hrow
    exact ⟨recorded_of_mem hrow, by simpa using hsource⟩
  · obtain ⟨read, hread, rfl⟩ := List.mem_map.mp hrow
    exact ⟨⟨hrows read hread, hsource⟩, hother⟩

omit [RustStd] in
theorem withOthers_from {others : List String}
    (h : recordedRows (withOthers calls source rows) =
      humanRows calls ++ rows.map (otherRow source)) (hmem : source ∈ others) :
    OthersFrom others (withOthers calls source rows) := by
  intro row hrow
  rw [h] at hrow
  rcases List.mem_append.mp hrow with hrow | hrow
  · left
    simpa using (List.mem_filter.mp hrow).2
  · right
    obtain ⟨read, -, rfl⟩ := List.mem_map.mp hrow
    exact hmem

theorem exists_moved (path : String) {id : String} (hid : ¬ (id = "" ∨ id = "none"))
    (base : Option DecisionPolicy) {others : List String} (hmem : source ∈ others)
    (hsource : source ∈ FeedbackRow.sources) (hother : source ≠ "human") :
    ¬ DependsOnHuman others (humanRows calls) (fittedThreshold path id base) := by
  intro hdepends
  let human := (humanRows calls).map FeedbackRow.evidence
  obtain ⟨low, hlow, hhalf⟩ := LadderFit.fit_lowered human
  obtain ⟨high, hhigh, hmoved⟩ := LadderFit.fit_raised human
  have hrange (label : Bool) : ∀ row ∈ LadderFit.pull label human.length,
      0 ≤ row.pTrue ∧ row.pTrue ≤ 1 := by
    intro row hrow
    rcases List.mem_append.mp hrow with hrow | hrow <;>
      rw [List.eq_of_mem_replicate hrow] <;> norm_num
  obtain ⟨hlowRows, hlowHuman⟩ := withOthers_rows calls _ hsource hother (hrange true)
  obtain ⟨hhighRows, hhighHuman⟩ := withOthers_rows calls _ hsource hother (hrange false)
  have hsame := hdepends _ _ (withOthers_from calls hlowRows hmem)
    (withOthers_from calls hhighRows hmem) hlowHuman hhighHuman
  have hfitLow := fittedThreshold_recorded path hid base (withOthers calls source _)
    (by rw [hlowRows, List.map_append, evidence_otherRow]; exact hlow)
  have hfitHigh := fittedThreshold_recorded path hid base (withOthers calls source _)
    (by rw [hhighRows, List.map_append, evidence_otherRow]; exact hhigh)
  have hpolicy : ∃ policy, (base.getD .defaults).withBooleanThreshold (1 / 2) = .ok policy :=
    ⟨_, dif_pos (by norm_num)⟩
  obtain ⟨policy, hpolicy⟩ := hpolicy
  rw [hfitLow, hfitHigh, hhalf, hpolicy] at hsame
  cases hupper : (base.getD .defaults).withBooleanThreshold high.threshold with
  | error error => simp [hupper] at hsame
  | ok policy =>
    rw [hupper] at hsame
    injection hsame with hsame
    exact hmoved hsame.symm

end WithOthers

/-- The fit depends only on the human rows exactly when no rows of other sources can be recorded,
unless the id of the profile is refused. -/
theorem fitBoolean_dependsOnHuman_iff (path id : String) (base : Option DecisionPolicy)
    (others : List String) (calls : List Append) :
    (DependsOnHuman others (humanRows calls) (fittedThreshold path id base) ↔
      ¬ SelfConfirming others ∨ id = "" ∨ id = "none") ∧
    (¬ SelfConfirming others ∨ id = "" ∨ id = "none" →
      DependsOnHuman others (humanRows calls) fun file => Cli.fitBoolean path id file base) := by
  have hfit : ¬ SelfConfirming others ∨ id = "" ∨ id = "none" →
      DependsOnHuman others (humanRows calls) fun file => Cli.fitBoolean path id file base := by
    rintro (hnone | hid) first second hfirst hsecond hhuman hhuman'
    · rw [humanRows_of_others hnone hfirst] at hhuman
      rw [humanRows_of_others hnone hsecond] at hhuman'
      simp only [evidenceFile_eq, hhuman, hhuman']
    · simp only [Cli.fitBoolean, if_pos hid]
  refine ⟨⟨fun hdepends => ?_, fun h first second hfirst hsecond hhuman hhuman' => ?_⟩, hfit⟩
  · by_contra hnot
    obtain ⟨hother, hid⟩ := not_or.mp hnot
    rcases not_not.mp hother with hmem | hmem
    · exact exists_moved calls path hid base hmem (by decide) (by decide) hdepends
    · exact exists_moved calls path hid base hmem (by decide) (by decide) hdepends
  · exact congrArg (Except.map fun made => made.1.threshold)
      (hfit h first second hfirst hsecond hhuman hhuman')

end Fits

section Samples

attribute [local instance] plainStd plainTexts

def judgedCalls : List Append :=
  [.cli ⟨F64.nearest (4 / 5), true, "human", none⟩,
    .cli ⟨F64.nearest (7 / 10), false, "human", none⟩]

def confirmedCalls : List Append :=
  judgedCalls ++ [.cli ⟨F64.nearest (3 / 5), true, "outcome", none⟩]

theorem fittedThreshold_confirmed :
    humanRows judgedCalls = humanRows confirmedCalls ∧
      fittedThreshold "evidence.jsonl" "door" none (evidenceFile judgedCalls) =
        .ok (F64.nearest (71 / 100)) ∧
      fittedThreshold "evidence.jsonl" "door" none (evidenceFile confirmedCalls) = .ok (1 / 2) := by
  decide +kernel

end Samples

end OpenCodifier
