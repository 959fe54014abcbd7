import OpenCodifier.Lib.JsonParts
import OpenCodifier.Schema.OpenAiRoundTrip
set_option autoImplicit false

namespace OpenCodifier

open Json

namespace OpenAi

/-- What a property asks for, without its prose. -/
inductive Decision where
  | boolean
  | choice (ids : List String)
  | score (labels : List String)
  deriving DecidableEq

def Decision.of : DecisionQuestion → Decision
  | .boolean _ => .boolean
  | .choice q => .choice (q.candidates.map fun c => c.id.text)
  | .score q => .score (q.levels.map ScoreLevel.label)

/-- Branches that are taken for one decision state one. -/
theorem Decision.of_eq {q q' : DecisionQuestion} (h : sameDecision q q' = true) :
    Decision.of q = Decision.of q' := by
  have hids (c : ChoiceQuestion) : (c.candidates.map fun c => c.id.text) =
      (c.candidates.map Candidate.id).map Ident.text := by
    simp
  cases q with
  | boolean q =>
    cases q' with
    | boolean q' => rfl
    | _ => cases h
  | choice q =>
    cases q' with
    | choice q' =>
      simp only [sameDecision, Bool.and_eq_true, decide_eq_true_eq] at h
      rw [Decision.of, Decision.of, hids, hids, h.2]
    | _ => cases h
  | score q =>
    cases q' with
    | score q' =>
      simp only [sameDecision, Bool.and_eq_true, decide_eq_true_eq] at h
      rw [Decision.of, Decision.of, h.2]
    | _ => cases h

section Subset

def members : Json → List (String × Json)
  | .obj fields => fields
  | _ => []

def Has (fields : List (String × Json)) (key : String) : Prop := (lookup fields key).isSome = true

instance (fields : List (String × Json)) (key : String) : Decidable (Has fields key) :=
  inferInstanceAs (Decidable (_ = _))

def kindOf (fields : List (String × Json)) : Option String := (lookup fields "type").bind asStr

def branches (property : Json) : List (List (String × Json)) :=
  match lookup (members property) "anyOf" with
  | some (.arr items) => items.map members
  | _ => []

/-- The objects a property is made of: itself and the branches of its union. -/
def pieces (property : Json) : List (List (String × Json)) := members property :: branches property

def bound (fields : List (String × Json)) (key : String) : Option ℚ :=
  (lookup fields key).bind asFloat

/-- The integers between the bounds that are written. -/
def Admits (fields : List (String × Json)) (value : Int) : Prop :=
  (∀ low ∈ bound fields "minimum", low ≤ value) ∧ ∀ high ∈ bound fields "maximum", value ≤ high

variable [SerdeTexts] [JsonText]

def stated (fields : List (String × Json)) : Option Decision :=
  if kindOf fields = some "boolean" then some .boolean
  else if kindOf fields = some "string" then
    ((lookup fields "enum").bind (asList asStr)).map Decision.choice
  else if kindOf fields = some "integer" then (levelLabels fields).toOption.map Decision.score
  else none

/-- The admitted integers are the positions of the level labels. -/
def Ranged (fields : List (String × Json)) : Prop :=
  ∃ labels, levelLabels fields = .ok labels ∧
    ∀ value : Int, Admits fields value ↔ 0 ≤ value ∧ value < labels.length

/-- A property within the documented subset. -/
structure StrictProperty (property : Json) : Prop where
  plain : ∀ piece ∈ pieces property, ¬ Has piece "oneOf" ∧ ¬ Has piece "const"
  flat : ∀ branch ∈ branches property, ¬ Has branch "anyOf"
  reduces : Has (members property) "anyOf" → ∃ decision,
    (∃ branch ∈ branches property, isNullType branch = false) ∧
      ∀ branch ∈ branches property, isNullType branch = false → stated branch = some decision
  ranged : ∀ piece ∈ pieces property, kindOf piece = some "integer" → Ranged piece

def propertiesOf (schema : Json) : List (String × Json) :=
  ((schema.get "properties").map members).getD []

def requiredOf (schema : Json) : List Json :=
  match schema.get "required" with
  | some (.arr items) => items
  | _ => []

/-- A schema within the documented subset: every property is required, and nothing else. -/
structure Strict (schema : Value) : Prop where
  named : ∀ j, j ∈ requiredOf schema.1 ↔ ∃ e ∈ propertiesOf schema.1, j = .str e.1
  strict : ∀ e ∈ propertiesOf schema.1, StrictProperty e.2

/-- What no check of the adapter looks at in a property: a union under a branch, the keywords of a
null branch, the bounds of an integer. -/
inductive Unseen (property : Json) : Prop where
  | union (branch : List (String × Json)) (h : branch ∈ branches property)
    (hany : Has branch "anyOf")
  | null (branch : List (String × Json)) (h : branch ∈ branches property)
    (hnull : isNullType branch = true) (hkey : Has branch "oneOf" ∨ Has branch "const")
  | range (piece : List (String × Json)) (h : piece ∈ pieces property)
    (hkind : kindOf piece = some "integer") (hrange : ¬ Ranged piece)

/-- A property the list of the required ones does not name, or one with something unseen. -/
def Overlooked (schema : Value) : Prop :=
  ∃ e ∈ propertiesOf schema.1, .str e.1 ∉ requiredOf schema.1 ∨ Unseen e.2

end Subset

section Statements

theorem describe_ids [RustStd] {name : String} {candidates described : List Candidate}
    {descriptions : List String} (h : describe name candidates descriptions = .ok described) :
    (described.map fun c => c.id.text) = candidates.map fun c => c.id.text := by
  induction candidates generalizing descriptions described with
  | nil =>
    cases h
    rfl
  | cons c candidates ih =>
    cases descriptions with
    | nil =>
      cases h
      rfl
    | cons d descriptions =>
      obtain ⟨c', hc, h⟩ := Result.bind_ok.mp h
      obtain ⟨rest, hrest, h⟩ := Result.bind_ok.mp h
      cases h
      obtain ⟨id, hid, hc⟩ := Result.bind_ok.mp (orInvalid_ok hc)
      cases hc
      rw [List.map_cons, List.map_cons, ih hrest, Ident.new_ok hid]

theorem enumCandidate_ok {name : String} {e : Json × Nat} {c : Candidate}
    (h : enumCandidate name e = .ok c) : Json.str c.id.text = e.1 := by
  obtain ⟨id, hid, h⟩ := Result.bind_ok.mp h
  obtain ⟨ident, hident, h⟩ := Result.bind_ok.mp h
  cases h
  cases he : e.1 with
  | str text =>
    rw [he] at hid
    cases hid
    rw [Ident.new_ok (ofCoreSchema_ok hident)]
  | _ =>
    rw [he] at hid
    cases hid

variable [RustStd] [SerdeTexts] [JsonText]

theorem choiceFromEnum_stated {name : String} {fields : List (String × Json)} {ids : List Json}
    {limits : Limits} {question : DecisionQuestion}
    (h : choiceFromEnum name fields ids limits = .ok question) :
    (asList asStr (.arr ids)).map Decision.choice = some (.of question) := by
  unfold choiceFromEnum at h
  split at h
  · cases h
  · obtain ⟨-, h⟩ := Result.bind_unit_ok.mp h
    obtain ⟨candidates, hcandidates, h⟩ := Result.bind_ok.mp h
    obtain ⟨descriptions, -, h⟩ := Result.bind_ok.mp h
    obtain ⟨described, hdescribed, h⟩ := Result.bind_ok.mp h
    obtain ⟨q, hq, rfl⟩ := Result.map_ok.mp h
    have hids : candidates.map (fun c => Json.str c.id.text) = ids := by
      rw [Result.mapM_map_eq hcandidates fun _ _ => enumCandidate_ok, List.zipIdx_map_fst]
    have hread : asList asStr (.arr ids) = some (candidates.map fun c => c.id.text) := by
      rw [← hids, asList, List.mapM_map]
      exact Result.mapM_some_eq_map fun _ _ => rfl
    rw [hread, Option.map_some, Decision.of, (ChoiceQuestion.new_ok (ofCoreSchema_ok hq)).2.2,
      describe_ids hdescribed]

theorem scoreFromInteger_stated {name : String} {fields : List (String × Json)}
    {question : DecisionQuestion} (h : scoreFromInteger name fields = .ok question) :
    (levelLabels fields).toOption.map Decision.score = some (.of question) := by
  obtain ⟨labels, hlabels, h⟩ := Result.bind_ok.mp h
  obtain ⟨levels, hlevels, h⟩ := Result.bind_ok.mp h
  obtain ⟨q, hq, rfl⟩ := Result.map_ok.mp h
  have htexts : levels.map ScoreLevel.label = labels := by
    rw [Result.mapM_map_eq hlevels (g := ScoreLevel.label) (k := id)
      fun _ _ hl => ScoreLevel.new_ok (orInvalid_ok hl), List.map_id]
  rw [hlabels, Decision.of, (ScoreQuestion.new_ok (ofCoreSchema_ok hq)).2, htexts]
  rfl

theorem plainProperty_stated {name : String} {fields : List (String × Json)} {limits : Limits}
    {question : DecisionQuestion} (h : plainProperty name fields limits = .ok question) :
    stated fields = some (.of question) := by
  obtain ⟨kind, hkind, h⟩ := Result.bind_ok.mp h
  have hkind : kindOf fields = some kind := by
    rw [kindOf, requiredString_ok_iff.mp hkind]
    rfl
  rw [stated, hkind]
  by_cases hstring : kind = "string"
  · subst hstring
    rw [if_pos rfl] at h
    rw [if_neg (by decide), if_pos rfl]
    split at h
    · cases h
    · rename_i ids hids
      rw [hids]
      exact choiceFromEnum_stated h
    · cases h
  · rw [if_neg hstring] at h
    by_cases hboolean : kind = "boolean"
    · rw [if_pos hboolean] at h
      obtain ⟨q, -, rfl⟩ := Result.map_ok.mp h
      rw [hboolean, if_pos rfl, Decision.of]
    · rw [if_neg hboolean] at h
      by_cases hinteger : kind = "integer"
      · subst hinteger
        rw [if_neg (by decide), if_neg (by decide), if_pos rfl]
        exact scoreFromInteger_stated h
      · rw [if_neg hinteger] at h
        split at h
        · cases h
        · cases h

end Statements

section Unions

theorem branches_eq {fields : List (String × Json)} {items : List Json}
    (h : lookup fields "anyOf" = some (.arr items)) :
    branches (.obj fields) = items.map members := by
  simp [branches, members, h]

theorem branches_plain {fields : List (String × Json)} (h : ¬ Has fields "anyOf") :
    branches (.obj fields) = [] := by
  rw [Has, Option.not_isSome_iff_eq_none] at h
  simp [branches, members, h]

variable [RustStd] [SerdeTexts] [JsonText] {name : String} {limits : Limits}

theorem anyOfField_eq (fields : List (String × Json)) :
    anyOfField name limits fields =
      (lookup fields "anyOf").map (anyOfBranches name limits) := by
  induction fields with
  | nil => rfl
  | cons e fields ih =>
    obtain ⟨key, value⟩ := e
    by_cases hkey : key = "anyOf"
    · simp [anyOfField, lookup, hkey]
    · rw [anyOfField, if_neg hkey, ih]
      simp [lookup, hkey]

/-- Every branch that is not null reads as the question kept, up to its prose. -/
theorem reduceAnyOf_ok {reduced : Option DecisionQuestion} {items : List Json}
    {question : DecisionQuestion} (h : reduceAnyOf name limits reduced items = .ok question) :
    (∀ kept ∈ reduced, kept = question) ∧
      (reduced = none → ∃ item ∈ items, isNullType (members item) = false) ∧
      ∀ item ∈ items, isNullType (members item) = false → ∃ read,
        propertyToQuestion name limits (.obj (members item)) = .ok read ∧
          Decision.of read = .of question := by
  induction items generalizing reduced with
  | nil =>
    cases reduced with
    | none => cases h
    | some kept =>
      cases h
      simp
  | cons item rest ih =>
    obtain ⟨fields, hfields, h⟩ := Result.bind_ok.mp h
    obtain rfl := asObject_ok hfields
    by_cases hnull : isNullType fields = true
    · rw [if_pos hnull] at h
      obtain ⟨hkept, hsome, hread⟩ := ih h
      refine ⟨hkept, fun hnone => ?_, List.forall_mem_cons.mpr ⟨fun hother => ?_, hread⟩⟩
      · obtain ⟨other, hmem, hother⟩ := hsome hnone
        exact ⟨other, List.mem_cons_of_mem _ hmem, hother⟩
      · rw [members, hnull] at hother
        cases hother
    · rw [if_neg hnull] at h
      have hfalse : isNullType fields = false := Bool.eq_false_iff.mpr hnull
      obtain ⟨read, hthis, h⟩ := Result.bind_ok.mp h
      cases reduced with
      | none =>
        obtain ⟨hkept, -, hread⟩ := ih h
        obtain rfl := hkept read rfl
        refine ⟨by simp, fun _ => ⟨_, List.mem_cons_self, hfalse⟩, List.forall_mem_cons.mpr ?_⟩
        exact ⟨fun _ => ⟨_, hthis, rfl⟩, hread⟩
      | some kept =>
        simp only at h
        split at h
        · rename_i hsame
          obtain ⟨hkept, -, hread⟩ := ih h
          obtain rfl := hkept kept rfl
          refine ⟨hkept, by simp, List.forall_mem_cons.mpr ?_⟩
          exact ⟨fun _ => ⟨_, hthis, Decision.of_eq hsame⟩, hread⟩
        · cases h

theorem propertyToQuestion_ok {fields : List (String × Json)} {question : DecisionQuestion}
    (h : propertyToQuestion name limits (.obj fields) = .ok question) :
    (¬ Has fields "oneOf" ∧ ¬ Has fields "const") ∧
      ((∃ items, lookup fields "anyOf" = some (.arr items) ∧
          reduceAnyOf name limits none items = .ok question) ∨
        ¬ Has fields "anyOf" ∧ plainProperty name fields limits = .ok question) := by
  rw [propertyToQuestion] at h
  split at h
  · cases h
  · rename_i hone
    split at h
    · cases h
    · rename_i hconst
      refine ⟨⟨hone, hconst⟩, ?_⟩
      rw [anyOfField_eq] at h
      cases hany : lookup fields "anyOf" with
      | none =>
        rw [hany] at h
        exact Or.inr ⟨by simp [Has, hany], h⟩
      | some value =>
        rw [hany] at h
        cases value with
        | arr items => exact Or.inl ⟨items, rfl, h⟩
        | _ => cases h

theorem branch_read {fields branch : List (String × Json)} {question : DecisionQuestion}
    (h : propertyToQuestion name limits (.obj fields) = .ok question)
    (hbranch : branch ∈ branches (.obj fields)) (hnull : isNullType branch = false) :
    ∃ read, propertyToQuestion name limits (.obj branch) = .ok read ∧
      Decision.of read = .of question := by
  obtain ⟨-, ⟨items, hany, hreduce⟩ | ⟨hplain, -⟩⟩ := propertyToQuestion_ok h
  · rw [branches_eq hany] at hbranch
    obtain ⟨item, hitem, rfl⟩ := List.mem_map.mp hbranch
    exact (reduceAnyOf_ok hreduce).2.2 item hitem hnull
  · rw [branches_plain hplain] at hbranch
    cases hbranch

/-- An accepted property is within the subset exactly when nothing in it goes unseen. -/
theorem strictProperty_iff {property : Json} {question : DecisionQuestion}
    (h : propertyToQuestion name limits property = .ok question) :
    StrictProperty property ↔ ¬ Unseen property := by
  constructor
  · intro hstrict hunseen
    cases hunseen with
    | union branch hbranch hany => exact hstrict.flat branch hbranch hany
    | null branch hbranch hnull hkey =>
      have hplain := hstrict.plain branch (List.mem_cons_of_mem _ hbranch)
      exact hkey.elim hplain.1 hplain.2
    | range piece hpiece hkind hrange => exact hrange (hstrict.ranged piece hpiece hkind)
  · intro hseen
    obtain ⟨fields, rfl⟩ : ∃ fields, property = .obj fields := by
      cases property with
      | obj fields => exact ⟨fields, rfl⟩
      | _ => cases h
    obtain ⟨hkeys, hcases⟩ := propertyToQuestion_ok h
    have hflat : ∀ branch ∈ branches (.obj fields), ¬ Has branch "anyOf" :=
      fun branch hbranch hany => hseen (.union branch hbranch hany)
    constructor
    · intro piece hpiece
      rcases List.mem_cons.mp hpiece with rfl | hbranch
      · exact hkeys
      · cases hnull : isNullType piece with
        | true =>
          exact not_or.mp fun hkey => hseen (.null piece hbranch hnull hkey)
        | false =>
          obtain ⟨read, hread, -⟩ := branch_read h hbranch hnull
          exact (propertyToQuestion_ok hread).1
    · exact hflat
    · intro hany
      obtain ⟨items, hitems, hreduce⟩ := hcases.resolve_right fun hplain => hplain.1 hany
      obtain ⟨item, hitem, hnull⟩ := (reduceAnyOf_ok hreduce).2.1 rfl
      refine ⟨.of question, ⟨members item, ?_, hnull⟩, fun branch hbranch hnull => ?_⟩
      · rw [branches_eq hitems]
        exact List.mem_map_of_mem hitem
      · obtain ⟨read, hread, hsame⟩ := branch_read h hbranch hnull
        obtain ⟨-, ⟨inner, hinner, -⟩ | ⟨-, hplain⟩⟩ := propertyToQuestion_ok hread
        · exact absurd (by simp [Has, hinner]) (hflat branch hbranch)
        · rw [plainProperty_stated hplain, hsame]
    · intro piece hpiece hkind
      by_contra hrange
      exact hseen (.range piece hpiece hkind hrange)

end Unions

section Roots

theorem named_iff {properties : List (String × Json)} {required : List Json}
    (hnodup : (properties.map Prod.fst).Nodup) (hlength : required.length = properties.length) :
    (∀ j, j ∈ required ↔ ∃ e ∈ properties, j = .str e.1) ↔
      ∀ e ∈ properties, .str e.1 ∈ required := by
  constructor
  · exact fun h e he => (h _).mpr ⟨e, he, rfl⟩
  · intro h
    have hnames : (properties.map fun e => Json.str e.1).Nodup := by
      have hmap := hnodup.map (f := Json.str) fun a b hab => by cases hab; rfl
      rwa [List.map_map] at hmap
    have hsub : (properties.map fun e => Json.str e.1).Subperm required := by
      refine List.subperm_of_subset hnames fun j hj => ?_
      obtain ⟨e, he, rfl⟩ := List.mem_map.mp hj
      exact h e he
    have hperm := hsub.perm_of_length_le (by simp [hlength])
    intro j
    rw [← hperm.mem_iff, List.mem_map]
    simp only [eq_comm]

variable [RustStd] [SerdeTexts] [JsonText]

theorem decodeSchema_ok {schema : Json} {limits : Limits} {questions : List DecisionQuestion}
    (h : decodeSchema schema limits = .ok questions) :
    schema.get "properties" = some (.obj (propertiesOf schema)) ∧
      (requiredOf schema).length = (propertiesOf schema).length ∧
      (propertiesOf schema).mapM (fun e => propertyToQuestion e.1 limits e.2) = .ok questions := by
  obtain ⟨root, hroot, h⟩ := Result.bind_ok.mp h
  obtain rfl := asObject_ok hroot
  change decodeSchemaMap root limits = .ok questions at h
  unfold decodeSchemaMap at h
  split at h
  · cases h
  · split at h
    · cases h
    · obtain ⟨properties, hproperties, h⟩ := Result.bind_ok.mp h
      obtain ⟨required, hrequired, h⟩ := Result.bind_ok.mp h
      have hlist : propertiesOf (.obj root) = properties := by
        simp [propertiesOf, Json.get, requiredObject_ok hproperties, members]
      have hnames : requiredOf (.obj root) = required := by
        unfold requiredArray at hrequired
        split at hrequired
        · rename_i items hitems
          cases hrequired
          simp [requiredOf, Json.get, hitems]
        · cases hrequired
        · cases hrequired
      split at h
      · cases h
      · rename_i hlength
        obtain ⟨read, hread, h⟩ := Result.bind_ok.mp h
        split at h
        · cases h
        · obtain ⟨-, h⟩ := Result.bind_unit_ok.mp h
          cases h
          rw [hlist, hnames]
          exact ⟨requiredObject_ok hproperties, not_not.mp hlength, hread⟩

/-- An accepted schema is within the documented subset exactly when it has no property that is
not required, and no property with something unseen. -/
theorem decodeSchema_strict_iff {schema : Value} {limits : Limits}
    {questions : List DecisionQuestion} (h : decodeSchema schema.1 limits = .ok questions) :
    Strict schema ↔ ¬ Overlooked schema := by
  obtain ⟨hproperties, hlength, hread⟩ := decodeSchema_ok h
  have hnodup : ((propertiesOf schema.1).map Prod.fst).Nodup := by
    have hsorted := (canonical_get schema.2 hproperties).1
    rw [List.Nodup, List.pairwise_map]
    exact hsorted.imp fun hlt => hlt.ne
  have hproperty (e : String × Json) (he : e ∈ propertiesOf schema.1) :
      StrictProperty e.2 ↔ ¬ Unseen e.2 := by
    obtain ⟨question, -, hquestion⟩ := Result.mapM_ok_mem hread he
    exact strictProperty_iff hquestion
  constructor
  · rintro ⟨hnamed, hstrict⟩ ⟨e, he, hunnamed | hunseen⟩
    · exact hunnamed ((named_iff hnodup hlength).mp hnamed e he)
    · exact (hproperty e he).mp (hstrict e he) hunseen
  · intro hseen
    have hnone (e : String × Json) (he : e ∈ propertiesOf schema.1) :=
      not_or.mp fun hoverlooked => hseen ⟨e, he, hoverlooked⟩
    refine ⟨(named_iff hnodup hlength).mpr fun e he => not_not.mp (hnone e he).1, ?_⟩
    exact fun e he => (hproperty e he).mpr (hnone e he).2

end Roots

section Samples

attribute [local instance] plainStd plainTexts listsText

def rootWith (property : Value) (required : List String) : Value :=
  .struct [("properties", some (.struct [("urgent", some property)])),
    ("required", some (.array (required.map .str)))]

def union (branches : List Value) : Value := .struct [("anyOf", some (.array branches))]

def boolean : Value := .struct [("type", some (.str "boolean"))]

def severity (maximum : Int) : Value :=
  .struct [("type", some (.str "integer")), ("minimum", some (.int 0)),
    ("maximum", some (.int maximum)),
    ("description", some (.str "opencodifier:levels=[\"low\",\"high\"]"))]

/-- Another name is required, a union stands under a branch, a null branch has a constant, and two
labels stand for a hundred integers. -/
def overlooked : List Value :=
  [rootWith boolean ["spam"], rootWith (union [union [boolean]]) ["urgent"],
    rootWith (union [boolean, .struct [("type", some (.str "null")),
      ("const", some (.bool true))]]) ["urgent"], rootWith (severity 99) ["urgent"]]

theorem lookup_members (j : Json) (key : String) : lookup (members j) key = j.get key := by
  cases j <;> rfl

theorem levelLabels_severity (maximum : Int) :
    levelLabels (members (severity maximum).1) = .ok ["low", "high"] := by
  have hdescription : lookup (members (severity maximum).1) "description" =
      some (.str "opencodifier:levels=[\"low\",\"high\"]") := by
    rw [lookup_members, severity, Value.get_struct (by simp)]
    rfl
  have hpayload : stripMarker levelsMarker "opencodifier:levels=[\"low\",\"high\"]" =
      some "[\"low\",\"high\"]" := by decide +kernel
  have hread : readStrings "[\"low\",\"high\"]" = .ok ["low", "high"] :=
    Result.toOption_eq_some.mp (by decide +kernel)
  rw [levelLabels, optionalString_eq hdescription]
  simp [bind, Except.bind, hpayload, hread, pure, Except.pure]

theorem admits_severity (maximum value : Int) :
    Admits (members (severity maximum).1) value ↔ 0 ≤ value ∧ value ≤ maximum := by
  have hlow : bound (members (severity maximum).1) "minimum" = some 0 := by
    rw [bound, lookup_members, severity, Value.get_struct (by simp)]
    rfl
  have hhigh : bound (members (severity maximum).1) "maximum" = some (maximum : ℚ) := by
    rw [bound, lookup_members, severity, Value.get_struct (by simp)]
    rfl
  simp [Admits, hlow, hhigh]

theorem ranged_severity_iff (maximum : Int) :
    Ranged (members (severity maximum).1) ↔ maximum = 1 := by
  constructor
  · rintro ⟨labels, hlabels, hrange⟩
    rw [levelLabels_severity] at hlabels
    cases hlabels
    simp only [admits_severity, List.length_cons, List.length_nil] at hrange
    have hone := (hrange 1).mpr (by omega)
    by_contra hne
    have htwo := (hrange 2).mp (by omega)
    omega
  · rintro rfl
    refine ⟨_, levelLabels_severity 1, fun value => ?_⟩
    rw [admits_severity]
    simp only [List.length_cons, List.length_nil]
    omega

theorem propertiesOf_rootWith (property : Value) (required : List String) :
    propertiesOf (rootWith property required).1 = [("urgent", property.1)] := by
  rw [propertiesOf, rootWith, Value.get_struct (by simp)]
  rfl

theorem requiredOf_rootWith (property : Value) (required : List String) :
    requiredOf (rootWith property required).1 = required.map .str := by
  rw [requiredOf, rootWith, Value.get_struct (by simp)]
  simp [Value.array, Value.str]

theorem branches_union (items : List Value) :
    branches (union items).1 = items.map fun v => members v.1 := by
  rw [branches, lookup_members, union, Value.get_struct (by simp)]
  simp [Value.array]

/-- Every one of them is accepted, and none is within the subset. -/
theorem decodeSchema_overlooks : overlooked ≠ [] ∧ ∀ schema ∈ overlooked,
    (∃ questions, decodeSchema schema.1 {} = .ok questions) ∧ ¬ Strict schema := by
  have haccepted : ∀ schema ∈ overlooked,
      (decodeSchema schema.1 {}).toOption.isSome = true := by decide +kernel
  refine ⟨List.cons_ne_nil _ _, fun schema hschema => ?_⟩
  refine ⟨Result.ok_of_isSome (haccepted schema hschema), fun h => ?_⟩
  simp only [overlooked, List.mem_cons, List.not_mem_nil, or_false] at hschema
  rcases hschema with rfl | rfl | rfl | rfl
  · have hnamed := (h.named (.str "urgent")).mpr
    rw [propertiesOf_rootWith, requiredOf_rootWith] at hnamed
    simp at hnamed
  all_goals
    have hstrict := h.strict
    rw [propertiesOf_rootWith] at hstrict
    have hstrict := hstrict _ List.mem_cons_self
  · refine hstrict.flat (members (union [boolean]).1) ?_ (by decide +kernel)
    simp [branches_union]
  · refine (hstrict.plain (members (Value.struct [("type", some (.str "null")),
      ("const", some (.bool true))]).1) ?_).2 (by decide +kernel)
    simp [pieces, branches_union]
  · have hrange := hstrict.ranged _ List.mem_cons_self (by decide +kernel)
    exact absurd ((ranged_severity_iff 99).mp hrange) (by decide)

/-- A schema whose bounds are those of its labels. -/
theorem decodeSchema_strict_severity :
    (decodeSchema (rootWith (severity 1) ["urgent"]).1 {}).toOption.isSome = true ∧
      Strict (rootWith (severity 1) ["urgent"]) := by
  have haccepted :
      (decodeSchema (rootWith (severity 1) ["urgent"]).1 {}).toOption.isSome = true := by
    decide +kernel
  obtain ⟨questions, hquestions⟩ := Result.ok_of_isSome haccepted
  refine ⟨haccepted, (decodeSchema_strict_iff hquestions).mpr ?_⟩
  rintro ⟨e, he, hunnamed | hunseen⟩
  · rw [propertiesOf_rootWith, List.mem_singleton] at he
    rw [he, requiredOf_rootWith] at hunnamed
    simp at hunnamed
  · rw [propertiesOf_rootWith, List.mem_singleton] at he
    subst he
    have hnone : branches (severity 1).1 = [] := rfl
    cases hunseen with
    | union branch hbranch =>
      rw [hnone] at hbranch
      cases hbranch
    | null branch hbranch =>
      rw [hnone] at hbranch
      cases hbranch
    | range piece hpiece _ hrange =>
      rw [pieces, hnone, List.mem_singleton] at hpiece
      subst hpiece
      exact hrange ((ranged_severity_iff 1).mpr rfl)

end Samples

end OpenAi

end OpenCodifier
