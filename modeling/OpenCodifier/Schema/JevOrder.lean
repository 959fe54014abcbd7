import OpenCodifier.Schema.Jev
set_option autoImplicit false

namespace OpenCodifier

open Json

namespace Jev

def criteriaFields (document : Json) (id : String) : Option (List (String × Json)) := do
  let questions ← document.member ⟨"questions", 3⟩
  let question ← questions.member ⟨id, 0⟩
  let criteria ← question.member ⟨"criteria", 2⟩
  match criteria with
  | .obj fields => some fields
  | _ => none

def criteriaLabels (document : Json) (id : String) : Option (List String) :=
  (criteriaFields document id).map fun fields => fields.map Prod.fst

theorem criteriaFields_of_members {document questions question : Json} {id : String}
    {fields : List (String × Json)} (hqs : document.member ⟨"questions", 3⟩ = some questions)
    (hq : questions.member ⟨id, 0⟩ = some question)
    (hc : question.member ⟨"criteria", 2⟩ = some (.obj fields)) :
    criteriaFields document id = some fields := by
  simp [criteriaFields, hqs, hq, hc]

theorem QuestionWire.criteria_of_deserialize {j : Json} {w : QuestionWire}
    {criteria : List (String × String)} (h : QuestionWire.deserialize j = some w)
    (hw : w.criteria = some criteria) :
    ∃ f inner, j.fields? 3 = some f ∧ f.distinct ["type", "instructions", "criteria"] = true ∧
      j.descend ⟨"criteria", 2⟩ = some inner ∧ asOrdered asStr inner = some criteria := by
  obtain ⟨f, hf, h⟩ := Option.bind_eq_some_iff.mp h
  split at h
  · rename_i hd
    obtain ⟨kind, -, h⟩ := Option.bind_eq_some_iff.mp h
    obtain ⟨instructions, -, h⟩ := Option.bind_eq_some_iff.mp h
    obtain ⟨read, hread, h⟩ := Option.bind_eq_some_iff.mp h
    cases h
    cases hw
    have hslot := slot_eq_descend hf ⟨"criteria", 2⟩
    unfold Fields.defaulted at hread
    split at hread
    · rename_i inner hinner
      exact ⟨f, inner, hf, hd, hslot.symm.trans hinner, asOption_some hread⟩
    · cases hread
  · cases h

section Decoded

variable [RustStd] [SerdeTexts] {wire : RequestWire} {document : Json} {limits : Limits}
  {r : DecisionRequest} {q : ScoreQuestion}

theorem build_score (h : build wire limits = .ok r) (hq : .score q ∈ r.questions) :
    ∃ e ∈ wire.questions, ∃ criteria, e.1 = q.id.text ∧ e.2.criteria = some criteria ∧
      q.levels.map ScoreLevel.label = criteria.map Prod.fst := by
  obtain ⟨-, h⟩ := Result.bind_unit_ok.mp h
  obtain ⟨state, -, h⟩ := Result.bind_ok.mp h
  obtain ⟨questions, hquestions, h⟩ := Result.bind_ok.mp h
  rw [(DecisionRequest.new_ok (ofCoreSchema_ok h)).2.1] at hq
  obtain ⟨e, he, hquestion⟩ := Result.mem_of_mapM_ok hquestions hq
  obtain ⟨criteria, hcriteria, hid, hlevels⟩ := question_score hquestion
  exact ⟨e, he, criteria, hid.symm, hcriteria, hlevels⟩

/-- From a value, the levels are the labels of the document in sorted order. -/
theorem decodeRequest_levels (h : decodeRequest (Value.parse document) limits = .ok r)
    (hq : .score q ∈ r.questions) :
    ∃ fields, criteriaFields document q.id.text = some fields ∧
      q.levels.map ScoreLevel.label = (normalizeFields fields OrdMap.empty).keys := by
  obtain ⟨body, hbody, h⟩ := Result.bind_ok.mp h
  obtain ⟨state, -, h⟩ := Result.bind_ok.mp h
  obtain ⟨model, -, h⟩ := Result.bind_ok.mp h
  obtain ⟨facts, -, h⟩ := Result.bind_ok.mp h
  obtain ⟨questions, hquestions, h⟩ := Result.bind_ok.mp h
  obtain ⟨ordered, hordered, h⟩ := Result.bind_ok.mp h
  obtain ⟨e, he, criteria, hid, hcriteria, hlevels⟩ := build_score h hq
  obtain ⟨field, hfield, hread⟩ := Result.mem_of_mapM_ok hordered he
  have hdocument : document.normalize = .obj body := asObject_ok hbody
  have hlookup : document.normalize.descend ⟨"questions", 3⟩ = some (.obj questions) := by
    rw [hdocument]
    exact requiredObject_ok hquestions
  unfold readQuestion at hread
  split at hread
  · rename_i w hw
    cases hread
    obtain ⟨rawQuestions, hmember, hnormal⟩ := member_of_descend hlookup
    have hsorted : (questions.Pairwise fun a b => a.1 < b.1) := by
      have hc := canonical_normalize rawQuestions
      rw [hnormal] at hc
      exact hc.1
    have hdescend : rawQuestions.normalize.descend ⟨field.1, 0⟩ = some field.2 := by
      rw [hnormal]
      exact lookup_of_mem hsorted hfield
    obtain ⟨rawQuestion, hmember', hnormal'⟩ := member_of_descend hdescend
    obtain ⟨-, inner, -, -, hinner, hasOrdered⟩ :=
      QuestionWire.criteria_of_deserialize hw hcriteria
    rw [← hnormal'] at hinner
    obtain ⟨rawCriteria, hmember'', hnormal''⟩ := member_of_descend hinner
    obtain ⟨fields, rfl, -, hkeys, -⟩ := asOrdered_some hasOrdered
    obtain ⟨raw, rfl, hraw⟩ := normalize_eq_obj hnormal''
    refine ⟨raw, ?_, ?_⟩
    · rw [← hid]
      exact criteriaFields_of_members hmember hmember' hmember''
    · rw [hlevels, hkeys, ← hraw]
      rfl
  · cases hread

/-- From the text, the levels are the labels of the document in its order. -/
theorem decodeRequestStr_levels (h : decodeRequestStr (.ok document) limits = .ok r)
    (hq : .score q ∈ r.questions) :
    criteriaLabels document q.id.text = some (q.levels.map ScoreLevel.label) := by
  unfold decodeRequestStr at h
  dsimp only at h
  split at h
  · rename_i wire hwire
    obtain ⟨e, he, criteria, hid, hcriteria, hlevels⟩ := build_score h hq
    obtain ⟨f, hf, hwire⟩ := Option.bind_eq_some_iff.mp hwire
    split at hwire
    · rename_i hd
      obtain ⟨state, -, hwire⟩ := Option.bind_eq_some_iff.mp hwire
      obtain ⟨model, -, hwire⟩ := Option.bind_eq_some_iff.mp hwire
      obtain ⟨facts, -, hwire⟩ := Option.bind_eq_some_iff.mp hwire
      obtain ⟨questions, hquestions, hwire⟩ := Option.bind_eq_some_iff.mp hwire
      cases hwire
      obtain ⟨inner, hinner, hread⟩ := Option.bind_eq_some_iff.mp hquestions
      obtain ⟨fields, rfl, hnodup, -, hall⟩ := asOrdered_some hread
      obtain ⟨field, hfield, hname, hw⟩ := hall e he
      have hqs : document.member ⟨"questions", 3⟩ = some (.obj fields) := by
        rw [member_eq_descend hf hd (by decide), ← slot_eq_descend hf]
        exact hinner
      have hquestion : (Json.obj fields).member ⟨field.1, 0⟩ = some field.2 :=
        keep_of_mem hnodup hfield
      obtain ⟨f', inner, hf', hd', hinner, hasOrdered⟩ :=
        QuestionWire.criteria_of_deserialize hw hcriteria
      obtain ⟨raw, rfl, -, hkeys, -⟩ := asOrdered_some hasOrdered
      rw [← member_eq_descend hf' hd' (by decide)] at hinner
      rw [criteriaLabels, ← hid, ← hname, criteriaFields_of_members hqs hquestion hinner,
        Option.map_some, hlevels, hkeys]
    · cases hwire
  · cases h

end Decoded

end Jev

end OpenCodifier
