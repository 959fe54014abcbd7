import OpenCodifier.Schema.Optionals
set_option autoImplicit false

namespace OpenCodifier

open Json ResponseField

section Reads

variable {j j' inner inner' : Json}

theorem ConfidenceReport.deserialize_addAt_verifierAgreement
    (h : addAt "verifier_agreement" .null [] j = some j') :
    ConfidenceReport.deserialize j' = ConfidenceReport.deserialize j := by
  rw [ConfidenceReport.deserialize, ConfidenceReport.deserialize]
  refine fieldsBind_addAt h fun fields hg => ?_
  simp (disch := decide) only [required_insert]
  rw [optional_insert_self hg]

theorem EscalationPayload.deserialize_addAt_partialAnswer
    (h : addAt "partial_answer" .null [] j = some j') :
    EscalationPayload.deserialize j' = EscalationPayload.deserialize j := by
  rw [EscalationPayload.deserialize, EscalationPayload.deserialize]
  refine fieldsBind_addAt h fun fields hg => ?_
  simp (disch := decide) only [required_insert, defaulted_insert]
  rw [optional_insert_self hg]

theorem EscalationPayload.deserialize_addAt_truncated
    (h : addAt "truncated" (.bool false) [] j = some j') :
    EscalationPayload.deserialize j' = EscalationPayload.deserialize j := by
  rw [EscalationPayload.deserialize, EscalationPayload.deserialize]
  have hread : asBool (.bool false) = some false := rfl
  refine fieldsBind_addAt h fun fields hg => ?_
  simp (disch := decide) only [required_insert, optional_insert]
  rw [defaulted_insert_self hg hread]

theorem EscalationReport.deserialize_replace_payload (hd : j.descend inPayload = some inner)
    (hr : EscalationPayload.deserialize inner' = EscalationPayload.deserialize inner) :
    EscalationReport.deserialize (j.replace inPayload inner') = EscalationReport.deserialize j := by
  rw [EscalationReport.deserialize, EscalationReport.deserialize]
  refine fieldsBind_replace hd fun f hf => ?_
  simp (disch := decide) only [required_replace]
  rw [required_replace_self hf hr]

variable [RustStd]

theorem DecisionResponse.deserialize_addAt_escalation
    (h : addAt "escalation" .null [] j = some j') :
    DecisionResponse.deserialize j' = DecisionResponse.deserialize j := by
  rw [DecisionResponse.deserialize, DecisionResponse.deserialize]
  refine fieldsBind_addAt h fun fields hg => ?_
  simp (disch := decide) only [required_insert]
  rw [defaulted_insert_null hg]

theorem DecisionResponse.deserialize_replace_confidence (hd : j.descend inConfidence = some inner)
    (hr : ConfidenceReport.deserialize inner' = ConfidenceReport.deserialize inner) :
    DecisionResponse.deserialize (j.replace inConfidence inner') =
      DecisionResponse.deserialize j := by
  rw [DecisionResponse.deserialize, DecisionResponse.deserialize]
  refine fieldsBind_replace hd fun f hf => ?_
  simp (disch := decide) only [required_replace, defaulted_replace]
  rw [required_replace_self hf hr]

theorem DecisionResponse.deserialize_replace_escalation (hd : j.descend inEscalation = some inner)
    (hr : asOption EscalationReport.deserialize inner' =
      asOption EscalationReport.deserialize inner) :
    DecisionResponse.deserialize (j.replace inEscalation inner') =
      DecisionResponse.deserialize j := by
  rw [DecisionResponse.deserialize, DecisionResponse.deserialize]
  refine fieldsBind_replace hd fun f hf => ?_
  simp (disch := decide) only [required_replace]
  rw [defaulted_replace_self hf hr]

end Reads

section Inversion

variable {j inner : Json}

theorem EscalationPayload.deserialize_some {p : EscalationPayload}
    (h : EscalationPayload.deserialize j = some p) :
    ∃ f, j.fields? 8 = some f ∧ f.defaulted 7 "truncated" false asBool = some p.truncated := by
  rw [EscalationPayload.deserialize] at h
  obtain ⟨f, hf, h⟩ := Option.bind_eq_some_iff.mp h
  obtain ⟨_, -, h⟩ := Option.bind_eq_some_iff.mp h
  obtain ⟨_, -, h⟩ := Option.bind_eq_some_iff.mp h
  obtain ⟨_, -, h⟩ := Option.bind_eq_some_iff.mp h
  obtain ⟨_, -, h⟩ := Option.bind_eq_some_iff.mp h
  obtain ⟨_, -, h⟩ := Option.bind_eq_some_iff.mp h
  obtain ⟨_, -, h⟩ := Option.bind_eq_some_iff.mp h
  obtain ⟨_, -, h⟩ := Option.bind_eq_some_iff.mp h
  obtain ⟨truncated, ht, h⟩ := Option.bind_eq_some_iff.mp h
  cases h
  exact ⟨f, hf, ht⟩

theorem EscalationReport.payload_of_descend {r : EscalationReport}
    (h : EscalationReport.deserialize j = some r) (hd : j.descend inPayload = some inner) :
    EscalationPayload.deserialize inner = some r.payload := by
  rw [EscalationReport.deserialize] at h
  obtain ⟨f, hf, h⟩ := Option.bind_eq_some_iff.mp h
  obtain ⟨reason, -, h⟩ := Option.bind_eq_some_iff.mp h
  obtain ⟨gate, -, h⟩ := Option.bind_eq_some_iff.mp h
  obtain ⟨requestedAction, -, h⟩ := Option.bind_eq_some_iff.mp h
  obtain ⟨engine, -, h⟩ := Option.bind_eq_some_iff.mp h
  obtain ⟨payload, hp, h⟩ := Option.bind_eq_some_iff.mp h
  cases h
  exact read_of_required ((slot_eq_descend hf inPayload).trans hd) hp

theorem DecisionResponse.deserialize_some [RustStd] {r : DecisionResponse}
    (h : DecisionResponse.deserialize j = some r) :
    ∃ f, j.fields? 6 = some f ∧
      f.required 2 "confidence" ConfidenceReport.deserialize = some r.confidence ∧
      f.defaulted 5 "escalation" none (asOption EscalationReport.deserialize) =
        some r.escalation := by
  rw [DecisionResponse.deserialize] at h
  obtain ⟨f, hf, h⟩ := Option.bind_eq_some_iff.mp h
  obtain ⟨answers, -, h⟩ := Option.bind_eq_some_iff.mp h
  obtain ⟨outcome, -, h⟩ := Option.bind_eq_some_iff.mp h
  obtain ⟨confidence, hc, h⟩ := Option.bind_eq_some_iff.mp h
  obtain ⟨trace, -, h⟩ := Option.bind_eq_some_iff.mp h
  obtain ⟨metrics, -, h⟩ := Option.bind_eq_some_iff.mp h
  obtain ⟨escalation, he, h⟩ := Option.bind_eq_some_iff.mp h
  obtain ⟨-, -, rfl, -, -, rfl⟩ := parts_of_new (Result.toOption_eq_some.mp h)
  exact ⟨f, hf, hc, he⟩

theorem DecisionResponse.escalation_of_descend [RustStd] {r : DecisionResponse} {s : Step}
    {deep : Json} (h : DecisionResponse.deserialize j = some r)
    (hd : j.descend inEscalation = some inner) (hdeep : inner.descend s = some deep) :
    ∃ report, r.escalation = some report ∧ EscalationReport.deserialize inner = some report := by
  obtain ⟨f, hf, -, he⟩ := DecisionResponse.deserialize_some h
  have hread := read_of_defaulted ((slot_eq_descend hf inEscalation).trans hd) he
  have hnull : inner ≠ .null := by
    rintro rfl
    cases hdeep
  rw [asOption_of_ne_null _ hnull] at hread
  obtain ⟨report, hreport, hsome⟩ := Option.map_eq_some_iff.mp hread
  exact ⟨report, hsome.symm, hreport⟩

end Inversion

section Noticed

variable {j inner : Json} {key : String} {value : Json} {written : Bool} {path : List Step}

theorem ConfidenceReport.noticed_verifierAgreement {r : ConfidenceReport}
    {fields : List (String × Json)} :
    Noticed [] "verifier_agreement" .null true (.obj fields) r.serialize.1 :=
  noticed_written (by simp [ConfidenceReport.fields]; rfl) (unknownKey_null _)

theorem EscalationPayload.noticed_partialAnswer {p : EscalationPayload}
    {fields : List (String × Json)} :
    Noticed [] "partial_answer" .null true (.obj fields) p.serialize.1 := by
  have hwrite : lookup (Value.structFields p.fields) "partial_answer" =
      some (Value.ofOption (p.partialAnswer.map PartialAnswer.serialize)).1 := by
    rw [Value.lookup_structFields _ p.fields_nodup]
    rfl
  exact noticed_written hwrite (unknownKey_null _)

theorem EscalationPayload.noticed_truncated {p : EscalationPayload}
    {fields : List (String × Json)} (h : EscalationPayload.deserialize (.obj fields) = some p)
    (hg : lookup fields "truncated" = none) :
    Noticed [] "truncated" value false (.obj fields) p.serialize.1 := by
  obtain ⟨f, hf, ht⟩ := EscalationPayload.deserialize_some h
  cases hf
  have htruncated : p.truncated = false := default_of_absent hg ht
  refine noticed_skipped ?_
  rw [Value.lookup_structFields _ p.fields_nodup]
  simp [EscalationPayload.fields, htruncated, Value.skipIf]

theorem EscalationReport.noticed_inPayload {r : EscalationReport}
    (hd : j.descend inPayload = some inner)
    (h : Noticed path key value written inner r.payload.serialize.1) :
    Noticed (inPayload :: path) key value written j r.serialize.1 := by
  refine noticed_cons r.payload.serialize hd ?_ h
  rw [Value.lookup_structFields _ (by simp [fields])]
  rfl

theorem DecisionResponse.noticed_inConfidence {r : DecisionResponse}
    (hd : j.descend inConfidence = some inner)
    (h : Noticed path key value written inner r.confidence.serialize.1) :
    Noticed (inConfidence :: path) key value written j r.serialize.1 := by
  refine noticed_cons r.confidence.serialize hd ?_ h
  rw [Value.lookup_structFields _ (by simp [fields])]
  rfl

theorem DecisionResponse.noticed_inEscalation {r : DecisionResponse} {report : EscalationReport}
    (hreport : r.escalation = some report) (hd : j.descend inEscalation = some inner)
    (h : Noticed path key value written inner report.serialize.1) :
    Noticed (inEscalation :: path) key value written j r.serialize.1 := by
  refine noticed_cons report.serialize hd ?_ h
  rw [Value.lookup_structFields _ (by simp [fields])]
  simp [fields, hreport]

theorem DecisionResponse.noticed_escalation [RustStd] {r : DecisionResponse}
    {fields : List (String × Json)} (h : DecisionResponse.deserialize (.obj fields) = some r)
    (hg : lookup fields "escalation" = none) :
    Noticed [] "escalation" .null false (.obj fields) r.serialize.1 := by
  obtain ⟨f, hf, -, he⟩ := DecisionResponse.deserialize_some h
  cases hf
  have hnone : r.escalation = none := default_of_absent hg he
  exact noticed_skipped (by simp [DecisionResponse.fields, hnone])

end Noticed

section Tolerance

variable [RustStd] {j inner payload : Json} {r : DecisionResponse}

theorem DecisionResponse.tolerates :
    Tolerates DecisionResponse.deserialize DecisionResponse.serialize ResponseField.spec where
  reads := by
    intro site value j j' hv h
    cases site with
    | escalation =>
      cases List.mem_singleton.mp hv
      exact DecisionResponse.deserialize_addAt_escalation h
    | verifierAgreement =>
      cases List.mem_singleton.mp hv
      obtain ⟨inner, inner', hd, hadd, rfl⟩ := addAt_cons h
      exact DecisionResponse.deserialize_replace_confidence hd
        (ConfidenceReport.deserialize_addAt_verifierAgreement hadd)
    | partialAnswer =>
      cases List.mem_singleton.mp hv
      obtain ⟨inner, inner', hd, hadd, rfl⟩ := addAt_cons h
      obtain ⟨payload, payload', hdp, haddp, rfl⟩ := addAt_cons hadd
      exact DecisionResponse.deserialize_replace_escalation hd
        (asOption_replace hdp (EscalationReport.deserialize_replace_payload hdp
          (EscalationPayload.deserialize_addAt_partialAnswer haddp)))
    | truncated =>
      cases List.mem_singleton.mp hv
      obtain ⟨inner, inner', hd, hadd, rfl⟩ := addAt_cons h
      obtain ⟨payload, payload', hdp, haddp, rfl⟩ := addAt_cons hadd
      exact DecisionResponse.deserialize_replace_escalation hd
        (asOption_replace hdp (EscalationReport.deserialize_replace_payload hdp
          (EscalationPayload.deserialize_addAt_truncated haddp)))
  noticed := by
    intro site value j j' r hv h hr
    cases site with
    | escalation =>
      cases List.mem_singleton.mp hv
      obtain ⟨fields, rfl, hg, -⟩ := addAt_nil h
      exact DecisionResponse.noticed_escalation hr hg
    | verifierAgreement =>
      cases List.mem_singleton.mp hv
      obtain ⟨inner, inner', hd, hadd, -⟩ := addAt_cons h
      obtain ⟨fields, rfl, hg, -⟩ := addAt_nil hadd
      exact noticed_inConfidence hd ConfidenceReport.noticed_verifierAgreement
    | partialAnswer =>
      cases List.mem_singleton.mp hv
      obtain ⟨inner, inner', hd, hadd, -⟩ := addAt_cons h
      obtain ⟨payload, payload', hdp, haddp, -⟩ := addAt_cons hadd
      obtain ⟨fields, rfl, hg, -⟩ := addAt_nil haddp
      obtain ⟨report, hreport, -⟩ := escalation_of_descend hr hd hdp
      exact noticed_inEscalation hreport hd
        (EscalationReport.noticed_inPayload hdp EscalationPayload.noticed_partialAnswer)
    | truncated =>
      obtain ⟨inner, inner', hd, hadd, -⟩ := addAt_cons h
      obtain ⟨payload, payload', hdp, haddp, -⟩ := addAt_cons hadd
      obtain ⟨fields, rfl, hg, -⟩ := addAt_nil haddp
      obtain ⟨report, hreport, hread⟩ := escalation_of_descend hr hd hdp
      have hpayload := EscalationReport.payload_of_descend hread hdp
      exact noticed_inEscalation hreport hd
        (EscalationReport.noticed_inPayload hdp (EscalationPayload.noticed_truncated hpayload hg))

end Tolerance

end OpenCodifier
