import OpenCodifier.Schema.Optionals
set_option autoImplicit false

namespace OpenCodifier

open Json RequestField

section Reads

variable {j j' inner inner' : Json}

theorem State.deserialize_addAt_facts (h : addAt "facts" (.obj []) [] j = some j') :
    State.deserialize j' = State.deserialize j := by
  rw [State.deserialize, State.deserialize]
  have hread : asMap FactValue.deserialize (.obj []) = some OrdMap.empty := rfl
  refine fieldsBind_addAt h fun fields hg => ?_
  simp (disch := decide) only [required_insert, defaulted_insert]
  rw [defaulted_insert_self hg hread]

theorem State.deserialize_addAt_images (h : addAt "images" (.arr []) [] j = some j') :
    State.deserialize j' = State.deserialize j := by
  rw [State.deserialize, State.deserialize]
  have hread : asList ImageInput.deserialize (.arr []) = some [] := rfl
  refine fieldsBind_addAt h fun fields hg => ?_
  simp (disch := decide) only [required_insert, defaulted_insert]
  rw [defaulted_insert_self hg hread]

theorem Limits.deserialize_addAt_maxImageBytes
    (h : addAt "max_image_bytes" (Value.nat 2097152).1 [] j = some j') :
    Limits.deserialize j' = Limits.deserialize j := by
  rw [Limits.deserialize, Limits.deserialize]
  refine fieldsBind_addAt h fun fields hg => ?_
  simp (disch := decide) only [required_insert, defaulted_insert]
  rw [defaulted_insert_self hg (Value.asUnsigned_nat (by decide))]

theorem Limits.deserialize_addAt_maxImages
    (h : addAt "max_images" (Value.nat 4).1 [] j = some j') :
    Limits.deserialize j' = Limits.deserialize j := by
  rw [Limits.deserialize, Limits.deserialize]
  refine fieldsBind_addAt h fun fields hg => ?_
  simp (disch := decide) only [required_insert, defaulted_insert]
  rw [defaulted_insert_self hg (Value.asUnsigned_nat (by decide))]

theorem RequestMetadata.deserialize_addAt_requestId
    (h : addAt "request_id" .null [] j = some j') :
    RequestMetadata.deserialize j' = RequestMetadata.deserialize j := by
  rw [RequestMetadata.deserialize, RequestMetadata.deserialize]
  refine fieldsBind_addAt h fun fields hg => ?_
  simp (disch := decide) only [required_insert, defaulted_insert]
  rw [optional_insert_self hg]

theorem RequestMetadata.deserialize_addAt_family (h : addAt "family" .null [] j = some j') :
    RequestMetadata.deserialize j' = RequestMetadata.deserialize j := by
  rw [RequestMetadata.deserialize, RequestMetadata.deserialize]
  refine fieldsBind_addAt h fun fields hg => ?_
  simp (disch := decide) only [required_insert, optional_insert]
  rw [defaulted_insert_null hg]

theorem RequestMetadata.deserialize_replace_limits (hd : j.descend inLimits = some inner)
    (hr : Limits.deserialize inner' = Limits.deserialize inner) :
    RequestMetadata.deserialize (j.replace inLimits inner') = RequestMetadata.deserialize j := by
  rw [RequestMetadata.deserialize, RequestMetadata.deserialize]
  refine fieldsBind_replace hd fun f hf => ?_
  simp (disch := decide) only [optional_replace, defaulted_replace]
  rw [required_replace_self hf hr]

variable [RustStd]

theorem DecisionRequest.deserialize_addAt_policy
    (h : addAt "policy" DecisionPolicy.defaults.serialize.1 [] j = some j') :
    DecisionRequest.deserialize j' = DecisionRequest.deserialize j := by
  rw [DecisionRequest.deserialize, DecisionRequest.deserialize]
  refine fieldsBind_addAt h fun fields hg => ?_
  simp (disch := decide) only [required_insert, defaulted_insert]
  rw [defaulted_insert_self hg (DecisionPolicy.deserialize_serialize _)]

omit [RustStd] in
theorem RequestMetadata.deserialize_default :
    RequestMetadata.deserialize (RequestMetadata.serialize {}).1 = some {} := by
  have hwords : ({} : Limits).FitsWords := by
    constructor <;> norm_num [Duration.FitsWords, Duration.perSecond]
  exact RequestMetadata.deserialize_serialize hwords

theorem DecisionRequest.deserialize_addAt_metadata
    (h : addAt "metadata" (RequestMetadata.serialize {}).1 [] j = some j') :
    DecisionRequest.deserialize j' = DecisionRequest.deserialize j := by
  rw [DecisionRequest.deserialize, DecisionRequest.deserialize]
  refine fieldsBind_addAt h fun fields hg => ?_
  simp (disch := decide) only [required_insert, defaulted_insert]
  rw [defaulted_insert_self hg RequestMetadata.deserialize_default]

theorem DecisionRequest.deserialize_replace_state (hd : j.descend inState = some inner)
    (hr : State.deserialize inner' = State.deserialize inner) :
    DecisionRequest.deserialize (j.replace inState inner') = DecisionRequest.deserialize j := by
  rw [DecisionRequest.deserialize, DecisionRequest.deserialize]
  refine fieldsBind_replace hd fun f hf => ?_
  simp (disch := decide) only [required_replace, defaulted_replace]
  rw [required_replace_self hf hr]

theorem DecisionRequest.deserialize_replace_policy (hd : j.descend inPolicy = some inner)
    (hr : DecisionPolicy.deserialize inner' = DecisionPolicy.deserialize inner) :
    DecisionRequest.deserialize (j.replace inPolicy inner') = DecisionRequest.deserialize j := by
  rw [DecisionRequest.deserialize, DecisionRequest.deserialize]
  refine fieldsBind_replace hd fun f hf => ?_
  simp (disch := decide) only [required_replace, defaulted_replace]
  rw [defaulted_replace_self hf hr]

theorem DecisionRequest.deserialize_replace_metadata (hd : j.descend inMetadata = some inner)
    (hr : RequestMetadata.deserialize inner' = RequestMetadata.deserialize inner) :
    DecisionRequest.deserialize (j.replace inMetadata inner') = DecisionRequest.deserialize j := by
  rw [DecisionRequest.deserialize, DecisionRequest.deserialize]
  refine fieldsBind_replace hd fun f hf => ?_
  simp (disch := decide) only [required_replace, defaulted_replace]
  rw [defaulted_replace_self hf hr]

end Reads

section Inversion

variable {j : Json}

theorem State.deserialize_some {s : State} (h : State.deserialize j = some s) :
    ∃ f, j.fields? 3 = some f ∧
      f.defaulted 2 "images" [] (asList ImageInput.deserialize) = some s.images := by
  rw [State.deserialize] at h
  obtain ⟨f, hf, h⟩ := Option.bind_eq_some_iff.mp h
  obtain ⟨text, -, h⟩ := Option.bind_eq_some_iff.mp h
  obtain ⟨facts, -, h⟩ := Option.bind_eq_some_iff.mp h
  obtain ⟨images, hi, h⟩ := Option.bind_eq_some_iff.mp h
  cases h
  exact ⟨f, hf, hi⟩

theorem Limits.deserialize_some {l : Limits} (h : Limits.deserialize j = some l) :
    ∃ f, j.fields? 8 = some f ∧
      f.defaulted 6 "max_image_bytes" 2097152 (asUnsigned 64) = some l.maxImageBytes ∧
      f.defaulted 7 "max_images" 4 (asUnsigned 64) = some l.maxImages := by
  rw [Limits.deserialize] at h
  obtain ⟨f, hf, h⟩ := Option.bind_eq_some_iff.mp h
  obtain ⟨_, -, h⟩ := Option.bind_eq_some_iff.mp h
  obtain ⟨_, -, h⟩ := Option.bind_eq_some_iff.mp h
  obtain ⟨_, -, h⟩ := Option.bind_eq_some_iff.mp h
  obtain ⟨_, -, h⟩ := Option.bind_eq_some_iff.mp h
  obtain ⟨_, -, h⟩ := Option.bind_eq_some_iff.mp h
  obtain ⟨_, -, h⟩ := Option.bind_eq_some_iff.mp h
  obtain ⟨maxImageBytes, hb, h⟩ := Option.bind_eq_some_iff.mp h
  obtain ⟨maxImages, hi, h⟩ := Option.bind_eq_some_iff.mp h
  cases h
  exact ⟨f, hf, hb, hi⟩

theorem RequestMetadata.deserialize_some {m : RequestMetadata}
    (h : RequestMetadata.deserialize j = some m) :
    ∃ f, j.fields? 3 = some f ∧ f.required 1 "limits" Limits.deserialize = some m.limits ∧
      f.defaulted 2 "family" none (asOption Ident.deserialize) = some m.family := by
  rw [RequestMetadata.deserialize] at h
  obtain ⟨f, hf, h⟩ := Option.bind_eq_some_iff.mp h
  obtain ⟨requestId, -, h⟩ := Option.bind_eq_some_iff.mp h
  obtain ⟨limits, hl, h⟩ := Option.bind_eq_some_iff.mp h
  obtain ⟨family, hm, h⟩ := Option.bind_eq_some_iff.mp h
  cases h
  exact ⟨f, hf, hl, hm⟩

theorem DecisionRequest.deserialize_some [RustStd] {r : DecisionRequest}
    (h : DecisionRequest.deserialize j = some r) :
    ∃ f, j.fields? 4 = some f ∧ f.required 0 "state" State.deserialize = some r.state ∧
      f.defaulted 2 "policy" .defaults DecisionPolicy.deserialize = some r.policy ∧
      f.defaulted 3 "metadata" {} RequestMetadata.deserialize = some r.metadata := by
  rw [DecisionRequest.deserialize] at h
  obtain ⟨f, hf, h⟩ := Option.bind_eq_some_iff.mp h
  obtain ⟨state, hs, h⟩ := Option.bind_eq_some_iff.mp h
  obtain ⟨questions, -, h⟩ := Option.bind_eq_some_iff.mp h
  obtain ⟨policy, hp, h⟩ := Option.bind_eq_some_iff.mp h
  obtain ⟨metadata, hm, h⟩ := Option.bind_eq_some_iff.mp h
  obtain ⟨rfl, -, rfl, rfl⟩ := DecisionRequest.new_ok (Result.toOption_eq_some.mp h)
  exact ⟨f, hf, hs, hp, hm⟩

end Inversion

section Noticed

variable {j inner j' : Json}

theorem unknownKey_empty (m : OrdMap String Value) :
    unknownKey (.obj []) (Value.object m).1 = none := by
  simp [Value.object, unknownKey, unknownField]

theorem State.noticed_facts {s : State} {fields : List (String × Json)} :
    Noticed [] "facts" (.obj []) true (.obj fields) s.serialize.1 :=
  noticed_written (by simp; rfl) (unknownKey_empty _)

theorem State.noticed_images {s : State} {fields : List (String × Json)}
    (h : State.deserialize (.obj fields) = some s) (hg : lookup fields "images" = none) :
    Noticed [] "images" (.arr []) false (.obj fields) s.serialize.1 := by
  obtain ⟨f, hf, hi⟩ := State.deserialize_some h
  cases hf
  have himages : s.images = [] := default_of_absent hg hi
  exact noticed_skipped (by simp [himages, Value.skipIf])

theorem Limits.noticed_maxImageBytes {l : Limits} {fields : List (String × Json)} {value : Json}
    (h : Limits.deserialize (.obj fields) = some l) (hg : lookup fields "max_image_bytes" = none) :
    Noticed [] "max_image_bytes" value false (.obj fields) l.serialize.1 := by
  obtain ⟨f, hf, hb, -⟩ := Limits.deserialize_some h
  cases hf
  have hbytes : l.maxImageBytes = 2097152 := default_of_absent hg hb
  refine noticed_skipped ?_
  rw [Value.lookup_structFields _ l.fields_nodup]
  simp [Limits.fields, hbytes, Value.skipIf]

theorem Limits.noticed_maxImages {l : Limits} {fields : List (String × Json)} {value : Json}
    (h : Limits.deserialize (.obj fields) = some l) (hg : lookup fields "max_images" = none) :
    Noticed [] "max_images" value false (.obj fields) l.serialize.1 := by
  obtain ⟨f, hf, -, hi⟩ := Limits.deserialize_some h
  cases hf
  have himages : l.maxImages = 4 := default_of_absent hg hi
  refine noticed_skipped ?_
  rw [Value.lookup_structFields _ l.fields_nodup]
  simp [Limits.fields, himages, Value.skipIf]

theorem RequestMetadata.noticed_requestId {m : RequestMetadata} {fields : List (String × Json)} :
    Noticed [] "request_id" .null true (.obj fields) m.serialize.1 :=
  noticed_written (by simp [RequestMetadata.fields]; rfl) (unknownKey_null _)

theorem RequestMetadata.noticed_family {m : RequestMetadata} {fields : List (String × Json)}
    (h : RequestMetadata.deserialize (.obj fields) = some m) (hg : lookup fields "family" = none) :
    Noticed [] "family" .null false (.obj fields) m.serialize.1 := by
  obtain ⟨f, hf, -, hm⟩ := RequestMetadata.deserialize_some h
  cases hf
  have hfamily : m.family = none := default_of_absent hg hm
  exact noticed_skipped (by simp [RequestMetadata.fields, hfamily])

variable [RustStd]

theorem DecisionRequest.noticed_policy {r : DecisionRequest} {fields : List (String × Json)}
    (h : DecisionRequest.deserialize (.obj fields) = some r) (hg : lookup fields "policy" = none) :
    Noticed [] "policy" DecisionPolicy.defaults.serialize.1 true (.obj fields) r.serialize.1 := by
  obtain ⟨f, hf, -, hp, -⟩ := DecisionRequest.deserialize_some h
  cases hf
  have hpolicy : r.policy = .defaults := default_of_absent hg hp
  exact noticed_written (by simp [hpolicy]) (unknownKey_self _ DecisionPolicy.defaults.serialize.2)

theorem DecisionRequest.noticed_metadata {r : DecisionRequest} {fields : List (String × Json)}
    (h : DecisionRequest.deserialize (.obj fields) = some r)
    (hg : lookup fields "metadata" = none) :
    Noticed [] "metadata" (RequestMetadata.serialize {}).1 true (.obj fields) r.serialize.1 := by
  obtain ⟨f, hf, -, -, hm⟩ := DecisionRequest.deserialize_some h
  cases hf
  have hmetadata : r.metadata = {} := default_of_absent hg hm
  exact noticed_written (by simp [hmetadata]) (unknownKey_self _ (RequestMetadata.serialize {}).2)

end Noticed

section Tolerance

variable [RustStd] {j inner : Json} {r : DecisionRequest}

theorem DecisionRequest.state_of_descend (h : DecisionRequest.deserialize j = some r)
    (hd : j.descend inState = some inner) : State.deserialize inner = some r.state := by
  obtain ⟨f, hf, hs, -⟩ := DecisionRequest.deserialize_some h
  exact read_of_required ((slot_eq_descend hf inState).trans hd) hs

theorem DecisionRequest.policy_of_descend (h : DecisionRequest.deserialize j = some r)
    (hd : j.descend inPolicy = some inner) : DecisionPolicy.deserialize inner = some r.policy := by
  obtain ⟨f, hf, -, hp, -⟩ := DecisionRequest.deserialize_some h
  exact read_of_defaulted ((slot_eq_descend hf inPolicy).trans hd) hp

theorem DecisionRequest.metadata_of_descend (h : DecisionRequest.deserialize j = some r)
    (hd : j.descend inMetadata = some inner) :
    RequestMetadata.deserialize inner = some r.metadata := by
  obtain ⟨f, hf, -, -, hm⟩ := DecisionRequest.deserialize_some h
  exact read_of_defaulted ((slot_eq_descend hf inMetadata).trans hd) hm

omit [RustStd] in
theorem RequestMetadata.limits_of_descend {m : RequestMetadata}
    (h : RequestMetadata.deserialize j = some m) (hd : j.descend inLimits = some inner) :
    Limits.deserialize inner = some m.limits := by
  obtain ⟨f, hf, hl, -⟩ := RequestMetadata.deserialize_some h
  exact read_of_required ((slot_eq_descend hf inLimits).trans hd) hl

omit [RustStd] in
theorem RequestMetadata.noticed_inLimits {m : RequestMetadata} {key : String} {value : Json}
    {written : Bool} (hd : j.descend inLimits = some inner)
    (h : Noticed [] key value written inner m.limits.serialize.1) :
    Noticed [inLimits] key value written j m.serialize.1 := by
  have hsub : lookup (Value.structFields m.fields) "limits" = some m.limits.serialize.1 := by
    simp [RequestMetadata.fields]
  exact noticed_cons _ hd hsub h

section Parts

omit [RustStd]

variable {key : String} {value : Json} {written : Bool} {path : List Step}

theorem DecisionRequest.noticed_inState (hd : j.descend inState = some inner)
    (h : Noticed path key value written inner r.state.serialize.1) :
    Noticed (inState :: path) key value written j r.serialize.1 := by
  refine noticed_cons r.state.serialize hd ?_ h
  rw [Value.lookup_structFields _ (by simp)]
  rfl

theorem DecisionRequest.noticed_inPolicy (hd : j.descend inPolicy = some inner)
    (h : Noticed path key value written inner r.policy.serialize.1) :
    Noticed (inPolicy :: path) key value written j r.serialize.1 := by
  refine noticed_cons r.policy.serialize hd ?_ h
  rw [Value.lookup_structFields _ (by simp)]
  rfl

theorem DecisionRequest.noticed_inMetadata (hd : j.descend inMetadata = some inner)
    (h : Noticed path key value written inner r.metadata.serialize.1) :
    Noticed (inMetadata :: path) key value written j r.serialize.1 := by
  refine noticed_cons r.metadata.serialize hd ?_ h
  rw [Value.lookup_structFields _ (by simp)]
  rfl

end Parts

theorem DecisionRequest.tolerates :
    Tolerates DecisionRequest.deserialize DecisionRequest.serialize RequestField.spec where
  reads := by
    intro site value j j' hv h
    cases site with
    | policy =>
      cases List.mem_singleton.mp hv
      exact DecisionRequest.deserialize_addAt_policy h
    | metadata =>
      cases List.mem_singleton.mp hv
      exact DecisionRequest.deserialize_addAt_metadata h
    | facts =>
      cases List.mem_singleton.mp hv
      obtain ⟨inner, inner', hd, hadd, rfl⟩ := addAt_cons h
      exact DecisionRequest.deserialize_replace_state hd (State.deserialize_addAt_facts hadd)
    | images =>
      cases List.mem_singleton.mp hv
      obtain ⟨inner, inner', hd, hadd, rfl⟩ := addAt_cons h
      exact DecisionRequest.deserialize_replace_state hd (State.deserialize_addAt_images hadd)
    | gate g =>
      obtain ⟨inner, inner', hd, hadd, rfl⟩ := addAt_cons h
      exact DecisionRequest.deserialize_replace_policy hd
        (DecisionPolicy.deserialize_addAt hv hadd)
    | requestId =>
      cases List.mem_singleton.mp hv
      obtain ⟨inner, inner', hd, hadd, rfl⟩ := addAt_cons h
      exact DecisionRequest.deserialize_replace_metadata hd
        (RequestMetadata.deserialize_addAt_requestId hadd)
    | family =>
      cases List.mem_singleton.mp hv
      obtain ⟨inner, inner', hd, hadd, rfl⟩ := addAt_cons h
      exact DecisionRequest.deserialize_replace_metadata hd
        (RequestMetadata.deserialize_addAt_family hadd)
    | maxImageBytes =>
      cases List.mem_singleton.mp hv
      obtain ⟨inner, inner', hd, hadd, rfl⟩ := addAt_cons h
      obtain ⟨limits, limits', hdl, haddl, rfl⟩ := addAt_cons hadd
      exact DecisionRequest.deserialize_replace_metadata hd
        (RequestMetadata.deserialize_replace_limits hdl
          (Limits.deserialize_addAt_maxImageBytes haddl))
    | maxImages =>
      cases List.mem_singleton.mp hv
      obtain ⟨inner, inner', hd, hadd, rfl⟩ := addAt_cons h
      obtain ⟨limits, limits', hdl, haddl, rfl⟩ := addAt_cons hadd
      exact DecisionRequest.deserialize_replace_metadata hd
        (RequestMetadata.deserialize_replace_limits hdl (Limits.deserialize_addAt_maxImages haddl))
  noticed := by
    intro site value j j' r hv h hr
    cases site with
    | policy =>
      cases List.mem_singleton.mp hv
      obtain ⟨fields, rfl, hg, -⟩ := addAt_nil h
      exact DecisionRequest.noticed_policy hr hg
    | metadata =>
      cases List.mem_singleton.mp hv
      obtain ⟨fields, rfl, hg, -⟩ := addAt_nil h
      exact DecisionRequest.noticed_metadata hr hg
    | facts =>
      cases List.mem_singleton.mp hv
      obtain ⟨inner, inner', hd, hadd, -⟩ := addAt_cons h
      obtain ⟨fields, rfl, hg, -⟩ := addAt_nil hadd
      exact noticed_inState hd State.noticed_facts
    | images =>
      cases List.mem_singleton.mp hv
      obtain ⟨inner, inner', hd, hadd, -⟩ := addAt_cons h
      obtain ⟨fields, rfl, hg, -⟩ := addAt_nil hadd
      exact noticed_inState hd (State.noticed_images (state_of_descend hr hd) hg)
    | gate g =>
      obtain ⟨inner, inner', hd, hadd, -⟩ := addAt_cons h
      obtain ⟨fields, rfl, hg, -⟩ := addAt_nil hadd
      have hpolicy := policy_of_descend hr hd
      exact noticed_inPolicy hd
        (noticed_skipped (DecisionPolicy.lookup_serialize_absent hpolicy hg))
    | requestId =>
      cases List.mem_singleton.mp hv
      obtain ⟨inner, inner', hd, hadd, -⟩ := addAt_cons h
      obtain ⟨fields, rfl, hg, -⟩ := addAt_nil hadd
      exact noticed_inMetadata hd RequestMetadata.noticed_requestId
    | family =>
      cases List.mem_singleton.mp hv
      obtain ⟨inner, inner', hd, hadd, -⟩ := addAt_cons h
      obtain ⟨fields, rfl, hg, -⟩ := addAt_nil hadd
      exact noticed_inMetadata hd (RequestMetadata.noticed_family (metadata_of_descend hr hd) hg)
    | maxImageBytes =>
      obtain ⟨inner, inner', hd, hadd, -⟩ := addAt_cons h
      obtain ⟨limits, limits', hdl, haddl, -⟩ := addAt_cons hadd
      obtain ⟨fields, rfl, hg, -⟩ := addAt_nil haddl
      have hmetadata := metadata_of_descend hr hd
      have hlimits := RequestMetadata.limits_of_descend hmetadata hdl
      exact noticed_inMetadata hd (RequestMetadata.noticed_inLimits hdl
        (Limits.noticed_maxImageBytes hlimits hg))
    | maxImages =>
      obtain ⟨inner, inner', hd, hadd, -⟩ := addAt_cons h
      obtain ⟨limits, limits', hdl, haddl, -⟩ := addAt_cons hadd
      obtain ⟨fields, rfl, hg, -⟩ := addAt_nil haddl
      have hmetadata := metadata_of_descend hr hd
      have hlimits := RequestMetadata.limits_of_descend hmetadata hdl
      exact noticed_inMetadata hd (RequestMetadata.noticed_inLimits hdl
        (Limits.noticed_maxImages hlimits hg))

end Tolerance

end OpenCodifier
