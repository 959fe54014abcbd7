import OpenCodifier.Lib.JsonPath
import OpenCodifier.Schema.PolicySerde
set_option autoImplicit false

namespace OpenCodifier

open Json

inductive PolicyGate where
  | entropyCeiling
  | minMargin
  | oodCeiling
  | oodMode
  | booleanThreshold
  | abstainCandidate
  | maxLabelOverlap
  | escalateBelow
  deriving DecidableEq

namespace PolicyGate

def key : PolicyGate → String
  | entropyCeiling => "entropy_ceiling"
  | minMargin => "min_margin"
  | oodCeiling => "ood_ceiling"
  | oodMode => "ood_mode"
  | booleanThreshold => "boolean_threshold"
  | abstainCandidate => "abstain_candidate"
  | maxLabelOverlap => "max_label_overlap"
  | escalateBelow => "escalate_below"

def defaults : PolicyGate → List Value
  | minMargin => [.null, .float 0, .int 0]
  | oodMode => [.null, OodMode.serialize .answerEntropy]
  | _ => [.null]

end PolicyGate

namespace RawDecisionPolicy

def names (raw : RawDecisionPolicy) : PolicyGate → Bool
  | .entropyCeiling => raw.entropyCeiling.isSome
  | .minMargin => raw.minMargin.isSome
  | .oodCeiling => raw.oodCeiling.isSome
  | .oodMode => raw.oodMode.isSome
  | .booleanThreshold => raw.booleanThreshold.isSome
  | .abstainCandidate => raw.abstainCandidate.isSome
  | .maxLabelOverlap => raw.maxLabelOverlap.isSome
  | .escalateBelow => raw.escalateBelow.isSome

theorem lookup_serialize (raw : RawDecisionPolicy) {g : PolicyGate} (h : raw.names g = false) :
    lookup (Value.structFields raw.fields) g.key = none := by
  rw [Value.lookup_structFields g.key raw.fields_nodup]
  cases g <;> simp_all [names, fields, PolicyGate.key]

theorem names_of_absent {fields : List (String × Json)} {raw : RawDecisionPolicy} {g : PolicyGate}
    (h : deserialize (.obj fields) = some raw) (hg : lookup fields g.key = none) :
    raw.names g = false := by
  rw [deserialize, fields?_obj, Option.bind_eq_bind, Option.bind_some] at h
  obtain ⟨_, -, h⟩ := Option.bind_eq_some_iff.mp h
  obtain ⟨_, -, h⟩ := Option.bind_eq_some_iff.mp h
  obtain ⟨_, -, h⟩ := Option.bind_eq_some_iff.mp h
  obtain ⟨_, -, h⟩ := Option.bind_eq_some_iff.mp h
  obtain ⟨entropyCeiling, he, h⟩ := Option.bind_eq_some_iff.mp h
  obtain ⟨minMargin, hm, h⟩ := Option.bind_eq_some_iff.mp h
  obtain ⟨oodCeiling, ho, h⟩ := Option.bind_eq_some_iff.mp h
  obtain ⟨oodMode, hd, h⟩ := Option.bind_eq_some_iff.mp h
  obtain ⟨booleanThreshold, hb, h⟩ := Option.bind_eq_some_iff.mp h
  obtain ⟨abstainCandidate, ha, h⟩ := Option.bind_eq_some_iff.mp h
  obtain ⟨maxLabelOverlap, hl, h⟩ := Option.bind_eq_some_iff.mp h
  obtain ⟨escalateBelow, hs, h⟩ := Option.bind_eq_some_iff.mp h
  cases h
  cases g <;> simp_all [Fields.defaulted, PolicyGate.key, names]

section Additions

variable {j j' : Json}

theorem deserialize_addAt_null {g : PolicyGate} (h : addAt g.key .null [] j = some j') :
    deserialize j' = deserialize j := by
  rw [deserialize, deserialize]
  refine fieldsBind_addAt h fun fields hg => ?_
  cases g
  all_goals
    simp only [PolicyGate.key] at hg ⊢
    simp (disch := decide) only [required_insert, defaulted_insert]
    rw [defaulted_insert_null hg]

theorem deserialize_addAt_minMargin {value : Json}
    (h : addAt "min_margin" value [] j = some j') (hv : asOption asFloat value = some (some 0)) :
    deserialize j' = (deserialize j).map fun raw => { raw with minMargin := some 0 } := by
  rw [deserialize, deserialize]
  refine fieldsBind_addAt_map h fun fields hg => ?_
  have hnew : (Fields.keyed (insertSorted "min_margin" value fields)).defaulted 5 "min_margin" none
      (asOption asFloat) = some (some 0) := by
    simp [Fields.defaulted, lookup_insertSorted, hv]
  have hold : (Fields.keyed fields).defaulted 5 "min_margin" none (asOption asFloat) =
      some none := by
    simp [Fields.defaulted, hg]
  simp (disch := decide) only [required_insert, defaulted_insert, hnew, hold]
  repeat' refine bind_map_congr fun _ => ?_
  refine bind_some_map ?_
  repeat' refine bind_map_congr fun _ => ?_
  rfl

theorem deserialize_addAt_oodMode (h : addAt "ood_mode" (.str "answer_entropy") [] j = some j') :
    deserialize j' =
      (deserialize j).map fun raw => { raw with oodMode := some .answerEntropy } := by
  rw [deserialize, deserialize]
  refine fieldsBind_addAt_map h fun fields hg => ?_
  have hnew : (Fields.keyed (insertSorted "ood_mode" (.str "answer_entropy") fields)).defaulted 7
      "ood_mode" none (asOption (asVariant OodMode.names)) = some (some .answerEntropy) := by
    simp [Fields.defaulted, lookup_insertSorted, asOption, asVariant, OodMode.names]
  have hold : (Fields.keyed fields).defaulted 7 "ood_mode" none
      (asOption (asVariant OodMode.names)) = some none := by
    simp [Fields.defaulted, hg]
  simp (disch := decide) only [required_insert, defaulted_insert, hnew, hold]
  repeat' refine bind_map_congr fun _ => ?_
  refine bind_some_map ?_
  repeat' refine bind_map_congr fun _ => ?_
  rfl

end Additions

end RawDecisionPolicy

namespace DecisionPolicy

variable [RustStd]

section Setters

variable {p q : DecisionPolicy}

theorem withEntropyCeiling_names {c : WithTop ℚ} (h : p.withEntropyCeiling c = .ok q) {g : PolicyGate}
    (hg : g ≠ .entropyCeiling) : q.toRaw.names g = p.toRaw.names g := by
  unfold withEntropyCeiling at h
  split at h
  · cases h
    cases g <;> first | rfl | exact absurd rfl hg
  · cases h

theorem withMinMargin_names {m : ℚ} (h : p.withMinMargin m = .ok q) {g : PolicyGate}
    (hg : g ≠ .minMargin) : q.toRaw.names g = p.toRaw.names g := by
  unfold withMinMargin at h
  split at h
  · cases h
    cases g <;> first | rfl | exact absurd rfl hg
  · cases h

theorem withOodCeiling_names {c : WithTop ℚ} (h : p.withOodCeiling c = .ok q) {g : PolicyGate}
    (hg : g ≠ .oodCeiling) : q.toRaw.names g = p.toRaw.names g := by
  unfold withOodCeiling at h
  split at h
  · cases h
    cases g <;> first | rfl | exact absurd rfl hg
  · cases h

theorem withBooleanThreshold_names {t : ℚ} (h : p.withBooleanThreshold t = .ok q) {g : PolicyGate}
    (hg : g ≠ .booleanThreshold) : q.toRaw.names g = p.toRaw.names g := by
  unfold withBooleanThreshold at h
  split at h
  · cases h
    cases g <;> first | rfl | exact absurd rfl hg
  · cases h

omit [RustStd] in
theorem withAbstainCandidate_names {c : AbstainCandidate} (h : p.withAbstainCandidate c = .ok q) {g : PolicyGate}
    (hg : g ≠ .abstainCandidate) : q.toRaw.names g = p.toRaw.names g := by
  cases h
  cases g <;> first | rfl | exact absurd rfl hg

theorem withMaxLabelOverlap_names {t : ℚ} (h : p.withMaxLabelOverlap t = .ok q) {g : PolicyGate}
    (hg : g ≠ .maxLabelOverlap) : q.toRaw.names g = p.toRaw.names g := by
  unfold withMaxLabelOverlap at h
  split at h
  · cases h
    cases g <;> first | rfl | exact absurd rfl hg
  · cases h

theorem withEscalateBelow_names {t : ℚ} (h : p.withEscalateBelow t = .ok q) {g : PolicyGate}
    (hg : g ≠ .escalateBelow) : q.toRaw.names g = p.toRaw.names g := by
  unfold withEscalateBelow at h
  split at h
  · cases h
  · split at h
    · cases h
      cases g <;> first | rfl | exact absurd rfl hg
    · cases h

omit [RustStd] in
theorem setGate_names {α : Type} {set : DecisionPolicy → α → CoreResult DecisionPolicy}
    {gate : Option α} {g : PolicyGate} (own : PolicyGate) (h : setGate set gate p = .ok q)
    (hset : ∀ v, set p v = .ok q → g ≠ own → q.toRaw.names g = p.toRaw.names g)
    (hp : p.toRaw.names g = false) (hg : g = own → gate = none) : q.toRaw.names g = false := by
  cases gate with
  | none =>
    cases h
    exact hp
  | some v =>
    rw [hset v h fun hown => absurd (hg hown) (Option.some_ne_none v)]
    exact hp

theorem new_names {minConfidence verifyBelow abstainBelow : ℚ} {risk : RiskLevel}
    (h : DecisionPolicy.new minConfidence verifyBelow abstainBelow risk = .ok p)
    (g : PolicyGate) : p.toRaw.names g = false := by
  unfold DecisionPolicy.new at h
  split at h
  · cases h
  · split at h
    · cases h
      cases g <;> simp [toRaw, finite, RawDecisionPolicy.names]
    · cases h

/-- A gate the raw form does not name stays disabled. -/
theorem tryFrom_names {raw : RawDecisionPolicy} (h : tryFrom raw = .ok p) {g : PolicyGate}
    (hg : raw.names g = false) : p.toRaw.names g = false := by
  have hnone {α : Type} {o : Option α} (ho : o.isSome = false) : o = none := by simpa using ho
  have hown {own : PolicyGate} (e : g = own) : raw.names own = false := e ▸ hg
  unfold tryFrom at h
  obtain ⟨p0, h0, h⟩ := Result.bind_ok.mp h
  obtain ⟨p1, h1, h⟩ := Result.bind_ok.mp h
  obtain ⟨p2, h2, h⟩ := Result.bind_ok.mp h
  obtain ⟨p3, h3, h⟩ := Result.bind_ok.mp h
  obtain ⟨p4, h4, h⟩ := Result.bind_ok.mp h
  obtain ⟨p5, h5, h⟩ := Result.bind_ok.mp h
  obtain ⟨p6, h6, h⟩ := Result.bind_ok.mp h
  obtain ⟨p7, h7, h⟩ := Result.bind_ok.mp h
  have n0 := new_names h0 g
  have n1 := setGate_names .entropyCeiling h1 (fun _ h => withEntropyCeiling_names h) n0
    fun e => hnone (hown e)
  have n2 := setGate_names .minMargin h2 (fun _ h => withMinMargin_names h) n1
    fun e => hnone (hown e)
  have n3 := setGate_names .oodCeiling h3 (fun _ h => withOodCeiling_names h) n2
    fun e => hnone (hown e)
  have n4 := setGate_names .booleanThreshold h4 (fun _ h => withBooleanThreshold_names h) n3
    fun e => hnone (hown e)
  have n5 := setGate_names .abstainCandidate h5 (fun _ h => withAbstainCandidate_names h) n4
    fun e => hnone (hown e)
  have n6 := setGate_names .maxLabelOverlap h6 (fun _ h => withMaxLabelOverlap_names h) n5
    fun e => hnone (hown e)
  have n7 := setGate_names .escalateBelow h7 (fun _ h => withEscalateBelow_names h) n6
    fun e => hnone (hown e)
  cases h
  by_cases hmode : g = .oodMode
  · subst hmode
    have hraw : raw.oodMode = none := hnone hg
    simp [RawDecisionPolicy.names, toRaw, withOodMode, hraw]
  · rw [← n7]
    cases g <;> first | rfl | exact absurd rfl hmode

end Setters

theorem withMinMargin_zero {p : DecisionPolicy} (h : p.toRaw.names .minMargin = false) :
    p.withMinMargin 0 = .ok p := by
  have hzero : p.minMargin = 0 := by
    by_contra hne
    simp [toRaw, RawDecisionPolicy.names, hne] at h
  cases p
  cases hzero
  rfl

theorem tryFrom_minMargin {raw : RawDecisionPolicy} (h : raw.minMargin = none) :
    tryFrom { raw with minMargin := some 0 } = tryFrom raw := by
  unfold tryFrom
  cases h0 : DecisionPolicy.new raw.minConfidence raw.verifyBelow raw.abstainBelow raw.risk with
  | error e => rfl
  | ok p0 =>
    cases h1 : setGate (fun p c => p.withEntropyCeiling (c : ℚ)) raw.entropyCeiling p0 with
    | error e => simp only [bind, Except.bind, h1]
    | ok p1 =>
      have hnames : p1.toRaw.names .minMargin = false :=
        setGate_names .entropyCeiling h1 (fun _ h => withEntropyCeiling_names h)
          (new_names h0 .minMargin) fun e => nomatch e
      have hzero : setGate withMinMargin (some 0) p1 = .ok p1 := withMinMargin_zero hnames
      have hnone : setGate withMinMargin (none : Option ℚ) p1 = .ok p1 := rfl
      simp only [bind, Except.bind, h1, h, hzero, hnone]

theorem tryFrom_oodMode {raw : RawDecisionPolicy} (h : raw.oodMode = none) :
    tryFrom { raw with oodMode := some .answerEntropy } = tryFrom raw := by
  simp only [tryFrom, h]
  rfl

theorem deserialize_eq_of_map {g : PolicyGate} {value j j' : Json}
    {u : RawDecisionPolicy → RawDecisionPolicy} (h : addAt g.key value [] j = some j')
    (hread : RawDecisionPolicy.deserialize j' = (RawDecisionPolicy.deserialize j).map u)
    (hu : ∀ raw, raw.names g = false → tryFrom (u raw) = tryFrom raw) :
    deserialize j' = deserialize j := by
  obtain ⟨fields, rfl, hg, -⟩ := addAt_nil h
  rw [deserialize, deserialize, hread]
  cases hraw : RawDecisionPolicy.deserialize (.obj fields) with
  | none => rfl
  | some raw =>
    have heq := hu raw (RawDecisionPolicy.names_of_absent hraw hg)
    exact congrArg Except.toOption heq

theorem deserialize_addAt {g : PolicyGate} {value : Value} {j j' : Json}
    (hv : value ∈ g.defaults) (h : addAt g.key value.1 [] j = some j') :
    deserialize j' = deserialize j := by
  have hnone {α : Type} {o : Option α} (ho : o.isSome = false) : o = none := by simpa using ho
  by_cases hnull : value = .null
  · rw [hnull] at h
    rw [deserialize, deserialize, RawDecisionPolicy.deserialize_addAt_null h]
  · cases g with
    | minMargin =>
      have hzero : asOption asFloat value.1 = some (some 0) := by
        simp only [PolicyGate.defaults, List.mem_cons, hnull, false_or, List.not_mem_nil,
          or_false] at hv
        rcases hv with rfl | rfl <;> simp [Value.float, Value.int, asOption, asFloat]
      exact deserialize_eq_of_map h (RawDecisionPolicy.deserialize_addAt_minMargin h hzero)
        fun raw hraw => tryFrom_minMargin (hnone hraw)
    | oodMode =>
      simp only [PolicyGate.defaults, List.mem_cons, hnull, false_or, List.not_mem_nil,
        or_false] at hv
      subst hv
      exact deserialize_eq_of_map h (RawDecisionPolicy.deserialize_addAt_oodMode h)
        fun raw hraw => tryFrom_oodMode (hnone hraw)
    | _ =>
      simp only [PolicyGate.defaults, List.mem_cons, List.not_mem_nil, or_false] at hv
      exact absurd hv hnull

theorem lookup_serialize_absent {fields : List (String × Json)} {p : DecisionPolicy}
    {g : PolicyGate} (h : deserialize (.obj fields) = some p) (hg : lookup fields g.key = none) :
    lookup (Value.structFields p.toRaw.fields) g.key = none := by
  obtain ⟨raw, hraw, hp⟩ := Option.bind_eq_some_iff.mp h
  exact p.toRaw.lookup_serialize (tryFrom_names (Result.toOption_eq_some.mp hp)
    (RawDecisionPolicy.names_of_absent hraw hg))

end DecisionPolicy

end OpenCodifier
