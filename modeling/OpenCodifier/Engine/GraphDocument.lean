import OpenCodifier.Lib.JsonOnce
import OpenCodifier.Engine.GraphValid
import OpenCodifier.Schema.StateSerde
set_option autoImplicit false

namespace OpenCodifier

open Json

section Facts

namespace FactValue

def deserializeOnce : Json → Option FactValue :=
  asStruct 2 ["kind", "value"] fun f => do
    let read ← f.required 0 "kind" (asVariant contents)
    f.required 1 "value" read

def repeats : Json → Bool :=
  structRepeats 2 ["kind", "value"] fun f => (f.slot "kind" 0).any repeatsName

theorem nameless_contents {j : Json} {read : Json → Option FactValue}
    (h : asVariant contents j = some read) : Nameless read := by
  have hmem : ∃ e ∈ contents, e.2 = read := by
    unfold asVariant at h
    split at h
    · obtain ⟨e, he, rfl⟩ := Option.map_eq_some_iff.mp h
      exact ⟨e, List.mem_of_find?_eq_some he, rfl⟩
    · obtain ⟨e, he, rfl⟩ := Option.map_eq_some_iff.mp h
      exact ⟨e, List.mem_of_find?_eq_some he, rfl⟩
    · cases h
  have hall : ∀ e ∈ contents, Nameless e.2 := by
    simp only [contents, List.forall_mem_cons, List.not_mem_nil, false_imp_iff, implies_true,
      and_true, Option.map_eq_bind]
    exact ⟨nameless_asStr.bind _, Nameless.bind (fun j => by cases j <;> rfl) _,
      nameless_asFloat.bind _, Nameless.bind (fun j => by cases j <;> rfl) _,
      nameless_asStr.asList.bind _⟩
  obtain ⟨e, he, rfl⟩ := hmem
  exact hall e he

theorem rereads : Rereads deserializeOnce repeats := by
  intro j
  refine rereads_asStruct fun f _ honce => ?_
  simp only [Option.bind_eq_bind]
  rw [Fields.required_normalize honce (by simp) 0 (rereads_asVariant contents)]
  split
  · rfl
  · refine Option.bind_congr fun read hread => ?_
    obtain ⟨j, -, hj⟩ := Option.bind_eq_some_iff.mp hread
    exact Fields.required_nameless honce (by simp) 1 (nameless_contents hj)

end FactValue

end Facts

namespace Condition

def compared (make : String → ℚ → Condition) : Json → Option Condition :=
  asStruct 2 ["fact", "value"] fun f => do
    let fact ← f.required 0 "fact" asStr
    let value ← f.required 1 "value" asFloat
    some (make fact value)

def searched (key : String) (make : String → String → Condition) : Json → Option Condition :=
  asStruct 2 ["fact", key] fun f => do
    let fact ← f.required 0 "fact" asStr
    let text ← f.required 1 key asStr
    some (make fact text)

/-- A variant from its own fields and from what its sub-conditions read as. -/
def variant (op : String) (condition : Option Condition) (conditions : Option (List Condition)) :
    Json → Option Condition :=
  match op with
  | "fact_equals" => asStruct 2 ["fact", "value"] fun f => do
    let fact ← f.required 0 "fact" asStr
    let value ← f.required 1 "value" FactValue.deserializeOnce
    some (.factEquals fact value)
  | "fact_gt" => compared .factGt
  | "fact_gte" => compared .factGte
  | "fact_lt" => compared .factLt
  | "fact_lte" => compared .factLte
  | "fact_contains" => searched "needle" .factContains
  | "list_contains" => searched "item" .listContains
  | "fact_exists" => asStruct 1 ["fact"] fun f => (f.required 0 "fact" asStr).map .factExists
  | "all" => asStruct 1 ["conditions"] fun _ => conditions.map .all
  | "any" => asStruct 1 ["conditions"] fun _ => conditions.map .any
  | "not" => asStruct 1 ["condition"] fun _ => condition.map .not
  | _ => fun _ => none

def variantRepeats (op : String) (condition conditions : Bool) : Json → Bool :=
  match op with
  | "fact_equals" => structRepeats 2 ["fact", "value"] fun f =>
    (f.slot "value" 1).any FactValue.repeats
  | "fact_gt" | "fact_gte" | "fact_lt" | "fact_lte" =>
    structRepeats 2 ["fact", "value"] fun _ => false
  | "fact_contains" => structRepeats 2 ["fact", "needle"] fun _ => false
  | "list_contains" => structRepeats 2 ["fact", "item"] fun _ => false
  | "fact_exists" => structRepeats 1 ["fact"] fun _ => false
  | "all" | "any" => structRepeats 1 ["conditions"] fun _ => conditions
  | "not" => structRepeats 1 ["condition"] fun _ => condition
  | _ => fun _ => false

/-- A document as one condition and as a list of them. -/
def readStep (j : Json) (parts : List (Option Condition × Option (List Condition))) :
    Option Condition × Option (List Condition) :=
  ((untagOnce "op" j).bind fun t => variant t.1 ((part ⟨"condition", 1⟩ j parts).bind Prod.fst)
      ((part ⟨"conditions", 1⟩ j parts).bind Prod.snd) t.2,
    match j with
    | .arr _ => parts.mapM Prod.fst
    | _ => none)

def deserialize (j : Json) : Option Condition := (fold readStep j).1

def repeatsStep (j : Json) (parts : List (Bool × Bool)) : Bool × Bool :=
  (tagRepeats "op" j || (untag "op" j).any fun t =>
      variantRepeats t.1 ((part ⟨"condition", 1⟩ j parts).any Prod.fst)
        ((part ⟨"conditions", 1⟩ j parts).any Prod.snd) t.2,
    match j with
    | .arr _ => parts.any Prod.fst
    | _ => false)

def repeats (j : Json) : Bool := (fold repeatsStep j).1

theorem fold_readStep_snd (j : Json) : (fold readStep j).2 = asList deserialize j := by
  rw [fold_eq]
  cases j with
  | arr items => exact List.mapM_map
  | _ => rfl

theorem fold_repeatsStep_snd (j : Json) : (fold repeatsStep j).2 = repeatsIn repeats j := by
  rw [fold_eq]
  cases j with
  | arr items => exact List.any_map
  | _ => rfl

theorem deserialize_eq (j : Json) : deserialize j = (untagOnce "op" j).bind fun t =>
    variant t.1 ((t.2.descend ⟨"condition", 0⟩).bind deserialize)
      ((t.2.descend ⟨"conditions", 0⟩).bind (asList deserialize)) t.2 := by
  have hlist : (fun j => (fold readStep j).2) = asList deserialize := funext fold_readStep_snd
  rw [deserialize, fold_eq]
  show (untagOnce "op" j).bind _ = _
  refine Option.bind_congr fun t ht => ?_
  have ht : untag "op" j = some t := by
    rw [untagOnce] at ht
    split at ht
    · cases ht
    · exact ht
  rw [part_map, part_map, descend_untag ht (by decide), descend_untag ht (by decide),
    Option.bind_map, Option.bind_map, ← hlist]
  rfl

theorem repeats_eq (j : Json) : repeats j = (tagRepeats "op" j || (untag "op" j).any fun t =>
    variantRepeats t.1 ((t.2.descend ⟨"condition", 0⟩).any repeats)
      ((t.2.descend ⟨"conditions", 0⟩).any (repeatsIn repeats)) t.2) := by
  have hlist : (fun j => (fold repeatsStep j).2) = repeatsIn repeats := funext fold_repeatsStep_snd
  rw [repeats, fold_eq]
  show (tagRepeats "op" j || (untag "op" j).any _) = _
  cases ht : untag "op" j with
  | none => rfl
  | some t =>
    rw [Option.any_some, Option.any_some, part_map, part_map, descend_untag ht (by decide),
      descend_untag ht (by decide), Option.any_map, Option.any_map, ← hlist]
    rfl

theorem compared_rereads (make : String → ℚ → Condition) :
    Rereads (compared make) (structRepeats 2 ["fact", "value"] fun _ => false) := by
  intro j
  refine rereads_asStruct fun f _ honce => ?_
  rw [Fields.required_nameless honce (by simp) 0 nameless_asStr,
    Fields.required_nameless honce (by simp) 1 nameless_asFloat]
  rfl

theorem searched_rereads (key : String) (make : String → String → Condition) :
    Rereads (searched key make) (structRepeats 2 ["fact", key] fun _ => false) := by
  intro j
  refine rereads_asStruct fun f _ honce => ?_
  rw [Fields.required_nameless honce (by simp) 0 nameless_asStr,
    Fields.required_nameless honce (by simp) 1 nameless_asStr]
  rfl

theorem variant_normalize {op : String} {rest : Json} {condition condition' : Option Condition}
    {conditions conditions' : Option (List Condition)} {r rs : Bool}
    (h : ∀ f, rest.fields? 1 = some f → f.once ["condition"] = true →
      condition = if r then none else condition')
    (hs : ∀ f, rest.fields? 1 = some f → f.once ["conditions"] = true →
      conditions = if rs then none else conditions') :
    variant op condition conditions rest =
      if variantRepeats op r rs rest then none
      else variant op condition' conditions' rest.normalize := by
  unfold variant
  split
  · refine rereads_asStruct fun f _ honce => ?_
    simp only [Option.bind_eq_bind]
    rw [Fields.required_nameless honce (by simp) 0 nameless_asStr,
      Fields.required_normalize honce (by simp) 1 FactValue.rereads]
    split
    · cases f.normalize.required 0 "fact" asStr <;> rfl
    · rfl
  · exact compared_rereads _ rest
  · exact compared_rereads _ rest
  · exact compared_rereads _ rest
  · exact compared_rereads _ rest
  · exact searched_rereads _ _ rest
  · exact searched_rereads _ _ rest
  · refine rereads_asStruct fun f _ honce => ?_
    rw [Fields.required_nameless honce (by simp) 0 nameless_asStr]
    rfl
  · refine rereads_asStruct fun f hf honce => ?_
    rw [hs f hf honce]
    split <;> rfl
  · refine rereads_asStruct fun f hf honce => ?_
    rw [hs f hf honce]
    split <;> rfl
  · refine rereads_asStruct fun f hf honce => ?_
    rw [h f hf honce]
    split <;> rfl
  · split <;> rfl

theorem descend_normalize_once {α : Type} {read : Json → Option α} {repeats : Json → Bool}
    {rest : Json} {f : Fields} {name : String} (hf : rest.fields? 1 = some f)
    (honce : f.once [name] = true)
    (h : ∀ c, rest.descend ⟨name, 0⟩ = some c →
      read c = if repeats c then none else read c.normalize) :
    (rest.descend ⟨name, 0⟩).bind read =
      if (rest.descend ⟨name, 0⟩).any repeats then none
      else (rest.normalize.descend ⟨name, 0⟩).bind read := by
  have hnormal : rest.normalize.fields? 1 = some f.normalize := by
    rw [fields?_normalize, hf, Option.map_some]
  rw [← slot_eq_descend hnormal ⟨name, 0⟩, Fields.slot_normalize honce List.mem_cons_self,
    slot_eq_descend hf ⟨name, 0⟩]
  cases hc : rest.descend ⟨name, 0⟩ with
  | none => rfl
  | some c => exact h c hc

theorem rereads : Rereads deserialize repeats := by
  refine fun j => (@induct (fun j => (deserialize j =
    if repeats j then none else deserialize j.normalize) ∧ asList deserialize j =
      if repeatsIn repeats j then none else asList deserialize j.normalize) (fun j ih => ?_) j).1
  refine ⟨?_, asList_normalize fun c hc => (ih c hc).1⟩
  rw [deserialize_eq, deserialize_eq j.normalize, repeats_eq, untagOnce, untagOnce]
  cases htag : tagRepeats "op" j with
  | true => rfl
  | false =>
    rw [tagRepeats_normalize, untag_normalize htag]
    cases ht : untag "op" j with
    | none => rfl
    | some t =>
      have hchild : ∀ {name : String} {c : Json}, name ≠ "op" →
          t.2.descend ⟨name, 0⟩ = some c → c ∈ j.children := by
        intro name c hname hc
        rw [descend_untag ht hname] at hc
        exact mem_children_of_descend hc
      exact variant_normalize
        (fun f hf honce => descend_normalize_once hf honce fun c hc =>
          (ih c (hchild (by decide) hc)).1)
        fun f hf honce => descend_normalize_once hf honce fun c hc =>
          (ih c (hchild (by decide) hc)).2

end Condition

section Documents

def NodeKind.variants : List (String × NodeKind) :=
  [.normalize, .rule, .cache, .filter, .lexical, .choice, .boolean, .score, .threshold, .branch,
    .embedding, .retrieve, .rerank, .output].map fun kind => (kind.asStr, kind)

namespace NodeSpec

def names : List String :=
  ["id", "kind", "depends_on", "threshold", "when", "top_n", "floor", "reranker"]

def deserialize : Json → Option NodeSpec :=
  asStruct 8 names fun f => do
    let id ← f.required 0 "id" Ident.deserialize
    let kind ← f.required 1 "kind" (asVariant NodeKind.variants)
    let dependsOn ← f.defaulted 2 "depends_on" [] (asList Ident.deserialize)
    let threshold ← f.defaulted 3 "threshold" none (asOption asFloat)
    let when' ← f.defaulted 4 "when" none (asOption Condition.deserialize)
    let topN ← f.defaulted 5 "top_n" none (asOption (asUnsigned 64))
    let floor ← f.defaulted 6 "floor" none (asOption asFloat)
    let reranker ← f.defaulted 7 "reranker" none (asOption asStr)
    some { id, kind, dependsOn, threshold, when', topN, floor, reranker }

def repeats : Json → Bool :=
  structRepeats 8 names fun f =>
    (f.slot "kind" 1).any repeatsName || (f.slot "when" 4).any Condition.repeats

end NodeSpec

structure GraphDocument where
  version : Nat
  nodes : List NodeSpec

namespace GraphDocument

def deserialize : Json → Option GraphDocument :=
  asStruct 2 ["version", "nodes"] fun f => do
    let version ← f.required 0 "version" (asUnsigned 64)
    let nodes ← f.required 1 "nodes" (asList NodeSpec.deserialize)
    some ⟨version, nodes⟩

def repeats : Json → Bool :=
  structRepeats 2 ["version", "nodes"] fun f => (f.slot "nodes" 1).any (repeatsIn NodeSpec.repeats)

end GraphDocument

def DecisionGraph.tryFrom [RustStd] (document : GraphDocument) : EngineResult DecisionGraph :=
  DecisionGraph.new document.version document.nodes

theorem nameless_ident (kind : IdKind) : Nameless (@Ident.deserialize kind) :=
  nameless_asStr.bind fun value => (Ident.new value).toOption

theorem NodeSpec.rereads : Rereads NodeSpec.deserialize NodeSpec.repeats := by
  intro j
  refine rereads_asStruct fun f _ honce => ?_
  have hwhen : Rereads (asOption Condition.deserialize) Condition.repeats :=
    Condition.rereads.asOption rfl
  rw [Fields.required_nameless honce (by decide) 0 (nameless_ident _),
    Fields.required_normalize honce (by decide) 1 (rereads_asVariant NodeKind.variants),
    Fields.defaulted_nameless honce (by decide) 2 [] (nameless_ident _).asList,
    Fields.defaulted_nameless honce (by decide) 3 none nameless_asFloat.asOption,
    Fields.defaulted_normalize honce (by decide) 4 none hwhen,
    Fields.defaulted_nameless honce (by decide) 5 none (nameless_asUnsigned 64).asOption,
    Fields.defaulted_nameless honce (by decide) 6 none nameless_asFloat.asOption,
    Fields.defaulted_nameless honce (by decide) 7 none nameless_asStr.asOption]
  cases (f.slot "kind" 1).any repeatsName with
  | true => cases f.normalize.required 0 "id" Ident.deserialize <;> rfl
  | false =>
    cases (f.slot "when" 4).any Condition.repeats with
    | true =>
      simp
    | false => rfl

theorem GraphDocument.rereads : Rereads GraphDocument.deserialize GraphDocument.repeats := by
  intro j
  refine rereads_asStruct fun f _ honce => ?_
  rw [Fields.required_nameless honce (by simp) 0 (nameless_asUnsigned 64),
    Fields.required_normalize honce (by simp) 1 NodeSpec.rereads.asList]
  split
  · cases f.normalize.required 0 "version" (asUnsigned 64) <;> rfl
  · rfl

end Documents

end OpenCodifier
