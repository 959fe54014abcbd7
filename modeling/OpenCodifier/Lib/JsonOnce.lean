import OpenCodifier.Lib.JsonOrder
import OpenCodifier.Lib.JsonParts
set_option autoImplicit false

universe u v

namespace Json

section Recursion

variable {α : Type u} {β : Type v}

def children : Json → List Json
  | .arr items => items
  | .obj fields => fields.map Prod.snd
  | _ => []

mutual

/-- Recursion over a document: a step gets the document and the results of its children. -/
def fold (step : Json → List β → β) : Json → β
  | .arr items => step (.arr items) (foldItems step items)
  | .obj fields => step (.obj fields) (foldFields step fields)
  | .null => step .null []
  | .bool value => step (.bool value) []
  | .num value => step (.num value) []
  | .str value => step (.str value) []

def foldItems (step : Json → List β → β) : List Json → List β
  | [] => []
  | j :: rest => fold step j :: foldItems step rest

def foldFields (step : Json → List β → β) : List (String × Json) → List β
  | [] => []
  | (_, j) :: rest => fold step j :: foldFields step rest

end

theorem foldItems_eq (step : Json → List β → β) (items : List Json) :
    foldItems step items = items.map (fold step) := by
  induction items with
  | nil => rfl
  | cons j rest ih => rw [foldItems, ih, List.map_cons]

theorem foldFields_eq (step : Json → List β → β) (fields : List (String × Json)) :
    foldFields step fields = (fields.map Prod.snd).map (fold step) := by
  induction fields with
  | nil => rfl
  | cons e rest ih => rw [foldFields, ih, List.map_cons, List.map_cons]

theorem fold_eq (step : Json → List β → β) (j : Json) :
    fold step j = step j (j.children.map (fold step)) := by
  cases j with
  | arr items => rw [fold, foldItems_eq, children]
  | obj fields => rw [fold, foldFields_eq, children]
  | _ => rfl

mutual

theorem induct {P : Json → Prop} (h : ∀ j : Json, (∀ c ∈ j.children, P c) → P j) : ∀ j : Json, P j
  | .null => h _ fun _ hc => absurd hc List.not_mem_nil
  | .bool _ => h _ fun _ hc => absurd hc List.not_mem_nil
  | .num _ => h _ fun _ hc => absurd hc List.not_mem_nil
  | .str _ => h _ fun _ hc => absurd hc List.not_mem_nil
  | .arr items => h _ (inductItems h items)
  | .obj fields => h _ (inductFields h fields)

theorem inductItems {P : Json → Prop} (h : ∀ j : Json, (∀ c ∈ j.children, P c) → P j) :
    ∀ items : List Json, ∀ c ∈ items, P c
  | [] => fun _ hc => absurd hc List.not_mem_nil
  | j :: rest => List.forall_mem_cons.mpr ⟨induct h j, inductItems h rest⟩

theorem inductFields {P : Json → Prop} (h : ∀ j : Json, (∀ c ∈ j.children, P c) → P j) :
    ∀ fields : List (String × Json), ∀ c ∈ fields.map Prod.snd, P c
  | [] => fun _ hc => absurd hc List.not_mem_nil
  | (_, j) :: rest => List.forall_mem_cons.mpr ⟨induct h j, inductFields h rest⟩

end

def part (s : Step) (j : Json) (results : List β) : Option β :=
  match j with
  | .obj fields => (((fields.map Prod.fst).zip results).find? fun e => e.1 = s.name).map Prod.snd
  | .arr _ => results[s.index]?
  | _ => none

theorem part_map (s : Step) (j : Json) (g : Json → β) :
    part s j (j.children.map g) = (j.descend s).map g := by
  cases j with
  | obj fields =>
    show (((fields.map Prod.fst).zip ((fields.map Prod.snd).map g)).find? _).map _ =
      (lookup fields s.name).map g
    induction fields with
    | nil => rfl
    | cons e rest ih =>
      by_cases he : e.1 = s.name
      · simp [lookup, he]
      · simpa [lookup, he] using ih
  | arr items => exact List.getElem?_map
  | _ => rfl

theorem mem_children_of_descend {j c : Json} {s : Step} (h : j.descend s = some c) :
    c ∈ j.children := by
  cases j with
  | obj fields =>
    obtain ⟨e, he, rfl⟩ := Option.map_eq_some_iff.mp h
    exact List.mem_map_of_mem (List.mem_of_find?_eq_some he)
  | arr items => exact List.mem_of_getElem? h
  | _ => cases h

end Recursion

section Values

variable {α : Type u} {β : Type v} {read : Json → Option α} {repeats : Json → Bool}

/-- A reader that sees no names. -/
def Nameless (read : Json → Option α) : Prop := ∀ j : Json, read j.normalize = read j

/-- A reader that refuses what repeats a name, and reads the rest as the parsed value. -/
def Rereads (read : Json → Option α) (repeats : Json → Bool) : Prop :=
  ∀ j : Json, read j = if repeats j then none else read j.normalize

theorem Nameless.rereads (h : Nameless read) : Rereads read fun _ => false :=
  fun j => (h j).symm

theorem nameless_asStr : Nameless asStr := fun j => by cases j <;> rfl

theorem nameless_asFloat : Nameless asFloat := fun j => by cases j <;> rfl

theorem nameless_asUnsigned (bits : Nat) : Nameless (asUnsigned bits) := fun j => by
  cases j <;> rfl

theorem Nameless.bind (h : Nameless read) (g : α → Option β) :
    Nameless fun j => (read j).bind g := fun j => congrArg (Option.bind · g) (h j)

theorem Rereads.asOption (h : Rereads read repeats) (hnull : repeats .null = false) :
    Rereads (asOption read) repeats := by
  intro j
  by_cases hj : j = .null
  · rw [hj, hnull]
    rfl
  · have hnormal : j.normalize ≠ .null := by
      cases j with
      | null => exact absurd rfl hj
      | _ => simp [normalize]
    rw [asOption_of_ne_null read hj, asOption_of_ne_null read hnormal, h j]
    split <;> rfl

theorem Nameless.asOption (h : Nameless read) : Nameless (asOption read) :=
  fun j => (h.rereads.asOption rfl j).symm

def repeatsIn (repeats : Json → Bool) : Json → Bool
  | .arr items => items.any repeats
  | _ => false

theorem mapM_normalize {items : List Json}
    (h : ∀ j ∈ items, read j = if repeats j then none else read j.normalize) :
    items.mapM read =
      if items.any repeats then none else (items.map normalize).mapM read := by
  induction items with
  | nil => rfl
  | cons j rest ih =>
    rw [List.mapM_cons, h j List.mem_cons_self, ih fun c hc => h c (List.mem_cons_of_mem _ hc),
      List.any_cons, List.map_cons, List.mapM_cons]
    cases repeats j with
    | true => rfl
    | false =>
      cases rest.any repeats with
      | true => cases read j.normalize <;> rfl
      | false => rfl

theorem asList_normalize {j : Json}
    (h : ∀ c ∈ j.children, read c = if repeats c then none else read c.normalize) :
    asList read j = if repeatsIn repeats j then none else asList read j.normalize := by
  cases j with
  | arr items =>
    rw [normalize, normalizeItems_eq]
    exact mapM_normalize h
  | _ => rfl

theorem Rereads.asList (h : Rereads read repeats) : Rereads (asList read) (repeatsIn repeats) :=
  fun _ => asList_normalize fun c _ => h c

theorem Nameless.asList (h : Nameless read) : Nameless (asList read) := by
  intro j
  have hlist := h.rereads.asList j
  cases j with
  | arr items => exact (hlist.trans (if_neg (by simp [repeatsIn]))).symm
  | _ => rfl

def repeatsName : Json → Bool
  | .obj fields => !decide (fields.map Prod.fst).Nodup
  | _ => false

theorem rereads_asVariant (variants : List (String × α)) :
    Rereads (asVariant variants) repeatsName := by
  intro j
  cases j with
  | obj fields =>
    match fields with
    | [] => rfl
    | [(name, inner)] => cases inner <;> rfl
    | a :: b :: rest =>
      have hrefused : asVariant variants (.obj (a :: b :: rest)) = none := by
        obtain ⟨name, inner⟩ := a
        cases inner <;> rfl
      rw [hrefused]
      split
      · rfl
      · rename_i hnodup
        rw [repeatsName, Bool.not_eq_true', decide_eq_false_iff_not, not_not] at hnodup
        rw [normalize]
        unfold asVariant
        split
        · rename_i hnormal
          cases hnormal
        · rename_i name hnormal
          have hkeys := mem_keys_normalizeFields (a :: b :: rest)
          rw [OrdMap.keys, Json.obj.inj hnormal] at hkeys
          have ha := (hkeys a.1).mpr (by simp)
          have hb := (hkeys b.1).mpr (by simp)
          simp only [List.map_cons, List.map_nil, List.mem_singleton] at ha hb
          simp [ha, hb] at hnodup
        · rfl
  | _ => rfl

end Values

section Structs

variable {α : Type u} {β : Type v} {read : Json → Option α} {repeats : Json → Bool}

namespace Fields

def normalize : Fields → Fields
  | keyed fields => keyed (normalizeFields fields OrdMap.empty).entries
  | positional items => positional (items.map Json.normalize)

theorem once_normalize (names : List String) (f : Fields) : f.normalize.once names = true := by
  cases f with
  | keyed fields =>
    have hnodup : (normalizeFields fields OrdMap.empty).keys.Nodup := OrdMap.nodup_keys _
    simp only [normalize, once, List.all_eq_true, decide_eq_true_eq]
    exact fun name _ => List.nodup_iff_count_le_one.mp hnodup name
  | positional items => rfl

theorem slot_normalize {names : List String} {f : Fields} (h : f.once names = true)
    {name : String} (hname : name ∈ names) (index : Nat) :
    f.normalize.slot name index = (f.slot name index).map Json.normalize := by
  cases f with
  | keyed fields =>
    have hcount : (fields.map Prod.fst).count name ≤ 1 := by
      simp only [once, List.all_eq_true, decide_eq_true_eq] at h
      exact h name hname
    rw [normalize, slot_keyed, lookup_normalizeFields, keep_eq_lookup]
    · rfl
    · rwa [List.count_eq_length_filter] at hcount
  | positional items => exact List.getElem?_map

variable {names : List String} {f : Fields} (h : f.once names = true) {name : String}
  (hname : name ∈ names) (index : Nat)
include h hname

theorem required_normalize (hr : Rereads read repeats) : f.required index name read =
    if (f.slot name index).any repeats then none else f.normalize.required index name read := by
  rw [required, required, slot_normalize h hname]
  cases f.slot name index with
  | none => rfl
  | some j => exact hr j

theorem defaulted_normalize (default : α) (hr : Rereads read repeats) :
    f.defaulted index name default read = if (f.slot name index).any repeats then none
      else f.normalize.defaulted index name default read := by
  rw [defaulted, defaulted, slot_normalize h hname]
  cases f.slot name index with
  | none => rfl
  | some j => exact hr j

theorem required_nameless (hr : Nameless read) :
    f.required index name read = f.normalize.required index name read := by
  rw [required_normalize h hname index hr.rereads]
  cases f.slot name index <;> rfl

theorem defaulted_nameless (default : α) (hr : Nameless read) :
    f.defaulted index name default read = f.normalize.defaulted index name default read := by
  rw [defaulted_normalize h hname index default hr.rereads]
  cases f.slot name index <;> rfl

end Fields

theorem fields?_normalize (count : Nat) (j : Json) :
    j.normalize.fields? count = (j.fields? count).map Fields.normalize := by
  cases j with
  | arr items =>
    rw [normalize, normalizeItems_eq, fields?, fields?, List.length_map]
    split <;> rfl
  | _ => rfl

/-- A derived struct: its own names may not repeat. -/
def asStruct (count : Nat) (names : List String) (read : Fields → Option α) (j : Json) :
    Option α :=
  (j.fields? count).bind fun f => if f.once names then read f else none

def structRepeats (count : Nat) (names : List String) (repeats : Fields → Bool) (j : Json) : Bool :=
  (j.fields? count).any fun f => !f.once names || repeats f

theorem rereads_asStruct {count : Nat} {names : List String} {read read' : Fields → Option α}
    {repeats : Fields → Bool} {j : Json}
    (h : ∀ f, j.fields? count = some f → f.once names = true →
      read f = if repeats f then none else read' f.normalize) :
    asStruct count names read j =
      if structRepeats count names repeats j then none
      else asStruct count names read' j.normalize := by
  rw [asStruct, asStruct, structRepeats, fields?_normalize]
  cases hf : j.fields? count with
  | none => rfl
  | some f =>
    simp only [Option.bind_some, Option.map_some, Option.any_some, Fields.once_normalize, if_true]
    cases honce : f.once names with
    | true => simpa using h f hf honce
    | false => rfl

end Structs

section Tagged

def tagRepeats (tag : String) : Json → Bool
  | .obj fields => !(Fields.keyed fields).once [tag]
  | _ => false

/-- The variant name and the variant's own fields; the tag may not repeat. -/
def untagOnce (tag : String) (j : Json) : Option (String × Json) :=
  if tagRepeats tag j then none else untag tag j

theorem keep_without (fields : List (String × Json)) (tag name : String) :
    keep (without tag fields) name = if name = tag then none else keep fields name := by
  have hreverse : (without tag fields).reverse = without tag fields.reverse := by
    rw [without, without, List.filter_reverse]
  rw [keep, keep, hreverse]
  split
  · rename_i hname
    rw [hname, lookup_without_self]
  · rename_i hname
    exact lookup_without _ hname

theorem without_normalizeFields (fields : List (String × Json)) (tag : String) :
    without tag (normalizeFields fields OrdMap.empty).entries =
      (normalizeFields (without tag fields) OrdMap.empty).entries := by
  have herase : (normalizeFields fields OrdMap.empty).erase tag =
      normalizeFields (without tag fields) OrdMap.empty := by
    refine OrdMap.ext_get? fun name => ?_
    have hkept := lookup_normalizeFields (without tag fields) name
    rw [keep_without] at hkept
    refine Eq.trans ?_ hkept.symm
    show lookup (without tag _) name = _
    split
    · rename_i hname
      rw [hname, lookup_without_self]
      rfl
    · rename_i hname
      rw [lookup_without _ hname, lookup_normalizeFields]
  exact congrArg OrdMap.entries herase

theorem tagRepeats_normalize (tag : String) (j : Json) : tagRepeats tag j.normalize = false := by
  cases j with
  | obj fields =>
    have honce := Fields.once_normalize [tag] (.keyed fields)
    rw [normalize, tagRepeats]
    rw [Fields.normalize] at honce
    rw [honce]
    rfl
  | _ => rfl

theorem untag_normalize {tag : String} {j : Json} (h : tagRepeats tag j = false) :
    untag tag j.normalize = (untag tag j).map fun t => (t.1, t.2.normalize) := by
  cases j with
  | obj fields =>
    rw [tagRepeats, Bool.not_eq_false'] at h
    have hslot := Fields.slot_normalize h List.mem_cons_self 0
    rw [Fields.normalize, Fields.slot_keyed, Fields.slot_keyed] at hslot
    rw [normalize, untag, untag, hslot, without_normalizeFields]
    cases lookup fields tag with
    | none => rfl
    | some j => cases j <;> rfl
  | arr items =>
    rw [normalize, normalizeItems_eq]
    cases items with
    | nil => rfl
    | cons j rest =>
      cases j with
      | str name =>
        have hrest : (Json.arr rest).normalize = .arr (rest.map normalize) := by
          rw [normalize, normalizeItems_eq]
        show some (name, _) = some (name, (Json.arr rest).normalize)
        rw [hrest]
      | _ => rfl
  | _ => rfl

theorem descend_untag {tag name key : String} {j rest : Json} (h : untag tag j = some (name, rest))
    (hkey : key ≠ tag) (index : Nat) :
    rest.descend ⟨key, index⟩ = j.descend ⟨key, index + 1⟩ := by
  unfold untag at h
  split at h
  · rename_i fields
    split at h
    · cases h
      exact lookup_without _ hkey
    · cases h
  · cases h
    rfl
  · cases h

end Tagged

end Json
