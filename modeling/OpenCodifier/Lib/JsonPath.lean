import OpenCodifier.Lib.Json
set_option autoImplicit false

universe u

namespace Json

/-- A field of a struct: its name where the struct is an object, its position in an array. -/
structure Step where
  name : String
  index : Nat

def descend (s : Step) : Json → Option Json
  | .obj fields => lookup fields s.name
  | .arr items => items[s.index]?
  | _ => none

def replace (j : Json) (s : Step) (inner : Json) : Json :=
  match j with
  | .obj fields => .obj (insertSorted s.name inner fields)
  | .arr items => .arr (items.set s.index inner)
  | j => j

/-- Give the object at a path a key it lacks. -/
def addAt (key : String) (value : Json) : List Step → Json → Option Json
  | [], .obj fields =>
    if lookup fields key = none then some (.obj (insertSorted key value fields)) else none
  | [], _ => none
  | s :: path, j => do
    let inner ← j.descend s
    let inner ← addAt key value path inner
    some (j.replace s inner)

/-- Every container on the way is an object. -/
def Keyed : List Step → Json → Prop
  | [], _ => True
  | s :: path, .obj fields => ∃ inner, lookup fields s.name = some inner ∧ Keyed path inner
  | _ :: _, _ => False

theorem lookup_insertSorted (fields : List (String × Json)) (key name : String) (value : Json) :
    lookup (insertSorted key value fields) name =
      if name = key then some value else lookup fields name := by
  by_cases h : name = key
  · subst h
    rw [lookup, OrdMap.find?_insertSorted_self, if_pos rfl]
    rfl
  · rw [lookup, OrdMap.find?_insertSorted_of_ne fields value h, if_neg h]
    rfl

theorem addAt_nil {key : String} {value j j' : Json} (h : addAt key value [] j = some j') :
    ∃ fields, j = .obj fields ∧ lookup fields key = none ∧
      j' = .obj (insertSorted key value fields) := by
  cases j with
  | obj fields =>
    rw [addAt] at h
    split at h
    · cases h
      exact ⟨fields, rfl, by assumption, rfl⟩
    · cases h
  | _ => cases h

theorem addAt_cons {key : String} {value j j' : Json} {s : Step} {path : List Step}
    (h : addAt key value (s :: path) j = some j') :
    ∃ inner inner', j.descend s = some inner ∧ addAt key value path inner = some inner' ∧
      j' = j.replace s inner' := by
  simp only [addAt, Option.bind_eq_bind, Option.bind_eq_some_iff, Option.some.injEq] at h
  obtain ⟨inner, hinner, inner', hadd, rfl⟩ := h
  exact ⟨inner, inner', hinner, hadd, rfl⟩

section Canonical

theorem canonical_insertSorted {fields : List (String × Json)} {key : String} {value : Json}
    (hf : Canonical (.obj fields)) (hv : value.Canonical) :
    Canonical (.obj (insertSorted key value fields)) := by
  refine ⟨insertSorted_pairwise key value hf.1, (canonicalFields_iff _).mpr fun e he => ?_⟩
  rcases mem_insertSorted he with rfl | he
  · exact hv
  · exact (canonicalFields_iff fields).mp hf.2 e he

theorem canonical_descend {j inner : Json} {s : Step} (hj : j.Canonical)
    (h : j.descend s = some inner) : inner.Canonical := by
  cases j with
  | obj fields =>
    obtain ⟨e, he, rfl⟩ := Option.map_eq_some_iff.mp h
    exact (canonicalFields_iff fields).mp hj.2 e (List.mem_of_find?_eq_some he)
  | arr items => exact (canonicalItems_iff items).mp hj inner (List.mem_of_getElem? h)
  | _ => cases h

theorem canonical_replace {j inner : Json} {s : Step} (hj : j.Canonical)
    (hi : inner.Canonical) : (j.replace s inner).Canonical := by
  cases j with
  | obj fields => exact canonical_insertSorted hj hi
  | arr items =>
    refine (canonicalItems_iff _).mpr fun k hk => ?_
    rcases List.mem_or_eq_of_mem_set hk with hk | rfl
    · exact (canonicalItems_iff items).mp hj k hk
    · exact hi
  | _ => exact hj

theorem canonical_addAt {key : String} {value : Json} (hv : value.Canonical) {path : List Step}
    {j j' : Json} (hj : j.Canonical) (h : addAt key value path j = some j') : j'.Canonical := by
  induction path generalizing j j' with
  | nil =>
    obtain ⟨fields, rfl, -, rfl⟩ := addAt_nil h
    exact canonical_insertSorted hj hv
  | cons s path ih =>
    obtain ⟨inner, inner', hinner, hadd, rfl⟩ := addAt_cons h
    exact canonical_replace hj (ih (canonical_descend hj hinner) hadd)

end Canonical

section Compared

/-- The object of the reference that the search for an unknown key compares with the object
at a path. -/
def compared : List Step → Json → Json → Option (List (String × Json))
  | [], .obj _, .obj reference => some reference
  | s :: path, .obj fields, .obj reference => do
    let inner ← lookup fields s.name
    let expected ← lookup reference s.name
    compared path inner expected
  | s :: path, .arr items, .arr reference => do
    let inner ← items[s.index]?
    let expected ← reference[s.index]?
    compared path inner expected
  | _, _, _ => none

theorem unknownField_iff {fields : List (String × Json)} (reference : List (String × Json))
    (hs : fields.Pairwise fun a b => a.1 < b.1) :
    unknownField fields reference = none ↔ ∀ name j, lookup fields name = some j →
      ∃ expected, lookup reference name = some expected ∧ unknownKey j expected = none := by
  rw [unknownField_eq_none_iff]
  constructor
  · intro h name j hlookup
    obtain ⟨e, he, rfl⟩ := Option.map_eq_some_iff.mp hlookup
    have hname : e.1 = name := by simpa using List.find?_some he
    exact hname ▸ h e (List.mem_of_find?_eq_some he)
  · intro h e he
    exact h e.1 e.2 (lookup_of_mem hs he)

theorem unknownItem_iff (items reference : List Json) :
    unknownItem items reference = none ↔ ∀ (i : Nat) (j expected : Json), items[i]? = some j →
      reference[i]? = some expected → unknownKey j expected = none := by
  induction items generalizing reference with
  | nil => simp [unknownItem]
  | cons j items ih =>
    cases reference with
    | nil => simp [unknownItem]
    | cons expected reference =>
      rw [unknownItem, Option.or_eq_none_iff, ih reference]
      constructor
      · intro h i
        cases i with
        | zero => simpa using h.1
        | succ i => simpa using h.2 i
      · intro h
        exact ⟨by simpa using h 0 j expected, fun i => by simpa using h (i + 1)⟩

/-- A field of the document fits under the field of the object with its name. -/
def Fits (object : List (String × Json)) (name : String) (j : Json) : Prop :=
  ∃ expected, lookup object name = some expected ∧ unknownKey j expected = none

theorem unknownKey_insertSorted {fields : List (String × Json)} {key : String} {value : Json}
    (object : List (String × Json)) (hs : fields.Pairwise fun a b => a.1 < b.1) :
    unknownKey (.obj (insertSorted key value fields)) (.obj object) = none ↔
      Fits object key value ∧
        ∀ name j, name ≠ key → lookup fields name = some j → Fits object name j := by
  rw [unknownKey, unknownField_iff object (insertSorted_pairwise key value hs)]
  constructor
  · intro h
    refine ⟨h key value (by simp [lookup_insertSorted]), fun name j hne hlookup => h name j ?_⟩
    rw [lookup_insertSorted, if_neg hne, hlookup]
  · intro h name j hlookup
    rw [lookup_insertSorted] at hlookup
    split at hlookup
    · rename_i hname
      cases hlookup
      exact hname ▸ h.1
    · exact h.2 name j (by assumption) hlookup

theorem unknownKey_obj_split {fields object : List (String × Json)} {key : String} {inner : Json}
    (hs : fields.Pairwise fun a b => a.1 < b.1) (hinner : lookup fields key = some inner) :
    unknownKey (.obj fields) (.obj object) = none ↔ Fits object key inner ∧
      ∀ name j, name ≠ key → lookup fields name = some j → Fits object name j := by
  rw [unknownKey, unknownField_iff object hs]
  constructor
  · intro h
    exact ⟨h key inner hinner, fun name j _ hlookup => h name j hlookup⟩
  · intro h name j hlookup
    by_cases hname : name = key
    · subst hname
      rw [hinner] at hlookup
      cases hlookup
      exact h.1
    · exact h.2 name j hname hlookup

theorem unknownKey_set {items : List Json} {i : Nat} {inner : Json}
    (hinner : items[i]? = some inner) (inner' : Json) (reference : List Json) :
    unknownKey (.arr (items.set i inner')) (.arr reference) = none ↔
      (∀ expected, reference[i]? = some expected → unknownKey inner' expected = none) ∧
        ∀ (k : Nat) (j expected : Json), k ≠ i → items[k]? = some j →
          reference[k]? = some expected → unknownKey j expected = none := by
  have hi : i < items.length := (List.getElem?_eq_some_iff.mp hinner).1
  rw [unknownKey, unknownItem_iff]
  constructor
  · intro h
    refine ⟨fun expected he => h i inner' expected (by simp [hi]) he, fun k j expected hk hj => ?_⟩
    exact h k j expected (by rw [List.getElem?_set_ne (Ne.symm hk), hj])
  · intro h k j expected hj he
    by_cases hk : k = i
    · subst hk
      rw [List.getElem?_set_self hi] at hj
      cases hj
      exact h.1 expected he
    · rw [List.getElem?_set_ne (Ne.symm hk)] at hj
      exact h.2 k j expected hk hj he

theorem set_of_getElem? {items : List Json} {i : Nat} {inner : Json}
    (h : items[i]? = some inner) : items.set i inner = items := by
  obtain ⟨hi, rfl⟩ := List.getElem?_eq_some_iff.mp h
  exact List.set_getElem_self hi

/-- An added key is noticed where it is compared with an object that lacks it, or that has
something it does not fit under. -/
theorem unknownKey_addAt {key : String} {value : Json} {path : List Step} {j j' : Json}
    (hj : j.Canonical) (h : addAt key value path j = some j') (reference : Json) :
    unknownKey j' reference = none ↔ unknownKey j reference = none ∧
      ∀ object ∈ compared path j reference, Fits object key value := by
  induction path generalizing j j' reference with
  | nil =>
    obtain ⟨fields, rfl, hkey, rfl⟩ := addAt_nil h
    cases reference with
    | obj object =>
      have hold : unknownKey (.obj fields) (.obj object) = none ↔
          ∀ name j, name ≠ key → lookup fields name = some j → Fits object name j := by
        rw [unknownKey, unknownField_iff object hj.1]
        constructor
        · exact fun h name j _ hlookup => h name j hlookup
        · intro h name j hlookup
          refine h name j (fun hname => ?_) hlookup
          rw [hname, hkey] at hlookup
          cases hlookup
      rw [unknownKey_insertSorted object hj.1, hold, and_comm]
      simp [compared]
    | _ => simp [unknownKey, compared]
  | cons s path ih =>
    obtain ⟨inner, inner', hinner, hadd, rfl⟩ := addAt_cons h
    have ih := ih (canonical_descend hj hinner) hadd
    cases j with
    | obj fields =>
      cases reference with
      | obj object =>
        have hinner : lookup fields s.name = some inner := hinner
        rw [replace, unknownKey_insertSorted object hj.1, unknownKey_obj_split hj.1 hinner]
        cases hexpected : lookup object s.name with
        | none => simp [Fits, hexpected]
        | some expected =>
          have ih := ih expected
          simp only [Fits, hexpected, compared, hinner, Option.bind_eq_bind, Option.bind_some,
            Option.some.injEq, exists_eq_left'] at ih ⊢
          rw [ih]
          tauto
      | _ => simp [replace, unknownKey, compared]
    | arr items =>
      cases reference with
      | arr reference =>
        have hinner : items[s.index]? = some inner := hinner
        have hold := unknownKey_set hinner inner reference
        rw [set_of_getElem? hinner] at hold
        rw [replace, unknownKey_set hinner inner' reference, hold]
        cases hexpected : reference[s.index]? with
        | none => simp [compared, hexpected, hinner]
        | some expected =>
          have ih := ih expected
          simp only [compared, hinner, hexpected, Option.bind_eq_bind, Option.bind_some,
            Option.some.injEq, forall_eq'] at ih ⊢
          rw [ih]
          tauto
      | _ => simp [replace, unknownKey, compared]
    | _ => cases hinner

end Compared

section Structs

/-- What the search makes of an addition: where the encoder writes the field at its default, or
where some container on the way is an array, the addition is not noticed. -/
def Noticed (path : List Step) (key : String) (value : Json) (written : Bool)
    (j reference : Json) : Prop :=
  (∀ object ∈ compared path j reference, Fits object key value) ↔ written = true ∨ ¬ Keyed path j

variable {key : String} {value : Json} {written : Bool} {refs : List (String × Option Value)}

theorem noticed_skipped {fields : List (String × Json)}
    (hskip : lookup (Value.structFields refs) key = none) :
    Noticed [] key value false (.obj fields) (Value.struct refs).1 := by
  simp [Noticed, compared, Keyed, Fits, hskip]

theorem noticed_written {fields : List (String × Json)} {expected : Json}
    (hwrite : lookup (Value.structFields refs) key = some expected)
    (hfits : unknownKey value expected = none) :
    Noticed [] key value true (.obj fields) (Value.struct refs).1 := by
  simp [Noticed, compared, Keyed, Fits, hwrite, hfits]

theorem noticed_cons {s : Step} {path : List Step} {j inner : Json} (sub : Value)
    (hd : j.descend s = some inner)
    (hsub : lookup (Value.structFields refs) s.name = some sub.1)
    (h : Noticed path key value written inner sub.1) :
    Noticed (s :: path) key value written j (Value.struct refs).1 := by
  cases j with
  | obj fields =>
    have hd : lookup fields s.name = some inner := hd
    simpa [Noticed, compared, Keyed, hd, hsub] using h
  | arr items => simp [Noticed, compared, Keyed]
  | _ => cases hd

end Structs

section Readers

variable {α : Type u} {β : Type} {key name : String} {value : Json} {fields : List (String × Json)}
  {index : Nat} {read : Json → Option α}

theorem fieldsBind_addAt {count : Nat} {F : Fields → Option β} {j j' : Json}
    (h : addAt key value [] j = some j')
    (hF : ∀ fields, lookup fields key = none →
      F (.keyed (insertSorted key value fields)) = F (.keyed fields)) :
    (j'.fields? count >>= F) = (j.fields? count >>= F) := by
  obtain ⟨fields, rfl, hkey, rfl⟩ := addAt_nil h
  exact hF fields hkey

theorem fieldsBind_addAt_map {count : Nat} {F : Fields → Option β} {u : β → β} {j j' : Json}
    (h : addAt key value [] j = some j')
    (hF : ∀ fields, lookup fields key = none →
      F (.keyed (insertSorted key value fields)) = (F (.keyed fields)).map u) :
    (j'.fields? count >>= F) = (j.fields? count >>= F).map u := by
  obtain ⟨fields, rfl, hkey, rfl⟩ := addAt_nil h
  exact hF fields hkey

theorem bind_map_congr {γ : Type} {x : Option γ} {f g : γ → Option β} {u : β → β}
    (h : ∀ a, f a = (g a).map u) : (x >>= f) = (x >>= g).map u := by
  cases x with
  | none => rfl
  | some a => exact h a

theorem bind_some_map {γ : Type} {a b : γ} {f g : γ → Option β} {u : β → β}
    (h : f a = (g b).map u) : (some a >>= f) = (some b >>= g).map u := h

theorem slot_eq_descend {count : Nat} {j : Json} {f : Fields} (h : j.fields? count = some f)
    (s : Step) : f.slot s.name s.index = j.descend s := by
  cases j with
  | obj fields =>
    cases h
    rfl
  | arr items =>
    simp only [fields?] at h
    split at h
    · cases h
      rfl
    · cases h
  | _ => cases h

theorem required_insert (h : name ≠ key) :
    (Fields.keyed (insertSorted key value fields)).required index name read =
      (Fields.keyed fields).required index name read := by
  rw [Fields.required_keyed, Fields.required_keyed, lookup_insertSorted, if_neg h]

theorem defaulted_insert (default : α) (h : name ≠ key) :
    (Fields.keyed (insertSorted key value fields)).defaulted index name default read =
      (Fields.keyed fields).defaulted index name default read := by
  rw [Fields.defaulted, Fields.defaulted, Fields.slot_keyed, Fields.slot_keyed,
    lookup_insertSorted, if_neg h]

theorem optional_insert (h : name ≠ key) :
    (Fields.keyed (insertSorted key value fields)).optional index name read =
      (Fields.keyed fields).optional index name read := by
  simp only [Fields.optional, Fields.slot_keyed, lookup_insertSorted, if_neg h]
  cases lookup fields name <;> rfl

theorem defaulted_insert_self {default : α} (h : lookup fields key = none)
    (hv : read value = some default) :
    (Fields.keyed (insertSorted key value fields)).defaulted index key default read =
      (Fields.keyed fields).defaulted index key default read := by
  simp only [Fields.defaulted, Fields.slot_keyed, lookup_insertSorted, if_true, h, hv]

theorem defaulted_insert_null (h : lookup fields key = none) :
    (Fields.keyed (insertSorted key .null fields)).defaulted index key none (asOption read) =
      (Fields.keyed fields).defaulted index key none (asOption read) :=
  defaulted_insert_self h rfl

theorem optional_insert_self (h : lookup fields key = none) :
    (Fields.keyed (insertSorted key .null fields)).optional index key read =
      (Fields.keyed fields).optional index key read := by
  simp [Fields.optional, lookup_insertSorted, h, asOption]

def Fields.replace (f : Fields) (s : Step) (inner : Json) : Fields :=
  match f with
  | keyed fields => keyed (insertSorted s.name inner fields)
  | positional items => positional (items.set s.index inner)

theorem fieldsBind_replace {count : Nat} {F : Fields → Option β} {s : Step}
    {j inner inner' : Json} (hd : j.descend s = some inner)
    (hF : ∀ f : Fields, f.slot s.name s.index = some inner → F (f.replace s inner') = F f) :
    ((j.replace s inner').fields? count >>= F) = (j.fields? count >>= F) := by
  cases j with
  | obj fields => exact hF (.keyed fields) hd
  | arr items =>
    simp only [replace, fields?, List.length_set]
    split
    · exact hF (.positional items) hd
    · rfl
  | _ => cases hd

theorem slot_replace {f : Fields} {s : Step} {inner : Json} (hn : name ≠ s.name)
    (hi : index ≠ s.index) : (f.replace s inner).slot name index = f.slot name index := by
  cases f with
  | keyed fields => simp [Fields.replace, lookup_insertSorted, hn]
  | positional items => exact List.getElem?_set_ne (Ne.symm hi)

theorem slot_replace_self {f : Fields} {s : Step} {inner inner' : Json}
    (h : f.slot s.name s.index = some inner) :
    (f.replace s inner').slot s.name s.index = some inner' := by
  cases f with
  | keyed fields => simp [Fields.replace, lookup_insertSorted]
  | positional items =>
    exact List.getElem?_set_self (List.getElem?_eq_some_iff.mp h).1

variable {f : Fields} {s : Step} {inner inner' : Json}

theorem required_replace (hn : name ≠ s.name) (hi : index ≠ s.index) :
    (f.replace s inner).required index name read = f.required index name read := by
  rw [Fields.required, Fields.required, slot_replace hn hi]

theorem defaulted_replace (default : α) (hn : name ≠ s.name) (hi : index ≠ s.index) :
    (f.replace s inner).defaulted index name default read =
      f.defaulted index name default read := by
  rw [Fields.defaulted, Fields.defaulted, slot_replace hn hi]

theorem optional_replace (hn : name ≠ s.name) (hi : index ≠ s.index) :
    (f.replace s inner).optional index name read = f.optional index name read := by
  have hslot : (f.replace s inner).slot name index = f.slot name index := slot_replace hn hi
  simp only [Fields.optional, hslot]
  cases f <;> cases Fields.slot name index _ <;> rfl

theorem required_replace_self (h : f.slot s.name s.index = some inner)
    (hr : read inner' = read inner) :
    (f.replace s inner').required s.index s.name read = f.required s.index s.name read := by
  rw [Fields.required, Fields.required, slot_replace_self h, h, Option.bind_some,
    Option.bind_some, hr]

theorem defaulted_replace_self {default : α} (h : f.slot s.name s.index = some inner)
    (hr : read inner' = read inner) :
    (f.replace s inner').defaulted s.index s.name default read =
      f.defaulted s.index s.name default read := by
  simp only [Fields.defaulted, slot_replace_self h, h, hr]

theorem asOption_replace {j : Json} (hd : j.descend s = some inner)
    (hr : read (j.replace s inner') = read j) :
    asOption read (j.replace s inner') = asOption read j := by
  cases j with
  | obj fields => exact congrArg (Option.map some) hr
  | arr items => exact congrArg (Option.map some) hr
  | _ => cases hd

theorem read_of_required {a : α} (h : f.slot s.name s.index = some inner)
    (hr : f.required s.index s.name read = some a) : read inner = some a := by
  rwa [Fields.required, h, Option.bind_some] at hr

theorem read_of_defaulted {a default : α} (h : f.slot s.name s.index = some inner)
    (hr : f.defaulted s.index s.name default read = some a) : read inner = some a := by
  simpa only [Fields.defaulted, h] using hr

theorem default_of_absent {a default : α} (h : lookup fields name = none)
    (hr : (Fields.keyed fields).defaulted index name default read = some a) : a = default := by
  simp only [Fields.defaulted, Fields.slot_keyed, h, Option.some.injEq] at hr
  exact hr.symm

end Readers

end Json
