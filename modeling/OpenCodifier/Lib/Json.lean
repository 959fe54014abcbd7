import Mathlib.Algebra.Group.Int.Defs
import OpenCodifier.Lib.OrdMap
import Mathlib.Data.Rat.Defs
import Mathlib.Data.String.Basic
set_option autoImplicit false

universe u

inductive JsonNumber where
  | int (value : Int)
  | float (value : ℚ)
  deriving DecidableEq

/-- A document: its objects list their fields in document order. -/
inductive Json where
  | null
  | bool (value : Bool)
  | num (value : JsonNumber)
  | str (value : String)
  | arr (items : List Json)
  | obj (fields : List (String × Json))

namespace Json

def lookup (fields : List (String × Json)) (key : String) : Option Json :=
  (fields.find? fun e => e.1 = key).map Prod.snd

def without (tag : String) (fields : List (String × Json)) : List (String × Json) :=
  fields.filter fun e => e.1 ≠ tag

@[simp] theorem lookup_without (fields : List (String × Json)) {key tag : String}
    (h : key ≠ tag) : lookup (without tag fields) key = lookup fields key := by
  rw [lookup, lookup, without, List.find?_filter]
  congr 2
  funext e
  by_cases he : e.1 = key
  · simp [he, h]
  · simp [he]

section Canonical

mutual

/-- Every object has its fields strictly ascending by key. -/
def Canonical : Json → Prop
  | .arr items => CanonicalItems items
  | .obj fields => (fields.Pairwise fun a b => a.1 < b.1) ∧ CanonicalFields fields
  | _ => True

def CanonicalItems : List Json → Prop
  | [] => True
  | j :: rest => Canonical j ∧ CanonicalItems rest

def CanonicalFields : List (String × Json) → Prop
  | [] => True
  | (_, j) :: rest => Canonical j ∧ CanonicalFields rest

end

theorem canonicalItems_iff (items : List Json) :
    CanonicalItems items ↔ ∀ j ∈ items, Canonical j := by
  induction items with
  | nil => simp [CanonicalItems]
  | cons j rest ih => simp [CanonicalItems, ih]

theorem canonicalFields_iff (fields : List (String × Json)) :
    CanonicalFields fields ↔ ∀ e ∈ fields, Canonical e.2 := by
  induction fields with
  | nil => simp [CanonicalFields]
  | cons e rest ih => simp [CanonicalFields, ih]

mutual

/-- What a parser makes of a document: fields sorted by key, the last of equal keys kept. -/
def normalize : Json → Json
  | .arr items => .arr (normalizeItems items)
  | .obj fields => .obj (normalizeFields fields OrdMap.empty).entries
  | j => j

def normalizeItems : List Json → List Json
  | [] => []
  | j :: rest => normalize j :: normalizeItems rest

def normalizeFields : List (String × Json) → OrdMap String Json → OrdMap String Json
  | [], m => m
  | (key, j) :: rest, m => normalizeFields rest (m.insert key (normalize j))

end

mutual

theorem canonical_normalize : ∀ j : Json, (normalize j).Canonical
  | .null => trivial
  | .bool _ => trivial
  | .num _ => trivial
  | .str _ => trivial
  | .arr items => by
    rw [normalize, Canonical]
    exact canonicalItems_normalize items
  | .obj fields => by
    rw [normalize, Canonical]
    refine ⟨(normalizeFields fields OrdMap.empty).sorted, ?_⟩
    exact canonicalFields_normalize fields _ (by simp [OrdMap.empty, CanonicalFields])

theorem canonicalItems_normalize : ∀ items : List Json, CanonicalItems (normalizeItems items)
  | [] => trivial
  | j :: rest => by
    rw [normalizeItems, CanonicalItems]
    exact ⟨canonical_normalize j, canonicalItems_normalize rest⟩

theorem canonicalFields_normalize : ∀ (fields : List (String × Json)) (m : OrdMap String Json),
    CanonicalFields m.entries → CanonicalFields (normalizeFields fields m).entries
  | [], _, hm => hm
  | (key, j) :: rest, m, hm => by
    rw [normalizeFields]
    refine canonicalFields_normalize rest _ ((canonicalFields_iff _).mpr fun e he => ?_)
    rcases mem_insertSorted he with rfl | he
    · exact canonical_normalize j
    · exact (canonicalFields_iff _).mp hm e he

end

end Canonical

section Unknown

mutual

/-- The first key of a document that the reference lacks at its place. -/
def unknownKey : Json → Json → Option String
  | .obj fields, .obj reference => unknownField fields reference
  | .arr items, .arr reference => unknownItem items reference
  | _, _ => none

def unknownField : List (String × Json) → List (String × Json) → Option String
  | [], _ => none
  | (key, j) :: rest, reference =>
    match lookup reference key with
    | none => some key
    | some expected => (unknownKey j expected).or (unknownField rest reference)

def unknownItem : List Json → List Json → Option String
  | j :: rest, expected :: reference => (unknownKey j expected).or (unknownItem rest reference)
  | _, _ => none

end

theorem unknownField_eq_none_iff (fields reference : List (String × Json)) :
    unknownField fields reference = none ↔
      ∀ e ∈ fields, ∃ expected, lookup reference e.1 = some expected ∧
        unknownKey e.2 expected = none := by
  induction fields with
  | nil => simp [unknownField]
  | cons e rest ih =>
    obtain ⟨key, j⟩ := e
    rw [unknownField, List.forall_mem_cons, ← ih]
    cases lookup reference key with
    | none => simp
    | some expected => simp

theorem unknownKey_null (reference : Json) : unknownKey .null reference = none := by
  simp [unknownKey]

theorem lookup_of_mem {fields : List (String × Json)} {e : String × Json}
    (h : fields.Pairwise fun a b => a.1 < b.1) (he : e ∈ fields) :
    lookup fields e.1 = some e.2 :=
  (OrdMap.mem_entries_iff ⟨fields, h⟩ e.1 e.2).mp he

mutual

theorem unknownKey_self : ∀ j : Json, j.Canonical → unknownKey j j = none
  | .null, _ => rfl
  | .bool _, _ => rfl
  | .num _, _ => rfl
  | .str _, _ => rfl
  | .arr items, h => by
    rw [unknownKey]
    exact unknownItem_self items h
  | .obj fields, h => by
    rw [unknownKey, unknownField_eq_none_iff]
    exact fun e he => ⟨e.2, lookup_of_mem h.1 he, unknownField_self fields h.2 e he⟩

theorem unknownItem_self : ∀ items : List Json, CanonicalItems items →
    unknownItem items items = none
  | [], _ => rfl
  | j :: rest, h => by
    rw [unknownItem, unknownKey_self j h.1, unknownItem_self rest h.2]
    rfl

theorem unknownField_self : ∀ fields : List (String × Json), CanonicalFields fields →
    ∀ e ∈ fields, unknownKey e.2 e.2 = none
  | [], _, _, he => absurd he List.not_mem_nil
  | (_, j) :: rest, h, e, he => by
    rcases List.mem_cons.mp he with rfl | he
    · exact unknownKey_self j h.1
    · exact unknownField_self rest h.2 e he

end

end Unknown

section Readers

variable {α : Type u}

def asStr : Json → Option String
  | .str value => some value
  | _ => none

def asBool : Json → Option Bool
  | .bool value => some value
  | _ => none

/-- A float is also read from an integer. -/
def asFloat : Json → Option ℚ
  | .num (.float value) => some value
  | .num (.int value) => some value
  | _ => none

def asUnsigned (bits : Nat) : Json → Option Nat
  | .num (.int value) => if 0 ≤ value ∧ value < 2 ^ bits then some value.toNat else none
  | _ => none

def asI64 : Json → Option Int
  | .num (.int value) => if -2 ^ 63 ≤ value ∧ value < 2 ^ 63 then some value else none
  | _ => none

def asOption (read : Json → Option α) : Json → Option (Option α)
  | .null => some none
  | j => (read j).map some

theorem asOption_of_ne_null (read : Json → Option α) {j : Json} (h : j ≠ .null) :
    asOption read j = (read j).map some := by
  cases j with
  | null => exact absurd rfl h
  | _ => rfl

theorem asOption_some {read : Json → Option α} {j : Json} {a : α}
    (h : asOption read j = some (some a)) : read j = some a := by
  by_cases hj : j = .null
  · subst hj
    cases h
  · rw [asOption_of_ne_null read hj] at h
    obtain ⟨b, hb, hsome⟩ := Option.map_eq_some_iff.mp h
    cases hsome
    exact hb

def asList (read : Json → Option α) : Json → Option (List α)
  | .arr items => items.mapM read
  | _ => none

def readField (read : Json → Option α) (e : String × Json) : Option (String × α) :=
  (read e.2).map fun a => (e.1, a)

def asMap (read : Json → Option α) : Json → Option (OrdMap String α)
  | .obj fields => (fields.mapM (readField read)).map OrdMap.ofList
  | _ => none

/-- A unit variant, by its name or as the single key of an object over null. -/
def asVariant (variants : List (String × α)) : Json → Option α
  | .str name => (variants.find? fun v => v.1 = name).map Prod.snd
  | .obj [(name, .null)] => (variants.find? fun v => v.1 = name).map Prod.snd
  | _ => none

/-- What a derived struct is read from: fields by name, or by position. -/
inductive Fields where
  | keyed (fields : List (String × Json))
  | positional (items : List Json)

/-- Unknown names are skipped, further positions are refused. -/
def fields? (count : Nat) : Json → Option Fields
  | .obj fields => some (.keyed fields)
  | .arr items => if items.length ≤ count then some (.positional items) else none
  | _ => none

namespace Fields

def slot (name : String) (index : Nat) : Fields → Option Json
  | keyed fields => lookup fields name
  | positional items => items[index]?

def required (f : Fields) (index : Nat) (name : String) (read : Json → Option α) : Option α :=
  (f.slot name index).bind read

/-- An optional field without a default of its own: only a keyed one may be missing. -/
def optional (f : Fields) (index : Nat) (name : String) (read : Json → Option α) :
    Option (Option α) :=
  match f.slot name index, f with
  | some j, _ => asOption read j
  | none, keyed _ => some none
  | none, positional _ => none

def defaulted (f : Fields) (index : Nat) (name : String) (default : α)
    (read : Json → Option α) : Option α :=
  match f.slot name index with
  | some j => read j
  | none => some default

@[simp] theorem slot_keyed (fields : List (String × Json)) (name : String) (index : Nat) :
    (keyed fields).slot name index = lookup fields name := rfl

def closed (names : List String) : Fields → Bool
  | keyed fields => fields.all fun e => names.contains e.1
  | positional _ => true

/-- No name of those given is repeated: a struct that is read straight from a text refuses that. -/
def once (names : List String) : Fields → Bool
  | keyed fields => names.all fun name => (fields.map Prod.fst).count name ≤ 1
  | positional _ => true

theorem required_keyed (fields : List (String × Json)) (name : String) (index : Nat)
    (read : Json → Option α) :
    (keyed fields).required index name read = (lookup fields name).bind read := rfl

end Fields

@[simp] theorem fields?_obj (count : Nat) (fields : List (String × Json)) :
    (obj fields).fields? count = some (.keyed fields) := rfl

/-- The variant name under the tag of an internally tagged enum, and what is left of the
document for the variant's own fields. -/
def untag (tag : String) : Json → Option (String × Json)
  | .obj fields =>
    match lookup fields tag with
    | some (.str name) => some (name, .obj (without tag fields))
    | _ => none
  | .arr (.str name :: rest) => some (name, .arr rest)
  | _ => none

end Readers

/-- A document in canonical form: what a parser with sorted maps yields. -/
abbrev Value := {j : Json // j.Canonical}

namespace Value

def null : Value := ⟨.null, trivial⟩

def bool (value : Bool) : Value := ⟨.bool value, trivial⟩

def int (value : Int) : Value := ⟨.num (.int value), trivial⟩

def nat (value : Nat) : Value := int value

def float (value : ℚ) : Value := ⟨.num (.float value), trivial⟩

def str (value : String) : Value := ⟨.str value, trivial⟩

def array (items : List Value) : Value :=
  ⟨.arr (items.map Subtype.val), (canonicalItems_iff _).mpr fun j hj => by
    obtain ⟨v, -, rfl⟩ := List.mem_map.mp hj
    exact v.2⟩

def object (m : OrdMap String Value) : Value :=
  ⟨.obj (m.entries.map fun e => (e.1, e.2.1)), List.pairwise_map.mpr m.sorted,
    (canonicalFields_iff _).mpr fun e he => by
      obtain ⟨e', -, rfl⟩ := List.mem_map.mp he
      exact e'.2.2⟩

/-- The object of a struct; a field without a value is skipped. -/
def struct (fields : List (String × Option Value)) : Value :=
  object (OrdMap.ofList (fields.filterMap fun f => f.2.map fun v => (f.1, v)))

def ofOption (value : Option Value) : Value := value.getD null

def skipIf (skip : Prop) [Decidable skip] (value : Value) : Option Value :=
  if skip then none else some value

def parse (document : Json) : Value := ⟨document.normalize, canonical_normalize document⟩

theorem lookup_object (m : OrdMap String Value) (key : String) :
    lookup (m.entries.map fun e => (e.1, e.2.1)) key = (m.get? key).map Subtype.val := by
  simp [lookup, OrdMap.get?, List.find?_map, Function.comp_def]

theorem find?_filterMap_struct (fields : List (String × Option Value)) (key : String)
    (hn : (fields.map Prod.fst).Nodup) :
    ((fields.filterMap fun f => f.2.map fun v => (f.1, v)).find? fun e => e.1 = key).map Prod.snd =
      (fields.find? fun f => f.1 = key).bind Prod.snd := by
  induction fields with
  | nil => rfl
  | cons f rest ih =>
    obtain ⟨name, value⟩ := f
    obtain ⟨hnot, hrest⟩ := List.nodup_cons.mp hn
    have ih := ih hrest
    by_cases hk : name = key
    · subst hk
      cases value with
      | some v => simp
      | none =>
        have hnone : rest.find? (fun f => f.1 = name) = none := by
          refine List.find?_eq_none.mpr fun f hf he => hnot ?_
          rw [← of_decide_eq_true he]
          exact List.mem_map.mpr ⟨f, hf, rfl⟩
        rw [hnone] at ih
        simpa using ih
    · cases value with
      | some v => simpa [hk] using ih
      | none => simpa [hk] using ih

def structFields (fields : List (String × Option Value)) : List (String × Json) :=
  (OrdMap.ofList (fields.filterMap fun f => f.2.map fun v => (f.1, v))).entries.map
    fun e => (e.1, e.2.1)

@[simp] theorem struct_val (fields : List (String × Option Value)) :
    (struct fields).1 = .obj (structFields fields) := rfl

@[simp] theorem lookup_structFields {fields : List (String × Option Value)} (key : String)
    (hn : (fields.map Prod.fst).Nodup) :
    lookup (structFields fields) key =
      ((fields.find? fun f => f.1 = key).bind Prod.snd).map Subtype.val := by
  rw [structFields, lookup_object, OrdMap.get?_ofList, find?_filterMap_struct fields key hn]
  refine hn.sublist ?_
  clear hn
  induction fields with
  | nil => simp
  | cons f rest ih =>
    obtain ⟨name, value⟩ := f
    cases value with
    | some v => simpa using ih
    | none => simpa using ih.cons name

@[simp] theorem asStr_str (value : String) : asStr (str value).1 = some value := rfl

@[simp] theorem asBool_bool (value : Bool) : asBool (bool value).1 = some value := rfl

@[simp] theorem asFloat_float (value : ℚ) : asFloat (float value).1 = some value := rfl

@[simp] theorem asVariant_str {α : Type u} (variants : List (String × α)) (name : String) :
    asVariant variants (str name).1 = (variants.find? fun v => v.1 = name).map Prod.snd := rfl

theorem asUnsigned_nat {bits value : Nat} (h : value < 2 ^ bits) :
    asUnsigned bits (nat value).1 = some value := by
  have hcast : (value : Int) < 2 ^ bits := by exact_mod_cast h
  simp [nat, int, asUnsigned, hcast]

theorem asI64_int {value : Int} (h : -2 ^ 63 ≤ value ∧ value < 2 ^ 63) :
    asI64 (int value).1 = some value := by
  exact if_pos h

variable {α : Type u} {read : Json → Option α} {write : α → Value}

theorem asOption_ofOption {o : Option α} (hnull : read .null = none)
    (h : ∀ a ∈ o, read (write a).1 = some a) :
    asOption read (ofOption (o.map write)).1 = some o := by
  cases o with
  | none => rfl
  | some a =>
    have ha := h a rfl
    have hne : (write a).1 ≠ .null := by
      intro hw
      rw [hw, hnull] at ha
      cases ha
    have hread := asOption_of_ne_null read hne
    rw [ha] at hread
    exact hread

section Structs

variable {fields : List (String × Option Value)} {name : String}
  (hn : (fields.map Prod.fst).Nodup)

include hn

theorem required_struct {v : Value}
    (h : (fields.find? fun f => f.1 = name) = some (name, some v)) (index : Nat)
    (read : Json → Option α) :
    (Fields.keyed (structFields fields)).required index name read = read v.1 := by
  rw [Fields.required, Fields.slot_keyed, lookup_structFields name hn, h]
  rfl

theorem defaulted_struct {o : Option α}
    (h : (fields.find? fun f => f.1 = name) = some (name, o.map write)) (index : Nat)
    (hnull : read .null = none) (hread : ∀ a ∈ o, read (write a).1 = some a) :
    (Fields.keyed (structFields fields)).defaulted index name none (asOption read) = some o := by
  rw [Fields.defaulted, Fields.slot_keyed, lookup_structFields name hn, h]
  cases o with
  | none => rfl
  | some a =>
    have hsome := asOption_ofOption hnull hread
    exact hsome

/-- A field that is skipped at its default reads back as it was. -/
theorem defaulted_struct_skipIf [DecidableEq α] {a default : α}
    (h : (fields.find? fun f => f.1 = name) =
      some (name, skipIf (a = default) (write a))) (index : Nat)
    (hread : read (write a).1 = some a) :
    (Fields.keyed (structFields fields)).defaulted index name default read = some a := by
  rw [Fields.defaulted, Fields.slot_keyed, lookup_structFields name hn, h]
  by_cases ha : a = default
  · simp [skipIf, ha]
  · simpa [skipIf, ha] using hread

theorem optional_struct {o : Option α}
    (h : (fields.find? fun f => f.1 = name) = some (name, some (ofOption (o.map write))))
    (index : Nat) (hnull : read .null = none) (hread : ∀ a ∈ o, read (write a).1 = some a) :
    (Fields.keyed (structFields fields)).optional index name read = some o := by
  simp only [Fields.optional, Fields.slot_keyed, lookup_structFields name hn, h, Option.bind_some,
    Option.map_some]
  exact asOption_ofOption hnull hread

theorem untag_struct {variant : String}
    (h : (fields.find? fun f => f.1 = name) = some (name, some (str variant))) :
    untag name (struct fields).1 = some (variant, .obj (without name (structFields fields))) := by
  simp [untag, lookup_structFields name hn, h, str]

theorem closed_struct {names : List String} (h : ∀ f ∈ fields, f.1 ∈ names) :
    (Fields.keyed (structFields fields)).closed names = true := by
  have hsorted : (structFields fields).Pairwise fun a b => a.1 < b.1 := (struct fields).2.1
  simp only [Fields.closed, List.all_eq_true, List.contains_iff_mem]
  intro e he
  have hlookup := lookup_of_mem hsorted he
  rw [lookup_structFields e.1 hn] at hlookup
  cases hfind : fields.find? fun f => f.1 = e.1 with
  | none =>
    rw [hfind] at hlookup
    cases hlookup
  | some f =>
    have hname : f.1 = e.1 := by simpa using List.find?_some hfind
    exact hname ▸ h f (List.mem_of_find?_eq_some hfind)

omit hn in
@[simp] theorem once_struct (names : List String) :
    (Fields.keyed (structFields fields)).once names = true := by
  have hsorted : (structFields fields).Pairwise fun a b => a.1 < b.1 := (struct fields).2.1
  have hnodup : ((structFields fields).map Prod.fst).Nodup :=
    List.pairwise_map.mpr (hsorted.imp fun h => h.ne)
  simp only [Fields.once, List.all_eq_true, decide_eq_true_eq]
  exact fun name _ => List.nodup_iff_count_le_one.mp hnodup name

end Structs

theorem asList_array {l : List α} (h : ∀ a ∈ l, read (write a).1 = some a) :
    asList read (array (l.map write)).1 = some l := by
  simp only [array, asList, List.map_map]
  induction l with
  | nil => rfl
  | cons a rest ih =>
    have ih := ih fun b hb => h b (List.mem_cons_of_mem _ hb)
    rw [List.map_cons, List.mapM_cons, Function.comp_apply, h a List.mem_cons_self, ih]
    rfl

theorem asList_array_none {l : List α} (h : ∃ a ∈ l, read (write a).1 = none) :
    asList read (array (l.map write)).1 = none := by
  simp only [array, asList, List.map_map]
  induction l with
  | nil =>
    obtain ⟨a, ha, -⟩ := h
    cases ha
  | cons b rest ih =>
    obtain ⟨a, ha, hnone⟩ := h
    rw [List.map_cons, List.mapM_cons, Function.comp_apply]
    cases hb : read (write b).1 with
    | none => rfl
    | some b' =>
      have hrest : a ∈ rest := by
        rcases List.mem_cons.mp ha with rfl | hrest
        · rw [hnone] at hb
          cases hb
        · exact hrest
      rw [ih ⟨a, hrest, hnone⟩]
      rfl

theorem asMap_object {m : OrdMap String α} (h : ∀ e ∈ m.entries, read (write e.2).1 = some e.2) :
    asMap read (object (m.mapValues fun _ a => write a)).1 = some m := by
  have hentries : ∀ l : List (String × α), (∀ e ∈ l, read (write e.2).1 = some e.2) →
      (l.map fun e => (e.1, (write e.2).1)).mapM (readField read) = some l := by
    intro l hl
    induction l with
    | nil => rfl
    | cons e rest ih =>
      rw [List.map_cons, List.mapM_cons, readField, hl e List.mem_cons_self,
        ih fun b hb => hl b (List.mem_cons_of_mem _ hb)]
      rfl
  have hfold : OrdMap.ofList m.entries = m := by
    refine OrdMap.ext_get? fun k => ?_
    rw [OrdMap.get?_ofList m.nodup_keys]
    rfl
  simp only [object, OrdMap.mapValues, asMap, List.map_map, Function.comp_def]
  rw [hentries m.entries h, Option.map_some, hfold]

end Value

end Json
