import OpenCodifier.Lib.JsonPath
import OpenCodifier.Lib.Json
set_option autoImplicit false

namespace Json

def get (key : String) : Json → Option Json
  | .obj fields => lookup fields key
  | _ => none

theorem canonical_lookup {fields : List (String × Json)} (hf : Canonical (.obj fields))
    {key : String} {j : Json} (h : lookup fields key = some j) : j.Canonical :=
  @canonical_descend _ _ ⟨key, 0⟩ hf h

theorem canonical_get {key : String} {j inner : Json} (hj : j.Canonical)
    (h : j.get key = some inner) : inner.Canonical := by
  cases j with
  | obj fields => exact canonical_lookup hj h
  | _ => cases h

theorem canonical_without {fields : List (String × Json)} (hf : Canonical (.obj fields))
    (tag : String) : Canonical (.obj (without tag fields)) :=
  ⟨hf.1.sublist List.filter_sublist, (canonicalFields_iff _).mpr fun e he =>
    (canonicalFields_iff _).mp hf.2 e (List.mem_filter.mp he).1⟩

theorem lookup_without_self (fields : List (String × Json)) (tag : String) :
    lookup (without tag fields) tag = none := by
  rw [lookup, without, List.find?_filter, Option.map_eq_none_iff, List.find?_eq_none]
  simp

namespace Value

def get? (v : Value) (key : String) : Option Value :=
  (v.1.get key).pmap Subtype.mk fun _ h => canonical_get v.2 h

theorem val_get? (v : Value) (key : String) : (v.get? key).map Subtype.val = v.1.get key := by
  rw [get?, Option.map_pmap]
  simp

theorem get?_struct {fields : List (String × Option Value)} (hn : (fields.map Prod.fst).Nodup)
    (key : String) :
    (struct fields).get? key = (fields.find? fun f => f.1 = key).bind Prod.snd :=
  Option.map_injective Subtype.val_injective
    ((val_get? _ key).trans (lookup_structFields key hn))

def items? : Value → Option (List Value)
  | ⟨.arr items, h⟩ => some (items.pmap Subtype.mk fun j hj => (canonicalItems_iff items).mp h j hj)
  | _ => none

def insert (v : Value) (key : String) (value : Value) : Value :=
  match v with
  | ⟨.obj fields, h⟩ => ⟨.obj (insertSorted key value.1 fields), canonical_insertSorted h value.2⟩
  | v => v

def remove (v : Value) (key : String) : Value :=
  match v with
  | ⟨.obj fields, h⟩ => ⟨.obj (without key fields), canonical_without h key⟩
  | v => v

theorem get_insert {v : Value} (hv : ∃ fields, v.1 = .obj fields) (key name : String)
    (value : Value) :
    (v.insert key value).1.get name = if name = key then some value.1 else v.1.get name := by
  obtain ⟨fields, hfields⟩ := hv
  obtain ⟨j, hj⟩ := v
  cases hfields
  exact lookup_insertSorted fields key name value.1

theorem get_remove (v : Value) (key name : String) :
    (v.remove key).1.get name = if name = key then none else v.1.get name := by
  obtain ⟨j, hj⟩ := v
  cases j with
  | obj fields =>
    split
    · rename_i hname
      rw [hname]
      exact lookup_without_self fields key
    · rename_i hname
      exact lookup_without fields hname
  | _ => split <;> rfl

theorem get_struct {fields : List (String × Option Value)} (hn : (fields.map Prod.fst).Nodup)
    (key : String) : (struct fields).1.get key =
      ((fields.find? fun f => f.1 = key).bind Prod.snd).map Subtype.val :=
  lookup_structFields key hn

theorem get?_eq_none {v : Value} {key : String} : v.get? key = none ↔ v.1.get key = none := by
  rw [← val_get?, Option.map_eq_none_iff]

theorem get_of_get? {v part : Value} {key : String} (h : v.get? key = some part) :
    v.1.get key = some part.1 := by
  rw [← val_get?, h]
  rfl

theorem object_of_get {j inner : Json} {key : String} (h : j.get key = some inner) :
    ∃ fields, j = .obj fields := by
  cases j with
  | obj fields => exact ⟨fields, rfl⟩
  | _ => cases h

end Value

mutual

def Everywhere (P : Json → Prop) : Json → Prop
  | .arr items => P (.arr items) ∧ EverywhereItems P items
  | .obj fields => P (.obj fields) ∧ EverywhereFields P fields
  | j => P j

def EverywhereItems (P : Json → Prop) : List Json → Prop
  | [] => True
  | j :: rest => Everywhere P j ∧ EverywhereItems P rest

def EverywhereFields (P : Json → Prop) : List (String × Json) → Prop
  | [] => True
  | (_, j) :: rest => Everywhere P j ∧ EverywhereFields P rest

end

theorem everywhereItems_iff {P : Json → Prop} (items : List Json) :
    EverywhereItems P items ↔ ∀ j ∈ items, Everywhere P j := by
  induction items with
  | nil => simp [EverywhereItems]
  | cons j rest ih => simp [EverywhereItems, ih]

theorem everywhereFields_iff {P : Json → Prop} (fields : List (String × Json)) :
    EverywhereFields P fields ↔ ∀ e ∈ fields, Everywhere P e.2 := by
  induction fields with
  | nil => simp [EverywhereFields]
  | cons e rest ih => simp [EverywhereFields, ih]

end Json
