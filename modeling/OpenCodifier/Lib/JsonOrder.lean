import OpenCodifier.Lib.JsonPath
set_option autoImplicit false

universe u

namespace Json

/-- The field a parser keeps: the last one under a key. -/
def keep (fields : List (String × Json)) (key : String) : Option Json :=
  lookup fields.reverse key

def member (s : Step) : Json → Option Json
  | .obj fields => keep fields s.name
  | .arr items => items[s.index]?
  | _ => none

theorem keep_cons (key name : String) (j : Json) (rest : List (String × Json)) :
    keep ((key, j) :: rest) name = (keep rest name).or (if name = key then some j else none) := by
  rw [keep, keep, lookup, lookup, List.reverse_cons, List.find?_append, Option.map_or]
  congr 1
  by_cases h : name = key
  · simp [h]
  · simp [h, Ne.symm h]

theorem get?_normalizeFields (fields : List (String × Json)) (m : OrdMap String Json)
    (name : String) : (normalizeFields fields m).get? name =
      ((keep fields name).map normalize).or (m.get? name) := by
  induction fields generalizing m with
  | nil => simp [normalizeFields, keep, lookup]
  | cons e rest ih =>
    obtain ⟨key, j⟩ := e
    rw [normalizeFields, ih, keep_cons, OrdMap.get?_insert, Option.map_or, Option.or_assoc]
    congr 1
    split <;> simp

theorem lookup_normalizeFields (fields : List (String × Json)) (name : String) :
    lookup (normalizeFields fields OrdMap.empty).entries name =
      (keep fields name).map normalize := by
  have h := get?_normalizeFields fields OrdMap.empty name
  rw [OrdMap.get?_empty, Option.or_none] at h
  exact h

theorem normalizeItems_eq (items : List Json) : normalizeItems items = items.map normalize := by
  induction items with
  | nil => rfl
  | cons j rest ih => rw [normalizeItems, ih, List.map_cons]

theorem descend_normalize (j : Json) (s : Step) :
    j.normalize.descend s = (j.member s).map normalize := by
  cases j with
  | obj fields => exact lookup_normalizeFields fields s.name
  | arr items =>
    rw [normalize, normalizeItems_eq]
    exact List.getElem?_map
  | _ => rfl

theorem member_of_descend {j inner : Json} {s : Step} (h : j.normalize.descend s = some inner) :
    ∃ raw, j.member s = some raw ∧ raw.normalize = inner := by
  rw [descend_normalize] at h
  exact Option.map_eq_some_iff.mp h

theorem normalize_eq_obj {j : Json} {fields : List (String × Json)}
    (h : j.normalize = .obj fields) :
    ∃ raw, j = .obj raw ∧ (normalizeFields raw OrdMap.empty).entries = fields := by
  cases j with
  | obj raw =>
    rw [normalize, Json.obj.injEq] at h
    exact ⟨raw, rfl, h⟩
  | _ => simp [normalize] at h

theorem normalize_eq_arr {j : Json} {items : List Json} (h : j.normalize = .arr items) :
    ∃ raw, j = .arr raw ∧ raw.map normalize = items := by
  cases j with
  | arr raw =>
    rw [normalize, normalizeItems_eq, Json.arr.injEq] at h
    exact ⟨raw, rfl, h⟩
  | _ => simp [normalize] at h

theorem keep_isSome (fields : List (String × Json)) (name : String) :
    (keep fields name).isSome = true ↔ name ∈ fields.map Prod.fst := by
  rw [keep, lookup, Option.isSome_map, List.find?_isSome]
  simp [eq_comm]

section Ordered

variable {α : Type u} {read : Json → Option α}

/-- The fields of an object in document order; a repeated key is refused. -/
def asOrdered (read : Json → Option α) : Json → Option (List (String × α))
  | .obj fields => if (fields.map Prod.fst).Nodup then fields.mapM (readField read) else none
  | _ => none

def Fields.distinct (names : List String) : Fields → Bool
  | keyed fields => decide ((fields.map Prod.fst).filter fun name => names.contains name).Nodup
  | positional _ => true

theorem mapM_readField {fields : List (String × Json)} {entries : List (String × α)}
    (h : fields.mapM (readField read) = some entries) :
    entries.map Prod.fst = fields.map Prod.fst ∧
      ∀ e ∈ entries, ∃ field ∈ fields, field.1 = e.1 ∧ read field.2 = some e.2 := by
  induction fields generalizing entries with
  | nil =>
    cases h
    simp
  | cons field fields ih =>
    rw [List.mapM_cons] at h
    obtain ⟨entry, hentry, h⟩ := Option.bind_eq_some_iff.mp h
    obtain ⟨rest, hrest, h⟩ := Option.bind_eq_some_iff.mp h
    obtain ⟨a, ha, rfl⟩ := Option.map_eq_some_iff.mp hentry
    obtain ⟨hkeys, hall⟩ := ih hrest
    cases h
    refine ⟨by rw [List.map_cons, List.map_cons, hkeys], fun e he => ?_⟩
    rcases List.mem_cons.mp he with rfl | he
    · exact ⟨field, List.mem_cons_self, rfl, ha⟩
    · obtain ⟨field', hfield', hread⟩ := hall e he
      exact ⟨field', List.mem_cons_of_mem _ hfield', hread⟩

theorem asOrdered_some {j : Json} {entries : List (String × α)}
    (h : asOrdered read j = some entries) :
    ∃ fields, j = .obj fields ∧ (fields.map Prod.fst).Nodup ∧
      entries.map Prod.fst = fields.map Prod.fst ∧
      ∀ e ∈ entries, ∃ field ∈ fields, field.1 = e.1 ∧ read field.2 = some e.2 := by
  cases j with
  | obj fields =>
    simp only [asOrdered] at h
    split at h
    · exact ⟨fields, rfl, by assumption, mapM_readField h⟩
    · cases h
  | _ => cases h

theorem keep_eq_lookup {fields : List (String × Json)} {name : String}
    (h : ((fields.map Prod.fst).filter fun key => key = name).length ≤ 1) :
    keep fields name = lookup fields name := by
  induction fields with
  | nil => rfl
  | cons e rest ih =>
    obtain ⟨key, j⟩ := e
    rw [keep_cons]
    by_cases hk : key = name
    · subst hk
      have hnone : keep rest key = none := by
        rw [← Option.not_isSome_iff_eq_none, keep_isSome]
        intro hmem
        have hpos : 0 < ((rest.map Prod.fst).filter fun name => name = key).length :=
          List.length_pos_of_mem (List.mem_filter.mpr ⟨hmem, by simp⟩)
        simp only [List.map_cons, decide_true, List.filter_cons_of_pos, List.length_cons] at h
        omega
      simp [hnone, lookup]
    · have hrest : ((rest.map Prod.fst).filter fun key => key = name).length ≤ 1 := by
        simpa [hk] using h
      rw [ih hrest]
      simp [lookup, hk, Ne.symm hk]

theorem keep_of_mem {fields : List (String × Json)} {e : String × Json}
    (hn : (fields.map Prod.fst).Nodup) (he : e ∈ fields) : keep fields e.1 = some e.2 := by
  induction fields with
  | nil => cases he
  | cons e' rest ih =>
    obtain ⟨hnot, hn⟩ := List.nodup_cons.mp hn
    rw [keep_cons]
    rcases List.mem_cons.mp he with rfl | he
    · have hnone : keep rest e.1 = none := by
        rwa [← Option.not_isSome_iff_eq_none, keep_isSome]
      simp [hnone]
    · rw [ih hn he, Option.some_or]

theorem member_eq_descend {count : Nat} {j : Json} {f : Fields} {names : List String} {s : Step}
    (hf : j.fields? count = some f) (hd : f.distinct names = true) (hs : s.name ∈ names) :
    j.member s = j.descend s := by
  cases j with
  | obj fields =>
    cases hf
    refine keep_eq_lookup ?_
    have hn : ((fields.map Prod.fst).filter fun name => names.contains name).Nodup :=
      of_decide_eq_true hd
    have hcount := List.nodup_iff_count_le_one.mp hn s.name
    rw [List.count_filter (by simpa using hs), List.count_eq_length_filter] at hcount
    simpa [beq_eq_decide] using hcount
  | _ => rfl

end Ordered

section Keys

theorem mem_keys_normalizeFields (fields : List (String × Json)) (name : String) :
    name ∈ (normalizeFields fields OrdMap.empty).keys ↔ name ∈ fields.map Prod.fst := by
  rw [← keep_isSome, ← OrdMap.contains_iff, OrdMap.contains, get?_normalizeFields]
  simp

/-- The keys of an object come out in document order exactly when they ascend there. -/
theorem keys_normalizeFields_iff (fields : List (String × Json)) :
    (normalizeFields fields OrdMap.empty).keys = fields.map Prod.fst ↔
      (fields.map Prod.fst).Pairwise (· < ·) := by
  have hsorted : (normalizeFields fields OrdMap.empty).keys.Pairwise (· < ·) :=
    List.pairwise_map.mpr (normalizeFields fields OrdMap.empty).sorted
  constructor
  · intro h
    rwa [h] at hsorted
  · intro h
    refine List.Perm.eq_of_pairwise (fun a b _ _ hab hba => absurd hba (lt_asymm hab)) hsorted h ?_
    refine (List.perm_ext_iff_of_nodup (OrdMap.nodup_keys _) ?_).mpr
      (mem_keys_normalizeFields fields)
    exact h.imp fun hab => ne_of_lt hab

theorem insertSorted_append {fields : List (String × Json)} {key : String} {j : Json}
    (h : ∀ e ∈ fields, e.1 < key) : insertSorted key j fields = fields ++ [(key, j)] := by
  induction fields with
  | nil => rfl
  | cons e rest ih =>
    have he := h e List.mem_cons_self
    rw [insertSorted, if_neg (lt_asymm he), if_neg (ne_of_gt he),
      ih fun e' he' => h e' (List.mem_cons_of_mem _ he'), List.cons_append]

mutual

theorem normalize_of_canonical : ∀ j : Json, j.Canonical → j.normalize = j
  | .null, _ => rfl
  | .bool _, _ => rfl
  | .num _, _ => rfl
  | .str _, _ => rfl
  | .arr items, h => by rw [normalize, normalizeItems_of_canonical items h]
  | .obj fields, h => by
    rw [normalize, normalizeFields_of_canonical fields OrdMap.empty h.1 h.2
      fun _ _ e he => absurd he List.not_mem_nil]
    rfl

theorem normalizeItems_of_canonical : ∀ items : List Json, CanonicalItems items →
    normalizeItems items = items
  | [], _ => rfl
  | j :: rest, h => by
    rw [normalizeItems, normalize_of_canonical j h.1, normalizeItems_of_canonical rest h.2]

theorem normalizeFields_of_canonical : ∀ (fields : List (String × Json))
    (m : OrdMap String Json), (fields.Pairwise fun a b => a.1 < b.1) → CanonicalFields fields →
    (∀ e ∈ fields, ∀ e' ∈ m.entries, e'.1 < e.1) →
    (normalizeFields fields m).entries = m.entries ++ fields
  | [], m, _, _, _ => by rw [normalizeFields, List.append_nil]
  | (key, j) :: rest, m, hsorted, hc, hm => by
    have hinsert : (m.insert key j).entries = m.entries ++ [(key, j)] :=
      insertSorted_append (hm (key, j) List.mem_cons_self)
    rw [normalizeFields, normalize_of_canonical j hc.1,
      normalizeFields_of_canonical rest (m.insert key j) hsorted.of_cons hc.2, hinsert,
      List.append_assoc, List.singleton_append]
    intro e he e' he'
    rw [hinsert] at he'
    rcases List.mem_append.mp he' with he' | he'
    · exact hm e (List.mem_cons_of_mem _ he) e' he'
    · rw [List.mem_singleton.mp he']
      exact List.rel_of_pairwise_cons hsorted he

end

end Keys

end Json
