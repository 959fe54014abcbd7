import Mathlib.Order.Lattice
import Mathlib.Order.Basic
import Mathlib.Order.Defs.LinearOrder
import Mathlib.Data.List.Basic
import Mathlib.Data.List.Nodup
import Mathlib.Data.List.Perm.Basic
set_option autoImplicit false

universe u v w

variable {κ : Type u} {α : Type v} {β : Type w} [LinearOrder κ]

/-- Insertion into an association list kept strictly ascending by key; an
entry under the same key is replaced. -/
def insertSorted (k : κ) (x : α) : List (κ × α) → List (κ × α)
  | [] => [(k, x)]
  | e :: rest =>
    if k < e.1 then (k, x) :: e :: rest
    else if k = e.1 then (k, x) :: rest
    else e :: insertSorted k x rest

theorem mem_insertSorted {k : κ} {x : α} {e : κ × α} {l : List (κ × α)}
    (h : e ∈ insertSorted k x l) : e = (k, x) ∨ e ∈ l := by
  induction l with
  | nil => simpa [insertSorted] using h
  | cons a l ih =>
    simp only [insertSorted] at h
    split at h
    · simpa using h
    · split at h
      · simp only [List.mem_cons] at h ⊢
        tauto
      · simp only [List.mem_cons] at h ⊢
        rcases h with h | h
        · exact Or.inr (Or.inl h)
        · rcases ih h with h | h
          · exact Or.inl h
          · exact Or.inr (Or.inr h)

theorem insertSorted_pairwise (k : κ) (x : α) {l : List (κ × α)}
    (h : l.Pairwise fun a b => a.1 < b.1) :
    (insertSorted k x l).Pairwise fun a b => a.1 < b.1 := by
  induction l with
  | nil => simp [insertSorted]
  | cons a l ih =>
    have ha : ∀ b ∈ l, a.1 < b.1 := fun b hb => List.rel_of_pairwise_cons h hb
    simp only [insertSorted]
    split
    · rename_i hk
      refine List.pairwise_cons.mpr ⟨fun b hb => ?_, h⟩
      rcases List.mem_cons.mp hb with rfl | hb
      · exact hk
      · exact hk.trans (ha b hb)
    · split
      · rename_i hk
        exact List.pairwise_cons.mpr ⟨fun b hb => hk ▸ ha b hb, h.of_cons⟩
      · rename_i hlt hne
        refine List.pairwise_cons.mpr ⟨fun b hb => ?_, ih h.of_cons⟩
        rcases mem_insertSorted hb with rfl | hb
        · exact lt_of_le_of_ne (not_lt.mp hlt) (Ne.symm hne)
        · exact ha b hb

/-- A finite map that iterates in ascending key order: the entries carry the
proof that their keys are strictly ascending. -/
structure OrdMap (κ : Type u) (α : Type v) [LinearOrder κ] where
  entries : List (κ × α)
  sorted : entries.Pairwise fun a b => a.1 < b.1

namespace OrdMap

instance [DecidableEq α] : DecidableEq (OrdMap κ α) := fun m n =>
  decidable_of_iff (m.entries = n.entries) (by cases m; cases n; simp)

def empty : OrdMap κ α := ⟨[], List.Pairwise.nil⟩

instance : Inhabited (OrdMap κ α) := ⟨empty⟩

def get? (m : OrdMap κ α) (k : κ) : Option α :=
  (m.entries.find? fun e => e.1 = k).map Prod.snd

def insert (m : OrdMap κ α) (k : κ) (x : α) : OrdMap κ α :=
  ⟨insertSorted k x m.entries, insertSorted_pairwise k x m.sorted⟩

def keys (m : OrdMap κ α) : List κ := m.entries.map Prod.fst

def values (m : OrdMap κ α) : List α := m.entries.map Prod.snd

def contains (m : OrdMap κ α) (k : κ) : Bool := (m.get? k).isSome

def size (m : OrdMap κ α) : Nat := m.entries.length

/-- Later pairs overwrite earlier pairs under the same key. -/
def ofList (l : List (κ × α)) : OrdMap κ α :=
  l.foldl (fun m e => m.insert e.1 e.2) empty

def mapValues (m : OrdMap κ α) (f : κ → α → β) : OrdMap κ β :=
  ⟨m.entries.map fun e => (e.1, f e.1 e.2), List.pairwise_map.mpr m.sorted⟩

def modify (m : OrdMap κ α) (k : κ) (f : α → α) : OrdMap κ α :=
  m.mapValues fun k' x => if k' = k then f x else x

def retain (m : OrdMap κ α) (p : κ → α → Bool) : OrdMap κ α :=
  ⟨m.entries.filter fun e => p e.1 e.2, m.sorted.filter _⟩

def erase (m : OrdMap κ α) (k : κ) : OrdMap κ α := m.retain fun k' _ => k' ≠ k

@[simp] theorem get?_empty (k : κ) : (empty : OrdMap κ α).get? k = none := rfl

theorem find?_insertSorted_self (l : List (κ × α)) (k : κ) (x : α) :
    (insertSorted k x l).find? (fun e => e.1 = k) = some (k, x) := by
  induction l with
  | nil => simp [insertSorted]
  | cons a l ih =>
    simp only [insertSorted]
    split
    · simp
    · split
      · simp
      · rename_i hne
        rw [List.find?_cons_of_neg (by simpa using Ne.symm hne)]
        exact ih

theorem find?_insertSorted_of_ne (l : List (κ × α)) {k k' : κ} (x : α) (h : k' ≠ k) :
    (insertSorted k x l).find? (fun e => e.1 = k') = l.find? fun e => e.1 = k' := by
  induction l with
  | nil => simp [insertSorted, Ne.symm h]
  | cons a l ih =>
    simp only [insertSorted]
    split
    · rw [List.find?_cons_of_neg (by simpa using Ne.symm h)]
    · split
      · rename_i hk
        rw [List.find?_cons_of_neg (by simpa using Ne.symm h),
          List.find?_cons_of_neg (by simpa [← hk] using Ne.symm h)]
      · by_cases ha : a.1 = k'
        · rw [List.find?_cons_of_pos (by simpa using ha),
            List.find?_cons_of_pos (by simpa using ha)]
        · rw [List.find?_cons_of_neg (by simpa using ha),
            List.find?_cons_of_neg (by simpa using ha)]
          exact ih

theorem get?_insert_self (m : OrdMap κ α) (k : κ) (x : α) :
    (m.insert k x).get? k = some x := by
  rw [get?, insert, find?_insertSorted_self]
  rfl

theorem get?_insert_of_ne (m : OrdMap κ α) {k k' : κ} (x : α) (h : k' ≠ k) :
    (m.insert k x).get? k' = m.get? k' := by
  rw [get?, insert, find?_insertSorted_of_ne m.entries x h]
  rfl

theorem get?_insert (m : OrdMap κ α) (k k' : κ) (x : α) :
    (m.insert k x).get? k' = if k' = k then some x else m.get? k' := by
  by_cases h : k' = k
  · subst h
    simp [get?_insert_self]
  · simp [h, get?_insert_of_ne]

theorem nodup_keys (m : OrdMap κ α) : m.keys.Nodup :=
  (List.pairwise_map.mpr m.sorted : m.keys.Pairwise (· < ·)).imp ne_of_lt

theorem mem_entries_iff (m : OrdMap κ α) (k : κ) (x : α) :
    (k, x) ∈ m.entries ↔ m.get? k = some x := by
  obtain ⟨l, hl⟩ := m
  simp only [get?]
  induction l with
  | nil => simp
  | cons a l ih =>
    have ha : ∀ b ∈ l, a.1 < b.1 := fun b hb => List.rel_of_pairwise_cons hl hb
    by_cases hk : a.1 = k
    · rw [List.find?_cons_of_pos (by simpa using hk)]
      simp only [List.mem_cons, Option.map_some, Option.some.injEq]
      constructor
      · rintro (rfl | h)
        · rfl
        · exact absurd hk (ne_of_lt (ha _ h))
      · rintro rfl
        left
        rw [← hk]
    · rw [List.find?_cons_of_neg (by simpa using hk), ← ih hl.of_cons]
      simp only [List.mem_cons, or_iff_right_iff_imp]
      rintro rfl
      exact absurd rfl hk

theorem mem_keys_iff (m : OrdMap κ α) (k : κ) :
    k ∈ m.keys ↔ ∃ x, m.get? k = some x := by
  simp [keys, ← mem_entries_iff]

theorem mem_values_iff (m : OrdMap κ α) (x : α) :
    x ∈ m.values ↔ ∃ k, m.get? k = some x := by
  simp [values, ← mem_entries_iff]

theorem contains_iff (m : OrdMap κ α) (k : κ) : m.contains k = true ↔ k ∈ m.keys := by
  rw [mem_keys_iff, contains, Option.isSome_iff_exists]

theorem ext_get? {m n : OrdMap κ α} (h : ∀ k, m.get? k = n.get? k) : m = n := by
  have hp : m.entries.Perm n.entries := by
    refine (List.perm_ext_iff_of_nodup ?_ ?_).mpr fun e => ?_
    · exact m.sorted.imp fun {a b} (hab : a.1 < b.1) => fun he => ne_of_lt hab (he ▸ rfl)
    · exact n.sorted.imp fun {a b} (hab : a.1 < b.1) => fun he => ne_of_lt hab (he ▸ rfl)
    · obtain ⟨k, x⟩ := e
      rw [mem_entries_iff, mem_entries_iff, h]
  have he : m.entries = n.entries :=
    hp.eq_of_pairwise (fun a b _ _ hab hba => absurd hab (not_lt.mpr (le_of_lt hba)))
      m.sorted n.sorted
  cases m
  cases n
  simp_all

theorem get?_mapValues (m : OrdMap κ α) (f : κ → α → β) (k : κ) :
    (m.mapValues f).get? k = (m.get? k).map (f k) := by
  obtain ⟨l, hl⟩ := m
  simp only [get?, mapValues]
  clear hl
  induction l with
  | nil => simp
  | cons a l ih =>
    simp only [List.map_cons]
    by_cases ha : a.1 = k
    · subst ha
      simp
    · rw [List.find?_cons_of_neg (by simpa using ha),
        List.find?_cons_of_neg (by simpa using ha)]
      exact ih

theorem get?_modify (m : OrdMap κ α) (k k' : κ) (f : α → α) :
    (m.modify k f).get? k' = (m.get? k').map fun x => if k' = k then f x else x :=
  get?_mapValues m _ k'

theorem mapValues_insert (m : OrdMap κ α) (f : κ → α → β) (k : κ) (x : α) :
    (m.insert k x).mapValues f = (m.mapValues f).insert k (f k x) := by
  refine ext_get? fun k' => ?_
  rw [get?_mapValues, get?_insert, get?_insert, get?_mapValues]
  by_cases h : k' = k
  · subst h
    simp
  · simp [h]

theorem mapValues_modify (m : OrdMap κ α) (f : κ → α → β) (k : κ) (g : α → α) (g' : β → β)
    (h : ∀ k x, f k (g x) = g' (f k x)) :
    (m.modify k g).mapValues f = (m.mapValues f).modify k g' := by
  refine ext_get? fun k' => ?_
  rw [get?_mapValues, get?_modify, get?_modify, get?_mapValues]
  by_cases hk : k' = k
  · simp [hk, h, Function.comp_def]
  · simp [hk, Function.comp_def]

theorem get?_foldl_insert (l : List (κ × α)) (m : OrdMap κ α)
    (hl : (l.map Prod.fst).Nodup) (k : κ) :
    (l.foldl (fun m e => m.insert e.1 e.2) m).get? k =
      ((l.find? fun e => e.1 = k).map Prod.snd).or (m.get? k) := by
  induction l generalizing m with
  | nil => simp
  | cons e l ih =>
    rw [List.map_cons, List.nodup_cons] at hl
    rw [List.foldl_cons, ih _ hl.2]
    by_cases he : e.1 = k
    · have hnone : l.find? (fun e => e.1 = k) = none := by
        refine List.find?_eq_none.mpr fun a ha hak => hl.1 ?_
        rw [he, ← of_decide_eq_true hak]
        exact List.mem_map_of_mem ha
      rw [List.find?_cons_of_pos (by simpa using he), hnone]
      subst he
      simp [get?_insert_self]
    · rw [List.find?_cons_of_neg (by simpa using he), get?_insert_of_ne _ _ (Ne.symm he)]

theorem get?_ofList {l : List (κ × α)} (hl : (l.map Prod.fst).Nodup) (k : κ) :
    (ofList l).get? k = (l.find? fun e => e.1 = k).map Prod.snd := by
  rw [ofList, get?_foldl_insert l _ hl, get?_empty, Option.or_none]

theorem get?_ofList_of_mem {l : List (κ × α)} (hl : (l.map Prod.fst).Nodup) {e : κ × α}
    (he : e ∈ l) : (ofList l).get? e.1 = some e.2 := by
  rw [get?_ofList hl]
  cases hfind : l.find? fun e' => e'.1 = e.1 with
  | none => exact absurd (decide_eq_true rfl) (List.find?_eq_none.mp hfind e he)
  | some e' =>
    have hkey : e'.1 = e.1 := by simpa using List.find?_some hfind
    rw [List.inj_on_of_nodup_map hl (List.mem_of_find?_eq_some hfind) he hkey, Option.map_some]

theorem ofList_entries (m : OrdMap κ α) : ofList m.entries = m :=
  ext_get? fun k => get?_ofList m.nodup_keys k

theorem nodup_entries (m : OrdMap κ α) : m.entries.Nodup := by
  refine m.sorted.imp ?_
  intro a b hab he
  exact ne_of_lt hab (he ▸ rfl)

theorem ofList_entries_perm {l : List (κ × α)} (hl : (l.map Prod.fst).Nodup) :
    (ofList l).entries.Perm l := by
  refine (List.perm_ext_iff_of_nodup (ofList l).nodup_entries hl.of_map).mpr fun e => ?_
  obtain ⟨k, x⟩ := e
  rw [mem_entries_iff]
  constructor
  · intro h
    rw [get?_ofList hl] at h
    obtain ⟨e, he, rfl⟩ := Option.map_eq_some_iff.mp h
    have hkey : e.1 = k := by simpa using List.find?_some he
    exact hkey ▸ List.mem_of_find?_eq_some he
  · exact fun h => get?_ofList_of_mem hl h

theorem get?_retain_some {m : OrdMap κ α} {p : κ → α → Bool} {k : κ} {x : α} :
    (m.retain p).get? k = some x ↔ m.get? k = some x ∧ p k x = true := by
  rw [← mem_entries_iff, ← mem_entries_iff]
  simp [retain]

theorem insert_entries_perm (m : OrdMap κ α) (k : κ) (x : α) :
    (m.insert k x).entries.Perm ((k, x) :: m.entries.filter fun e => e.1 ≠ k) := by
  refine (List.perm_ext_iff_of_nodup (m.insert k x).nodup_entries ?_).mpr fun e => ?_
  · refine List.nodup_cons.mpr ⟨?_, m.nodup_entries.filter _⟩
    simp
  · obtain ⟨k', x'⟩ := e
    rw [mem_entries_iff, get?_insert]
    by_cases hk : k' = k
    · subst hk
      simp [eq_comm]
    · simp [hk, mem_entries_iff]

theorem get?_foldl_insert_last {γ : Type w} (key : γ → κ) (value : γ → α) (k : κ)
    [DecidablePred fun e => key e = k] (l : List γ) (m : OrdMap κ α) :
    (l.foldl (fun m e => m.insert (key e) (value e)) m).get? k =
      (((l.filter fun e => key e = k).map value).getLast?).or (m.get? k) := by
  induction l generalizing m with
  | nil => rfl
  | cons e l ih =>
    rw [List.foldl_cons, ih, get?_insert, List.filter_cons]
    by_cases he : key e = k
    · simp only [he, decide_true, if_true, List.map_cons, List.getLast?_cons, Option.some_or]
      cases ((l.filter fun e => key e = k).map value).getLast? <;> rfl
    · simp [he, Ne.symm he]

theorem get?_foldl_insert_cases {γ : Type w} {key : γ → κ} {value : γ → α} {l : List γ}
    {m : OrdMap κ α} {k : κ} {x : α}
    (h : (l.foldl (fun m e => m.insert (key e) (value e)) m).get? k = some x) :
    (∃ e ∈ l, key e = k ∧ value e = x) ∨ (m.get? k = some x ∧ ∀ e ∈ l, key e ≠ k) := by
  induction l generalizing m with
  | nil => exact .inr ⟨h, by simp⟩
  | cons e l ih =>
    rcases ih h with ⟨e', he', hx⟩ | ⟨hm, hkeys⟩
    · exact .inl ⟨e', List.mem_cons_of_mem _ he', hx⟩
    · by_cases hk : key e = k
      · subst hk
        rw [get?_insert_self] at hm
        exact .inl ⟨e, List.mem_cons_self, rfl, Option.some.inj hm⟩
      · rw [get?_insert_of_ne _ _ (Ne.symm hk)] at hm
        exact .inr ⟨hm, List.forall_mem_cons.mpr ⟨hk, hkeys⟩⟩

end OrdMap
