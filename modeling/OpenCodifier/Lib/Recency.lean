import Mathlib.Data.List.Basic
import Mathlib.Data.List.Nodup
set_option autoImplicit false

universe u v

namespace Recency

structure Config where
  capacity : Nat
  ttl : Nat

structure Entry (κ : Type u) (α : Type v) where
  key : κ
  value : α
  storedAt : Nat
  deriving DecidableEq

/-- The head is the least recently used entry. -/
abbrev Store (κ : Type u) (α : Type v) := List (Entry κ α)

inductive Op (κ : Type u) (α : Type v) where
  | insert (k : κ) (x : α)
  | get (k : κ)
  | len
  | clear
  deriving DecidableEq

inductive Output (α : Type v) where
  | done
  | found (x : Option α)
  | count (n : Nat)
  deriving DecidableEq

variable {κ : Type u} {α : Type v} [DecidableEq κ]

def Entry.Alive (ttl now : Nat) (e : Entry κ α) : Prop := now - e.storedAt < ttl

instance (ttl now : Nat) (e : Entry κ α) : Decidable (e.Alive ttl now) :=
  inferInstanceAs (Decidable (_ < _))

def live (ttl now : Nat) (s : Store κ α) : Store κ α := s.filter fun e => e.Alive ttl now

def without (k : κ) (s : Store κ α) : Store κ α := s.filter fun e => e.key ≠ k

def lookup (k : κ) (s : Store κ α) : Option (Entry κ α) := s.find? fun e => e.key = k

/-- Space for one more entry under `k`: its old entry goes, or, when there is
none and the store is full, the least recently used entry. -/
def makeRoom (c : Config) (k : κ) (s : Store κ α) : Store κ α :=
  if (lookup k s).isSome then without k s
  else if c.capacity ≤ s.length then s.tail
  else s

/-- One operation on a store that holds live entries only. -/
def apply (c : Config) (now : Nat) (s : Store κ α) : Op κ α → Store κ α × Output α
  | .insert k x => (makeRoom c k s ++ [⟨k, x, now⟩], .done)
  | .get k =>
    match lookup k s with
    | none => (s, .found none)
    | some e => (without k s ++ [e], .found (some e.value))
  | .len => (s, .count s.length)
  | .clear => ([], .done)

def step (c : Config) (s : Store κ α) (op : Nat × Op κ α) : Store κ α × Output α :=
  apply c op.1 (live c.ttl op.1 s) op.2

def Keyed (s : Store κ α) : Prop := (s.map Entry.key).Nodup

omit [DecidableEq κ] in
theorem mem_live {ttl now : Nat} {s : Store κ α} {e : Entry κ α} :
    e ∈ live ttl now s ↔ e ∈ s ∧ e.Alive ttl now := by
  simp [live]

theorem mem_without {k : κ} {s : Store κ α} {e : Entry κ α} :
    e ∈ without k s ↔ e ∈ s ∧ e.key ≠ k := by
  simp [without]

omit [DecidableEq κ] in
theorem live_live {ttl t t' : Nat} (h : t ≤ t') (s : Store κ α) :
    live ttl t' (live ttl t s) = live ttl t' s := by
  rw [live, live, List.filter_filter]
  refine List.filter_congr fun e _ => ?_
  rw [← Bool.decide_and, decide_eq_decide]
  simp only [Entry.Alive]
  omega

omit [DecidableEq κ] in
theorem live_eq_self {ttl now : Nat} {s : Store κ α} (h : ∀ e ∈ s, e.Alive ttl now) :
    live ttl now s = s :=
  List.filter_eq_self.mpr fun e he => decide_eq_true (h e he)

omit [DecidableEq κ] in
theorem alive_of_mem_live {ttl now : Nat} {s : Store κ α} :
    ∀ e ∈ live ttl now s, e.Alive ttl now :=
  fun _ he => (mem_live.mp he).2

theorem lookup_some {k : κ} {s : Store κ α} {e : Entry κ α} (h : lookup k s = some e) :
    e ∈ s ∧ e.key = k := by
  have hk := List.find?_some h
  exact ⟨List.mem_of_find?_eq_some h, of_decide_eq_true hk⟩

theorem lookup_none_iff {k : κ} {s : Store κ α} : lookup k s = none ↔ ∀ e ∈ s, e.key ≠ k := by
  simp [lookup]

theorem lookup_isSome_iff {k : κ} {s : Store κ α} :
    (lookup k s).isSome = true ↔ ∃ e ∈ s, e.key = k := by
  simp [lookup]

omit [DecidableEq κ] in
theorem Keyed.eq_of_key {s : Store κ α} (h : Keyed s) {e f : Entry κ α} (he : e ∈ s)
    (hf : f ∈ s) (hk : e.key = f.key) : e = f :=
  List.inj_on_of_nodup_map h he hf hk

theorem Keyed.lookup_eq {s : Store κ α} (h : Keyed s) {e : Entry κ α} (he : e ∈ s) :
    lookup e.key s = some e := by
  obtain ⟨f, hf⟩ := Option.isSome_iff_exists.mp (lookup_isSome_iff.mpr ⟨e, he, rfl⟩)
  obtain ⟨hm, hk⟩ := lookup_some hf
  rw [hf, h.eq_of_key hm he hk]

omit [DecidableEq κ] in
theorem Keyed.filter {s : Store κ α} (h : Keyed s) (p : Entry κ α → Bool) : Keyed (s.filter p) :=
  h.sublist (List.filter_sublist.map _)

theorem without_eq_self {k : κ} {s : Store κ α} (h : lookup k s = none) : without k s = s := by
  refine List.filter_eq_self.mpr fun e he => ?_
  simpa using lookup_none_iff.mp h e he

end Recency
