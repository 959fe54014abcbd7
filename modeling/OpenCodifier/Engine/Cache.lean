import Mathlib.Algebra.GroupWithZero.Nat
import Mathlib.Data.List.Sort
import Mathlib.Data.Prod.Lex
import Mathlib.Data.Fin.Basic
import OpenCodifier.Lib.OrdMap
import OpenCodifier.Lib.Extremum
import OpenCodifier.Lib.Recency
import OpenCodifier.Engine.Error
set_option autoImplicit false

namespace OpenCodifier

universe u v

/-- A 256-bit digest, ordered as its big-endian bytes are. -/
abbrev CacheKey := Fin (2 ^ 256)

instance keySpace_neZero : NeZero (2 ^ 256) := ⟨by decide⟩

structure CacheConfig where
  maxEntries : Nat
  ttl : Nat
  deriving DecidableEq

def CacheConfig.default : CacheConfig := ⟨1024, 300000⟩

theorem CacheConfig.default_maxEntries_pos : 0 < CacheConfig.default.maxEntries := by decide

theorem CacheConfig.default_ttl_pos : 0 < CacheConfig.default.ttl := by decide

structure Slot (α : Type v) where
  response : α
  storedAt : Nat
  lastUsed : Nat
  deriving DecidableEq

structure CacheInner (κ : Type u) (α : Type v) [LinearOrder κ] where
  slots : OrdMap κ (Slot α)
  ticks : Nat

/-- Bounded LRU with TTL. The clock reading is an argument of each operation. -/
structure DecisionCache (κ : Type u) (α : Type v) [LinearOrder κ] where
  inner : CacheInner κ α
  config : CacheConfig
  maxEntries_pos : 0 < config.maxEntries
  ttl_pos : 0 < config.ttl

namespace CacheInner

variable {κ : Type u} {α : Type v} [LinearOrder κ]

def empty : CacheInner κ α := ⟨OrdMap.empty, 0⟩

def isExpired (slot : Option (Slot α)) (ttl now : Nat) : Bool :=
  match slot with
  | none => true
  | some slot => ttl ≤ now - slot.storedAt

def purgeExpired (inner : CacheInner κ α) (ttl now : Nat) : CacheInner κ α :=
  { inner with slots := inner.slots.retain fun _ slot => now - slot.storedAt < ttl }

/-- The least recently used key; recency ties break by key. -/
def leastRecentlyUsed (inner : CacheInner κ α) : Option κ :=
  (Extremum.firstMin (fun e => toLex (e.2.lastUsed, e.1)) inner.slots.entries).map Prod.fst

/-- The eviction loop. Each turn removes one slot, so as many turns as there
are slots are enough. -/
def evictWhileFull (maxEntries : Nat) : Nat → CacheInner κ α → CacheInner κ α
  | 0, inner => inner
  | turns + 1, inner =>
    if maxEntries ≤ inner.slots.size then
      match inner.leastRecentlyUsed with
      | none => inner
      | some victim =>
        evictWhileFull maxEntries turns { inner with slots := inner.slots.erase victim }
    else inner

end CacheInner

namespace DecisionCache

variable {κ : Type u} {α : Type v} [LinearOrder κ]

def new (config : CacheConfig) : EngineResult (DecisionCache κ α) :=
  if hm : config.maxEntries = 0 then
    .error (.cacheMisconfigured "max_entries must be at least 1")
  else if ht : config.ttl = 0 then
    .error (.cacheMisconfigured "ttl must be greater than zero")
  else .ok ⟨.empty, config, Nat.pos_of_ne_zero hm, Nat.pos_of_ne_zero ht⟩

def get (cache : DecisionCache κ α) (now : Nat) (key : κ) : DecisionCache κ α × Option α :=
  let inner := cache.inner
  if CacheInner.isExpired (inner.slots.get? key) cache.config.ttl now then
    ({ cache with inner := { inner with slots := inner.slots.erase key } }, none)
  else
    match inner.slots.get? key with
    | none => (cache, none)
    | some slot =>
      let ticks := inner.ticks + 1
      ({ cache with inner := ⟨inner.slots.insert key { slot with lastUsed := ticks }, ticks⟩ },
        some slot.response)

def insert (cache : DecisionCache κ α) (now : Nat) (key : κ) (response : α) :
    DecisionCache κ α :=
  let purged := cache.inner.purgeExpired cache.config.ttl now
  let inner := purged.evictWhileFull cache.config.maxEntries purged.slots.size
  let ticks := inner.ticks + 1
  { cache with inner := ⟨inner.slots.insert key ⟨response, now, ticks⟩, ticks⟩ }

def len (cache : DecisionCache κ α) (now : Nat) : DecisionCache κ α × Nat :=
  let inner := cache.inner.purgeExpired cache.config.ttl now
  ({ cache with inner }, inner.slots.size)

def isEmpty (cache : DecisionCache κ α) (now : Nat) : DecisionCache κ α × Bool :=
  let (cache, n) := cache.len now
  (cache, n = 0)

def clear (cache : DecisionCache κ α) : DecisionCache κ α :=
  { cache with inner := { cache.inner with slots := OrdMap.empty } }

def step (cache : DecisionCache κ α) (op : Nat × Recency.Op κ α) :
    DecisionCache κ α × Recency.Output α :=
  match op.2 with
  | .insert key response => (cache.insert op.1 key response, .done)
  | .get key =>
    let (cache, response) := cache.get op.1 key
    (cache, .found response)
  | .len =>
    let (cache, n) := cache.len op.1
    (cache, .count n)
  | .clear => (cache.clear, .done)

theorem new_isOk_iff (config : CacheConfig) :
    (new config : EngineResult (DecisionCache κ α)).isOk = true ↔
      0 < config.maxEntries ∧ 0 < config.ttl := by
  simp only [new]
  split
  · rename_i h
    simp [Except.isOk, Except.toBool, h]
  · split
    · rename_i h
      simp [Except.isOk, Except.toBool, h]
    · simp only [Except.isOk, Except.toBool, true_iff]
      omega

theorem new_ok {config : CacheConfig} {cache : DecisionCache κ α} (h : new config = .ok cache) :
    cache.inner = .empty ∧ cache.config = config := by
  simp only [new] at h
  split at h
  · cases h
  · split at h
    · cases h
    · cases h
      exact ⟨rfl, rfl⟩

@[simp] theorem step_config (cache : DecisionCache κ α) (op : Nat × Recency.Op κ α) :
    (cache.step op).1.config = cache.config := by
  obtain ⟨now, op⟩ := op
  cases op with
  | insert key response => rfl
  | get key =>
    simp only [step, get]
    split
    · rfl
    · split <;> rfl
  | len => rfl
  | clear => rfl

end DecisionCache

end OpenCodifier
