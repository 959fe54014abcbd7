import OpenCodifier.Engine.Cache
set_option autoImplicit false

namespace OpenCodifier

universe u v

variable {κ : Type u} {α : Type v} [LinearOrder κ]

namespace CacheInner

def entryOf (e : κ × Slot α) : Recency.Entry κ α := ⟨e.1, e.2.response, e.2.storedAt⟩

/-- The slots, least recently used first. -/
def byRecency (inner : CacheInner κ α) : List (κ × Slot α) :=
  inner.slots.entries.insertionSort fun a b => a.2.lastUsed ≤ b.2.lastUsed

/-- The reference store that a cache stands for at a clock reading. -/
def contents (inner : CacheInner κ α) (ttl now : Nat) : Recency.Store κ α :=
  Recency.live ttl now (inner.byRecency.map entryOf)

/-- `l` lists the slots in the order of their ticks, none of them from the future. -/
structure Ranked (inner : CacheInner κ α) (l : List (κ × Slot α)) : Prop where
  perm : l.Perm inner.slots.entries
  ascending : l.Pairwise fun a b => a.2.lastUsed < b.2.lastUsed
  past : ∀ e ∈ l, e.2.lastUsed ≤ inner.ticks

theorem ranked_empty (ticks : Nat) : Ranked (⟨OrdMap.empty, ticks⟩ : CacheInner κ α) [] :=
  ⟨List.Perm.refl _, List.Pairwise.nil, by simp⟩

namespace Ranked

variable {inner : CacheInner κ α} {l : List (κ × Slot α)}

theorem lastUsed_inj (h : Ranked inner l) {a b : κ × Slot α} (ha : a ∈ l) (hb : b ∈ l)
    (hab : a.2.lastUsed = b.2.lastUsed) : a = b := by
  have hn : (l.map fun e => e.2.lastUsed).Nodup :=
    (List.pairwise_map.mpr h.ascending).imp fun hlt => ne_of_lt hlt
  exact List.inj_on_of_nodup_map hn ha hb hab

theorem byRecency_eq (h : Ranked inner l) : inner.byRecency = l := by
  have hp : inner.byRecency.Perm l := (List.perm_insertionSort _ _).trans h.perm.symm
  have hs : inner.byRecency.Pairwise fun a b => a.2.lastUsed ≤ b.2.lastUsed :=
    List.pairwise_insertionSort _ _
  refine hp.eq_of_pairwise ?_ hs (h.ascending.imp fun hab => Nat.le_of_lt hab)
  intro a b ha hb hab hba
  exact h.lastUsed_inj (hp.subset ha) hb (Nat.le_antisymm hab hba)

theorem contents_eq (h : Ranked inner l) (ttl now : Nat) :
    inner.contents ttl now = Recency.live ttl now (l.map entryOf) := by
  rw [contents, h.byRecency_eq]

theorem size_eq (h : Ranked inner l) : inner.slots.size = l.length :=
  h.perm.length_eq.symm

theorem retain (h : Ranked inner l) (p : κ → Slot α → Bool) :
    Ranked { inner with slots := inner.slots.retain p } (l.filter fun e => p e.1 e.2) := by
  refine ⟨h.perm.filter _, h.ascending.filter _, ?_⟩
  intro e he
  exact h.past e (List.mem_of_mem_filter he)

/-- Writing a slot with a new tick moves its key to the recent end. -/
theorem insert (h : Ranked inner l) (key : κ) (slot : Slot α)
    (hs : slot.lastUsed = inner.ticks + 1) :
    Ranked ⟨inner.slots.insert key slot, inner.ticks + 1⟩
      (l.filter (fun e => e.1 ≠ key) ++ [(key, slot)]) := by
  have hpast : ∀ e ∈ l.filter (fun e => e.1 ≠ key), e.2.lastUsed ≤ inner.ticks :=
    fun e he => h.past e (List.mem_of_mem_filter he)
  refine ⟨?_, ?_, ?_⟩
  · refine List.Perm.trans ?_ (inner.slots.insert_entries_perm key slot).symm
    exact List.perm_append_singleton _ _ |>.trans ((h.perm.filter _).cons _)
  · refine List.pairwise_append.mpr ⟨h.ascending.filter _, List.pairwise_singleton _ _, ?_⟩
    intro a ha b hb
    have := hpast a ha
    rw [List.mem_singleton.mp hb]
    change a.2.lastUsed < slot.lastUsed
    omega
  · intro e he
    rcases List.mem_append.mp he with he | he
    · exact Nat.le_succ_of_le (hpast e he)
    · rw [List.mem_singleton.mp he]
      exact Nat.le_of_eq hs

theorem leastRecentlyUsed_eq (h : Ranked inner l) :
    inner.leastRecentlyUsed = l.head?.map Prod.fst := by
  cases l with
  | nil =>
    have : inner.slots.entries = [] := h.perm.symm.eq_nil
    simp [leastRecentlyUsed, this, Extremum.firstMin]
  | cons e l =>
    have hmin := Extremum.firstMin_eq_of_unique
      (f := fun e : κ × Slot α => toLex (e.2.lastUsed, e.1))
      (h.perm.subset List.mem_cons_self) fun b hb hne => by
        have hbl : b ∈ l := (List.mem_cons.mp (h.perm.symm.subset hb)).resolve_left hne
        exact Prod.Lex.toLex_lt_toLex.mpr (Or.inl (List.rel_of_pairwise_cons h.ascending hbl))
    simp [leastRecentlyUsed, hmin]

theorem eraseHead (h : Ranked inner l) {e : κ × Slot α} (he : l.head? = some e) :
    Ranked { inner with slots := inner.slots.erase e.1 } l.tail := by
  cases l with
  | nil => cases he
  | cons a l =>
    cases he
    have hk : ((e :: l).map Prod.fst).Nodup := (h.perm.map _).nodup_iff.mpr inner.slots.nodup_keys
    rw [List.map_cons, List.nodup_cons] at hk
    have hf : (e :: l).filter (fun f => f.1 ≠ e.1) = l := by
      rw [List.filter_cons_of_neg (by simp), List.filter_eq_self]
      intro f hf
      have : f.1 ≠ e.1 := fun hfe => hk.1 (hfe ▸ List.mem_map_of_mem hf)
      simpa using this
    have hr := h.retain fun k _ => k ≠ e.1
    rw [hf] at hr
    exact hr

/-- A cache within its capacity loses at most its least recently used slot
to the eviction loop. -/
theorem evictWhileFull {maxEntries : Nat} (hm : 0 < maxEntries) (h : Ranked inner l)
    (hl : l.length ≤ maxEntries) {turns : Nat} (ht : l.length ≤ turns) :
    Ranked (inner.evictWhileFull maxEntries turns)
      (if maxEntries ≤ l.length then l.tail else l) := by
  cases turns with
  | zero =>
    rw [if_neg (by omega)]
    exact h
  | succ turns =>
    rw [CacheInner.evictWhileFull, h.size_eq]
    split
    · cases l with
      | nil => simp at *; omega
      | cons e l =>
        rw [h.leastRecentlyUsed_eq]
        have hr := h.eraseHead rfl
        have hlen : ¬ maxEntries ≤ l.length := by
          rw [List.length_cons] at hl
          omega
        cases turns with
        | zero => exact hr
        | succ turns =>
          rw [List.head?_cons, Option.map_some]
          change Ranked (CacheInner.evictWhileFull _ _ _) l
          rw [CacheInner.evictWhileFull, hr.size_eq, List.tail_cons, if_neg hlen]
          exact hr
    · exact h

end Ranked

namespace Ranked

variable {inner : CacheInner κ α} {l : List (κ × Slot α)}

theorem keyed_contents (h : Ranked inner l) (ttl now : Nat) :
    Recency.Keyed (inner.contents ttl now) := by
  have hk : (l.map Prod.fst).Nodup := (h.perm.map _).nodup_iff.mpr inner.slots.nodup_keys
  have hm : Recency.Keyed (l.map entryOf) := by
    simpa [Recency.Keyed, Function.comp_def, entryOf] using hk
  rw [h.contents_eq]
  exact hm.filter _

theorem mem_contents (h : Ranked inner l) {ttl now : Nat} {e : Recency.Entry κ α} :
    e ∈ inner.contents ttl now ↔ ∃ slot, inner.slots.get? e.key = some slot ∧
      e = entryOf (e.key, slot) ∧ e.Alive ttl now := by
  rw [h.contents_eq, Recency.mem_live, List.mem_map]
  constructor
  · rintro ⟨⟨⟨key, slot⟩, hm, rfl⟩, ha⟩
    exact ⟨slot, (inner.slots.mem_entries_iff _ _).mp (h.perm.subset hm), rfl, ha⟩
  · rintro ⟨slot, hg, he, ha⟩
    refine ⟨⟨(e.key, slot), h.perm.symm.subset ?_, he.symm⟩, ha⟩
    exact (inner.slots.mem_entries_iff _ _).mpr hg

theorem lookup_expired (h : Ranked inner l) {ttl now : Nat} {key : κ}
    (he : isExpired (inner.slots.get? key) ttl now = true) :
    Recency.lookup key (inner.contents ttl now) = none := by
  rw [Recency.lookup_none_iff]
  rintro e hm rfl
  obtain ⟨slot, hg, hs, ha⟩ := h.mem_contents.mp hm
  rw [hs] at ha
  simp only [hg, isExpired, decide_eq_true_eq] at he
  simp only [Recency.Entry.Alive, entryOf] at ha
  omega

theorem lookup_fresh (h : Ranked inner l) {ttl now : Nat} {key : κ} {slot : Slot α}
    (hg : inner.slots.get? key = some slot)
    (he : isExpired (inner.slots.get? key) ttl now = false) :
    Recency.lookup key (inner.contents ttl now) = some (entryOf (key, slot)) := by
  have hm : entryOf (key, slot) ∈ inner.contents ttl now := by
    refine h.mem_contents.mpr ⟨slot, hg, rfl, ?_⟩
    simp only [hg, isExpired, decide_eq_false_iff_not] at he
    simp only [Recency.Entry.Alive, entryOf]
    omega
  exact (h.keyed_contents ttl now).lookup_eq hm

theorem purgeExpired (h : Ranked inner l) (ttl now : Nat) :
    ∃ l', Ranked (inner.purgeExpired ttl now) l' ∧ l'.length ≤ l.length ∧
      l'.map entryOf = inner.contents ttl now := by
  refine ⟨_, h.retain fun _ slot => now - slot.storedAt < ttl, List.length_filter_le _ _, ?_⟩
  rw [h.contents_eq, Recency.live, List.filter_map]
  rfl

end Ranked

end CacheInner

def CacheConfig.reference (config : CacheConfig) : Recency.Config :=
  ⟨config.maxEntries, config.ttl⟩

/-- The space `insert` makes: it evicts before it knows whether the key is
already present. -/
def evictThenDrop (c : Recency.Config) (key : κ) (s : Recency.Store κ α) : Recency.Store κ α :=
  Recency.without key (if c.capacity ≤ s.length then s.tail else s)

/-- Inserting `key` refreshes an entry of a full store whose least recently
used entry is another one. -/
def Refill (c : Recency.Config) (s : Recency.Store κ α) (key : κ) : Prop :=
  (Recency.lookup key s).isSome = true ∧ c.capacity ≤ s.length ∧
    s.head?.map Recency.Entry.key ≠ some key

instance (c : Recency.Config) (s : Recency.Store κ α) (key : κ) : Decidable (Refill c s key) :=
  inferInstanceAs (Decidable (_ ∧ _ ∧ _))

theorem evictThenDrop_eq_iff {c : Recency.Config} {s : Recency.Store κ α}
    (hc : 0 < c.capacity) (key : κ) :
    evictThenDrop c key s = Recency.makeRoom c key s ↔ ¬ Refill c s key := by
  simp only [evictThenDrop, Recency.makeRoom, Refill]
  by_cases hk : (Recency.lookup key s).isSome = true
  · rw [if_pos hk]
    by_cases hfull : c.capacity ≤ s.length
    · rw [if_pos hfull]
      cases s with
      | nil => simp at hfull; omega
      | cons e s =>
        by_cases he : e.key = key
        · simp [Recency.without, he]
        · have hfull' : c.capacity ≤ s.length + 1 := hfull
          simp [hk, hfull', he, Recency.without]
    · simp [hfull]
  · have hn : Recency.lookup key s = none := by simpa using hk
    simp only [hn, Option.isSome_none, Bool.false_eq_true, false_and, not_false_eq_true, iff_true,
      if_false]
    split
    · refine List.filter_eq_self.mpr fun e he => ?_
      simpa using Recency.lookup_none_iff.mp hn e (List.mem_of_mem_tail he)
    · exact Recency.without_eq_self hn

def applyEvictFirst (c : Recency.Config) (now : Nat) (s : Recency.Store κ α) :
    Recency.Op κ α → Recency.Store κ α × Recency.Output α
  | .insert key x => (evictThenDrop c key s ++ [⟨key, x, now⟩], .done)
  | op => Recency.apply c now s op

theorem applyEvictFirst_eq_iff {c : Recency.Config} (hc : 0 < c.capacity) (now : Nat)
    (s : Recency.Store κ α) (op : Recency.Op κ α) :
    applyEvictFirst c now s op = Recency.apply c now s op ↔
      ∀ key x, op = .insert key x → ¬ Refill c s key := by
  cases op with
  | insert key x =>
    simp only [applyEvictFirst, Recency.apply, Prod.mk.injEq, and_true, List.append_left_inj,
      evictThenDrop_eq_iff hc]
    constructor
    · rintro h _ _ ⟨⟩
      exact h
    · intro h
      exact h key x rfl
  | get key => simp [applyEvictFirst]
  | len => simp [applyEvictFirst]
  | clear => simp [applyEvictFirst]

/-- No step of the run refills a full store. -/
def NoRefill (c : Recency.Config) : Recency.Store κ α → List (Nat × Recency.Op κ α) → Prop
  | _, [] => True
  | s, op :: ops =>
    (∀ key x, op.2 = .insert key x → ¬ Refill c (Recency.live c.ttl op.1 s) key) ∧
      NoRefill c (Recency.step c s op).1 ops

namespace DecisionCache

open CacheInner

structure Sound (cache : DecisionCache κ α) (l : List (κ × Slot α)) : Prop where
  ranked : cache.inner.Ranked l
  bounded : l.length ≤ cache.config.maxEntries

def contents (cache : DecisionCache κ α) (now : Nat) : Recency.Store κ α :=
  cache.inner.contents cache.config.ttl now

theorem contents_eq {cache : DecisionCache κ α} {l : List (κ × Slot α)} (h : cache.Sound l)
    (now : Nat) : cache.contents now = Recency.live cache.config.ttl now (l.map entryOf) :=
  h.ranked.contents_eq _ _

theorem map_filter_key (key : κ) (l : List (κ × Slot α)) :
    (l.filter fun e => e.1 ≠ key).map entryOf = Recency.without key (l.map entryOf) := by
  rw [Recency.without, List.filter_map]
  rfl

theorem insert_spec {cache : DecisionCache κ α} {l : List (κ × Slot α)} (h : cache.Sound l)
    (now : Nat) (key : κ) (x : α) :
    (∃ l', (cache.insert now key x).Sound l') ∧
      (cache.insert now key x).contents now =
        evictThenDrop cache.config.reference key (cache.contents now) ++ [⟨key, x, now⟩] := by
  obtain ⟨p, hp, hlen, hmap⟩ := h.ranked.purgeExpired cache.config.ttl now
  have hpos := cache.maxEntries_pos
  have hbound : p.length ≤ cache.config.maxEntries := hlen.trans h.bounded
  have hevict := hp.evictWhileFull hpos hbound (Nat.le_of_eq hp.size_eq.symm)
  have hlen' : (cache.contents now).length = p.length := by
    rw [contents, ← hmap, List.length_map]
  have hroom : ((if cache.config.maxEntries ≤ p.length then p.tail else p).filter
      fun e => e.1 ≠ key).map entryOf =
        evictThenDrop cache.config.reference key (cache.contents now) := by
    rw [map_filter_key, evictThenDrop, hlen', contents, ← hmap, apply_ite (List.map entryOf),
      List.map_tail]
    rfl
  obtain ⟨tick, hs⟩ : ∃ tick, (cache.insert now key x).Sound
      ((if cache.config.maxEntries ≤ p.length then p.tail else p).filter (fun e => e.1 ≠ key) ++
        [(key, ⟨x, now, tick⟩)]) := by
    refine ⟨_, hevict.insert key ⟨x, now, _⟩ rfl, ?_⟩
    rw [List.length_append, List.length_singleton]
    have hf := List.length_filter_le (fun e : κ × Slot α => decide (e.1 ≠ key))
      (if cache.config.maxEntries ≤ p.length then p.tail else p)
    have hlt : (if cache.config.maxEntries ≤ p.length then p.tail else p).length <
        cache.config.maxEntries := by
      split
      · rw [List.length_tail]
        omega
      · omega
    exact Nat.lt_of_le_of_lt hf hlt
  refine ⟨⟨_, hs⟩, ?_⟩
  rw [contents_eq hs, List.map_append, hroom]
  refine Recency.live_eq_self fun e he => ?_
  rcases List.mem_append.mp he with he | he
  · have hm : e ∈ cache.contents now := by
      have := (Recency.mem_without.mp he).1
      split at this
      · exact List.mem_of_mem_tail this
      · exact this
    exact Recency.alive_of_mem_live e hm
  · rw [List.mem_singleton.mp he]
    have := cache.ttl_pos
    simp only [Recency.Entry.Alive, entryOf]
    change now - now < cache.config.ttl
    omega

theorem get_spec {cache : DecisionCache κ α} {l : List (κ × Slot α)} (h : cache.Sound l)
    (now : Nat) (key : κ) :
    (∃ l', (cache.get now key).1.Sound l') ∧
      ((cache.get now key).1.contents now, Recency.Output.found (cache.get now key).2) =
        Recency.apply cache.config.reference now (cache.contents now) (.get key) := by
  cases hex : isExpired (cache.inner.slots.get? key) cache.config.ttl now with
  | true =>
    have hn : Recency.lookup key (cache.contents now) = none := h.ranked.lookup_expired hex
    have hg : cache.get now key = ({ cache with inner :=
        { cache.inner with slots := cache.inner.slots.erase key } }, none) := by
      simp [get, hex]
    have hs : (cache.get now key).1.Sound (l.filter fun e => e.1 ≠ key) := by
      rw [hg]
      exact ⟨h.ranked.retain fun k _ => k ≠ key,
        (List.length_filter_le _ _).trans h.bounded⟩
    have hc : (cache.get now key).1.contents now = cache.contents now := by
      rw [contents_eq hs, map_filter_key, hg]
      rw [contents_eq h] at hn ⊢
      rw [Recency.live, Recency.without, List.filter_comm]
      exact Recency.without_eq_self hn
    refine ⟨⟨_, hs⟩, ?_⟩
    rw [hc]
    simp [Recency.apply, hn, hg]
  | false =>
    obtain ⟨slot, hslot⟩ : ∃ slot, cache.inner.slots.get? key = some slot := by
      cases hslot : cache.inner.slots.get? key with
      | none => simp [hslot, isExpired] at hex
      | some slot => exact ⟨slot, rfl⟩
    have hf : Recency.lookup key (cache.contents now) = some (entryOf (key, slot)) :=
      h.ranked.lookup_fresh hslot hex
    have hg : cache.get now key = ({ cache with inner :=
        ⟨cache.inner.slots.insert key { slot with lastUsed := cache.inner.ticks + 1 },
          cache.inner.ticks + 1⟩ }, some slot.response) := by
      rw [hslot] at hex
      simp [get, hslot, hex]
    have hr := h.ranked.insert key { slot with lastUsed := cache.inner.ticks + 1 } rfl
    have hmem : (key, slot) ∈ l :=
      h.ranked.perm.symm.subset ((cache.inner.slots.mem_entries_iff _ _).mpr hslot)
    have hlt : (l.filter fun e => e.1 ≠ key).length < l.length :=
      List.length_filter_lt_length_iff_exists.mpr ⟨_, hmem, by simp⟩
    have hs : (cache.get now key).1.Sound ((l.filter fun e => e.1 ≠ key) ++
        [(key, { slot with lastUsed := cache.inner.ticks + 1 })]) := by
      rw [hg]
      refine ⟨hr, ?_⟩
      have := h.bounded
      rw [List.length_append, List.length_singleton]
      change _ ≤ cache.config.maxEntries
      omega
    refine ⟨⟨_, hs⟩, ?_⟩
    have ha : (entryOf (key, slot)).Alive cache.config.ttl now :=
      Recency.alive_of_mem_live _ (Recency.lookup_some hf).1
    rw [contents_eq hs, List.map_append, map_filter_key]
    simp only [Recency.apply, hf, hg]
    rw [contents_eq h]
    simp only [Recency.live, Recency.without, List.filter_append, List.map_cons, List.map_nil]
    rw [List.filter_comm]
    congr 2
    exact List.filter_eq_self.mpr fun e he => by
      rw [List.mem_singleton.mp he]
      exact decide_eq_true ha

theorem len_spec {cache : DecisionCache κ α} {l : List (κ × Slot α)} (h : cache.Sound l)
    (now : Nat) :
    (∃ l', (cache.len now).1.Sound l') ∧ (cache.len now).1.contents now = cache.contents now ∧
      (cache.len now).2 = (cache.contents now).length := by
  obtain ⟨p, hp, hlen, hmap⟩ := h.ranked.purgeExpired cache.config.ttl now
  have hs : (cache.len now).1.Sound p := ⟨hp, hlen.trans h.bounded⟩
  refine ⟨⟨_, hs⟩, ?_, ?_⟩
  · rw [contents_eq hs, hmap]
    exact Recency.live_eq_self Recency.alive_of_mem_live
  · rw [contents, ← hmap, List.length_map]
    exact hp.size_eq

theorem clear_spec (cache : DecisionCache κ α) (now : Nat) :
    cache.clear.Sound [] ∧ cache.clear.contents now = [] := by
  have hs : cache.clear.Sound [] := ⟨ranked_empty _, Nat.zero_le _⟩
  exact ⟨hs, contents_eq hs now⟩

theorem sound_step {cache : DecisionCache κ α} {l : List (κ × Slot α)} (h : cache.Sound l)
    (now : Nat) (op : Recency.Op κ α) :
    (∃ l', (cache.step (now, op)).1.Sound l') ∧
      ((cache.step (now, op)).1.contents now, (cache.step (now, op)).2) =
        applyEvictFirst cache.config.reference now (cache.contents now) op := by
  cases op with
  | insert key x =>
    obtain ⟨hs, hc⟩ := insert_spec h now key x
    refine ⟨hs, ?_⟩
    change ((cache.insert now key x).contents now, Recency.Output.done) = _
    rw [hc]
    rfl
  | get key => exact get_spec h now key
  | len =>
    obtain ⟨hs, hc, hn⟩ := len_spec h now
    refine ⟨hs, ?_⟩
    change ((cache.len now).1.contents now, Recency.Output.count (cache.len now).2) = _
    rw [hc, hn]
    rfl
  | clear =>
    obtain ⟨hs, hc⟩ := clear_spec cache now
    refine ⟨⟨[], hs⟩, ?_⟩
    change (cache.clear.contents now, Recency.Output.done) = _
    rw [hc]
    rfl

theorem live_contents (cache : DecisionCache κ α) {t t' : Nat} (h : t ≤ t') :
    Recency.live cache.config.ttl t' (cache.contents t) = cache.contents t' :=
  Recency.live_live h _

/-- Over a run, every answer is the reference store's, the live entries and
their order of recency are the reference store's, and the capacity is kept. -/
def Refines : DecisionCache κ α → Recency.Store κ α → List (Nat × Recency.Op κ α) → Prop
  | _, _, [] => True
  | cache, s, op :: ops =>
    (cache.step op).2 = (Recency.step cache.config.reference s op).2 ∧
      (cache.step op).1.contents op.1 = (Recency.step cache.config.reference s op).1 ∧
      (cache.step op).1.inner.slots.size ≤ cache.config.maxEntries ∧
      Refines (cache.step op).1 (Recency.step cache.config.reference s op).1 ops

theorem refines_iff_of_sound {cache : DecisionCache κ α} {l : List (κ × Slot α)}
    (h : cache.Sound l) {s : Recency.Store κ α} {ops : List (Nat × Recency.Op κ α)}
    (hs : ∀ op ∈ ops, cache.contents op.1 = Recency.live cache.config.ttl op.1 s)
    (hclock : ops.Pairwise fun a b => a.1 ≤ b.1) :
    cache.Refines s ops ↔ NoRefill cache.config.reference s ops := by
  induction ops generalizing cache l s with
  | nil => exact Iff.rfl
  | cons op ops ih =>
    obtain ⟨now, op⟩ := op
    obtain ⟨⟨l', hl'⟩, heq⟩ := sound_step h now op
    have hsize : (cache.step (now, op)).1.inner.slots.size ≤ cache.config.maxEntries := by
      rw [hl'.ranked.size_eq]
      simpa using hl'.bounded
    have hnow : cache.contents now = Recency.live cache.config.ttl now s :=
      hs _ List.mem_cons_self
    rw [hnow] at heq
    have hstep := applyEvictFirst_eq_iff (c := cache.config.reference) cache.maxEntries_pos now
      (Recency.live cache.config.ttl now s) op
    have hnext : (cache.step (now, op)).1.contents now =
        (Recency.step cache.config.reference s (now, op)).1 →
        ((cache.step (now, op)).1.Refines (Recency.step cache.config.reference s (now, op)).1 ops ↔
          NoRefill cache.config.reference
            (Recency.step cache.config.reference s (now, op)).1 ops) := by
      intro hc
      have := ih hl' (s := (Recency.step cache.config.reference s (now, op)).1) ?_ hclock.of_cons
      · rwa [step_config] at this
      · intro op' hop'
        rw [← hc, live_contents]
        exact List.rel_of_pairwise_cons hclock hop'
    constructor
    · rintro ⟨hout, hc, -, hrest⟩
      refine ⟨hstep.mp ?_, (hnext hc).mp hrest⟩
      rw [← heq, hout, hc]
      rfl
    · rintro ⟨hno, hrest⟩
      have hsame := heq.trans (hstep.mpr hno)
      have hc : (cache.step (now, op)).1.contents now =
          (Recency.step cache.config.reference s (now, op)).1 := congrArg Prod.fst hsame
      exact ⟨congrArg Prod.snd hsame, hc, hsize, (hnext hc).mpr hrest⟩

/-- A fresh cache refines the reference store over a run exactly when no step
refills a full store. -/
theorem refines_iff_noRefill {config : CacheConfig} {cache : DecisionCache κ α}
    (h : new config = .ok cache) (ops : List (Nat × Recency.Op κ α))
    (hclock : ops.Pairwise fun a b => a.1 ≤ b.1) :
    cache.Refines [] ops ↔ NoRefill config.reference [] ops := by
  obtain ⟨hi, rfl⟩ := new_ok h
  have hs : cache.Sound [] := by
    refine ⟨?_, Nat.zero_le _⟩
    rw [hi]
    exact ranked_empty 0
  refine refines_iff_of_sound hs (fun op _ => ?_) hclock
  rw [contents_eq hs]
  rfl

def pairCache : DecisionCache CacheKey String := ⟨.empty, ⟨2, 300⟩, by decide, by decide⟩

def pairRun : List (Nat × Recency.Op CacheKey String) :=
  [(0, .insert 1 "a"), (5, .insert 2 "b"), (5, .get 1), (9, .insert 3 "c"), (400, .len)]

theorem refines_iff_noRefill_pairCache :
    pairCache.Refines [] pairRun ↔ NoRefill ⟨2, 300⟩ [] pairRun :=
  refines_iff_noRefill (rfl : new ⟨2, 300⟩ = .ok pairCache) pairRun (by decide)

/-- Inserting a present key into a full cache loses the other entry. -/
theorem not_refines_refill :
    ¬ pairCache.Refines [] [(0, .insert 1 "a"), (0, .insert 2 "b"), (0, .insert 2 "c"),
      (0, .get 1)] := by
  rintro ⟨-, -, -, -, -, -, -, -, -, hget, -⟩
  exact absurd hget (by decide)

end DecisionCache

end OpenCodifier
