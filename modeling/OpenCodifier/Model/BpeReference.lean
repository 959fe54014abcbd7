import OpenCodifier.Lib.Merging
import OpenCodifier.Lib.Result
import OpenCodifier.Model.Bpe
import OpenCodifier.Schema.Native
set_option autoImplicit false

namespace OpenCodifier

namespace BpeTokenizer

open Live Json

variable (t : BpeTokenizer)

section Queue

variable (s : MergeLoop) (left right : Nat)

@[simp] theorem requeue_symbols : (t.requeue s left right).symbols = s.symbols := by
  unfold requeue
  split <;> rfl

@[simp] theorem requeue_alive : (t.requeue s left right).alive = s.alive := by
  unfold requeue
  split <;> rfl

@[simp] theorem requeue_versions : (t.requeue s left right).versions = s.versions := by
  unfold requeue
  split <;> rfl

theorem mem_requeue {entry : Entry} (h : entry ∈ s.queue) :
    entry ∈ (t.requeue s left right).queue := by
  unfold requeue
  split
  · exact (List.mem_orderedInsert _).mpr (Or.inr h)
  · exact h

theorem mem_requeue_self {rank : Nat} (h : t.rankOf s left right = some rank) :
    toLex (rank, toLex (left, s.version left)) ∈ (t.requeue s left right).queue := by
  simp only [requeue, h]
  exact (List.mem_orderedInsert _).mpr (Or.inl rfl)

theorem requeue_sorted (h : s.queue.Pairwise (· ≤ ·)) :
    (t.requeue s left right).queue.Pairwise (· ≤ ·) := by
  unfold requeue
  split
  · exact List.Pairwise.orderedInsert _ _ h
  · exact h

theorem requeue_length : (t.requeue s left right).queue.length ≤ s.queue.length + 1 := by
  unfold requeue
  split
  · exact (List.orderedInsert_length _ _ _).le
  · omega

end Queue

section Coverage

/-- Every ranked pair of neighbours has an entry with its rank and the version of its left symbol. -/
structure Covered (s : MergeLoop) : Prop where
  alive : s.alive.length = s.symbols.length
  versions : s.versions.length = s.symbols.length
  first : isAlive s.alive 0 = true
  sorted : s.queue.Pairwise (· ≤ ·)
  covers : ∀ p q r, Next s.alive p q → t.rankOf s p q = some r →
    toLex (r, toLex (p, s.version p)) ∈ s.queue

variable {t} {s : MergeLoop} {entry : Entry} {rest : List Entry}

theorem Covered.pop (h : Covered t s) (hqueue : s.queue = entry :: rest)
    (hstale : ∀ p q r, Next s.alive p q → t.rankOf s p q = some r →
      toLex (r, toLex (p, s.version p)) ≠ entry) : Covered t { s with queue := rest } where
  alive := h.alive
  versions := h.versions
  first := h.first
  sorted := (List.pairwise_cons.mp (hqueue ▸ h.sorted)).2
  covers := by
    intro p q r hnext hrank
    have hmem := h.covers p q r hnext hrank
    rw [hqueue] at hmem
    exact (List.mem_cons.mp hmem).resolve_left (hstale p q r hnext hrank)

theorem next_of_infix {slots : List Nat} {a b : String} (hslots : slots <:+: live s.alive)
    (h : [a, b] <:+: slots.map s.symbol) :
    ∃ p q, [p, q] <:+: slots ∧ Next s.alive p q ∧ s.symbol p = a ∧ s.symbol q = b := by
  obtain ⟨l, hl, hmap⟩ := List.infix_map_iff.mp h
  cases l with
  | nil => cases hmap
  | cons p l =>
    cases l with
    | nil => cases hmap
    | cons q l =>
      cases l with
      | cons _ _ => cases hmap
      | nil =>
        cases hmap
        exact ⟨p, q, hl, pair_infix_live.mp (hl.trans hslots), rfl, rfl⟩

theorem unranked_of_empty (h : Covered t s) (hqueue : s.queue = []) :
    ∀ a b, [a, b] <:+: s.surviving → t.rank a b = none := by
  intro a b hmem
  obtain ⟨p, q, -, hnext, rfl, rfl⟩ := next_of_infix (List.infix_refl _) hmem
  cases hrank : t.rank (s.symbol p) (s.symbol q) with
  | none => rfl
  | some r =>
    have hentry := h.covers p q r hnext hrank
    rw [hqueue] at hentry
    cases hentry

/-- The entry in front belongs to the leftmost pair of lowest rank, if it belongs to any. -/
theorem Covered.leftmost (h : Covered t s) {p q r version : Nat} {pre post : List Nat}
    (hqueue : s.queue = toLex (r, toLex (p, version)) :: rest)
    (hlive : live s.alive = pre ++ p :: q :: post) (hrank : t.rankOf s p q = some r) :
    Merging.Leftmost t.rank r (pre.map s.symbol) (s.symbol p) (s.symbol q)
      (post.map s.symbol) := by
  have hfront : ∀ p' q' r', Next s.alive p' q' → t.rankOf s p' q' = some r' →
      r < r' ∨ r = r' ∧ p ≤ p' := by
    intro p' q' r' hnext hrank'
    have hmem := h.covers p' q' r' hnext hrank'
    have hsorted := h.sorted
    rw [hqueue] at hmem hsorted
    have hle : toLex (r, toLex (p, version)) ≤ toLex (r', toLex (p', s.version p')) := by
      rcases List.mem_cons.mp hmem with heq | hmem
      · exact heq.ge
      · exact (List.pairwise_cons.mp hsorted).1 _ hmem
    rcases Prod.Lex.le_iff.mp hle with hlt | ⟨heq, hle⟩
    · exact Or.inl hlt
    · refine Or.inr ⟨heq, ?_⟩
      rcases Prod.Lex.le_iff.mp hle with hlt | ⟨heq, -⟩
      · exact le_of_lt hlt
      · exact le_of_eq heq
  refine ⟨hrank, fun a b hmem r' hr' => ?_, fun a b hmem hr' => ?_⟩
  · have hmem' : [a, b] <:+: (live s.alive).map s.symbol := by
      rw [hlive, List.map_append, List.map_cons, List.map_cons]
      exact hmem
    obtain ⟨p', q', -, hnext, rfl, rfl⟩ := next_of_infix (List.infix_refl _) hmem'
    rcases hfront p' q' r' hnext hr' with hlt | ⟨heq, -⟩
    · exact hlt.le
    · exact heq.le
  · have hprefix : pre ++ [p] <:+: live s.alive := ⟨[], q :: post, by simp [hlive]⟩
    have hmem' : [a, b] <:+: (pre ++ [p]).map s.symbol := by
      rw [List.map_append]
      exact hmem
    obtain ⟨p', q', hpair, hnext, rfl, rfl⟩ := next_of_infix hprefix hmem'
    have hsorted : (pre ++ [p]).Pairwise (· < ·) :=
      (live_pairwise s.alive).sublist hprefix.sublist
    obtain ⟨-, hq, hlt, -⟩ := (pair_infix_iff hsorted).mp hpair
    have hle : q' ≤ p := by
      rcases List.mem_append.mp hq with hq | hq
      · exact ((List.pairwise_append.mp hsorted).2.2 q' hq p (by simp)).le
      · exact (List.mem_singleton.mp hq).le
    rcases hfront p' q' r hnext hr' with hless | ⟨-, hpp⟩
    · exact lt_irrefl r hless
    · omega

end Coverage

section Merges

variable {t} {s : MergeLoop} {p q : Nat} {joined : String}

@[simp] theorem requeueAround_alive (s : MergeLoop) (p q : Nat) :
    (t.requeueAround s p q).alive = s.alive := by
  simp only [requeueAround]
  split <;> split <;> simp

@[simp] theorem requeueAround_symbols (s : MergeLoop) (p q : Nat) :
    (t.requeueAround s p q).symbols = s.symbols := by
  simp only [requeueAround]
  split <;> split <;> simp

@[simp] theorem requeueAround_versions (s : MergeLoop) (p q : Nat) :
    (t.requeueAround s p q).versions = s.versions := by
  simp only [requeueAround]
  split <;> split <;> simp

theorem symbol_congr {s s' : MergeLoop} (h : s'.symbols = s.symbols) : s'.symbol = s.symbol := by
  funext i
  rw [MergeLoop.symbol, MergeLoop.symbol, h]

theorem version_congr {s s' : MergeLoop} (h : s'.versions = s.versions) :
    s'.version = s.version := by
  funext i
  rw [MergeLoop.version, MergeLoop.version, h]

theorem rankOf_congr {s s' : MergeLoop} (h : s'.symbols = s.symbols) :
    t.rankOf s' = t.rankOf s := by
  funext i j
  rw [rankOf, rankOf, symbol_congr h]

theorem mem_requeueAround {entry : Entry} (h : entry ∈ s.queue) :
    entry ∈ (t.requeueAround s p q).queue := by
  simp only [requeueAround]
  split <;> split
  · exact mem_requeue _ _ _ _ (mem_requeue _ _ _ _ h)
  · exact mem_requeue _ _ _ _ h
  · exact mem_requeue _ _ _ _ h
  · exact h

theorem requeueAround_sorted (h : s.queue.Pairwise (· ≤ ·)) :
    (t.requeueAround s p q).queue.Pairwise (· ≤ ·) := by
  simp only [requeueAround]
  split <;> split
  · exact requeue_sorted _ _ _ _ (requeue_sorted _ _ _ _ h)
  · exact requeue_sorted _ _ _ _ h
  · exact requeue_sorted _ _ _ _ h
  · exact h

theorem requeueAround_length : (t.requeueAround s p q).queue.length ≤ s.queue.length + 2 := by
  simp only [requeueAround]
  split <;> split
  · have h₁ := requeue_length t s (prevAlive s.alive p) p
    have h₂ := requeue_length t (t.requeue s (prevAlive s.alive p) p) p
      (nextAlive (t.requeue s (prevAlive s.alive p) p).alive (q + 1))
    omega
  · have h₁ := requeue_length t s (prevAlive s.alive p) p
    omega
  · have h₂ := requeue_length t s p (nextAlive s.alive (q + 1))
    omega
  · omega

theorem mem_requeueAround_left {o r : Nat} (h : Next s.alive o p)
    (hrank : t.rankOf s o p = some r) :
    toLex (r, toLex (o, s.version o)) ∈ (t.requeueAround s p q).queue := by
  have hprev := prevAlive_of_next h
  have hmem := mem_requeue_self t s o p hrank
  simp only [requeueAround, hprev, if_pos h.lt]
  split
  · exact mem_requeue _ _ _ _ hmem
  · exact hmem

theorem mem_requeueAround_right {n r : Nat} (halive : s.alive.length = s.symbols.length)
    (h : Next s.alive p n) (hq : q < n) (hpq : p < q) (hrank : t.rankOf s p n = some r) :
    toLex (r, toLex (p, s.version p)) ∈ (t.requeueAround s p q).queue := by
  have hnext : nextAlive s.alive (q + 1) = n :=
    nextAlive_eq h.right hq fun k hk hkn => h.between k (by omega) hkn
  have hlt : n < s.symbols.length := halive ▸ lt_of_isAlive h.right
  simp only [requeueAround]
  split
  · have hrank' : t.rankOf (t.requeue s (prevAlive s.alive p) p) p n = some r := by
      rw [rankOf_congr (requeue_symbols t s _ _)]
      exact hrank
    have hmem := mem_requeue_self t _ p n hrank'
    rw [version_congr (requeue_versions t s _ _)] at hmem
    simp only [requeue_alive, requeue_symbols, hnext, if_pos hlt]
    exact hmem
  · simp only [hnext, if_pos hlt]
    exact mem_requeue_self t s p n hrank

theorem symbol_applyMerge (h : p < s.symbols.length) (i : Nat) :
    (applyMerge s p q joined).symbol i = if i = p then joined else s.symbol i := by
  by_cases hi : i = p
  · subst hi
    simp [MergeLoop.symbol, applyMerge, h]
  · simp [MergeLoop.symbol, applyMerge, hi, Ne.symm hi]

theorem version_applyMerge {i : Nat} (hi : i ≠ p) :
    (applyMerge s p q joined).version i = s.version i := by
  simp [MergeLoop.version, applyMerge, Ne.symm hi]

theorem rankOf_applyMerge (h : p < s.symbols.length) {i j : Nat} (hi : i ≠ p) (hj : j ≠ p) :
    t.rankOf (applyMerge s p q joined) i j = t.rankOf s i j := by
  rw [rankOf, rankOf, symbol_applyMerge h, symbol_applyMerge h, if_neg hi, if_neg hj]

theorem next_of_applyMerge (hpq : Next s.alive p q) {i j : Nat}
    (h : Next (applyMerge s p q joined).alive i j) (hi : i ≠ p) : Next s.alive i j := by
  have hset : ∀ k, isAlive (applyMerge s p q joined).alive k =
      (isAlive s.alive k && decide (k ≠ q)) := isAlive_set s.alive q
  have hbefore : ∀ k, isAlive (applyMerge s p q joined).alive k = true →
      isAlive s.alive k = true ∧ k ≠ q := fun k hk => by simpa [hset] using hk
  obtain ⟨hileft, hiq⟩ := hbefore i h.left
  obtain ⟨hjright, hjq⟩ := hbefore j h.right
  refine ⟨hileft, hjright, h.lt, fun k hik hkj => ?_⟩
  have hdead := h.between k hik hkj
  rw [hset, Bool.and_eq_false_iff] at hdead
  rcases hdead with hdead | hkq
  · exact hdead
  · -- the dead slot is between them, so the one it was merged into is too
    have hk : k = q := by simpa using hkq
    subst hk
    have hp : isAlive (applyMerge s p k joined).alive p = true := by
      rw [hset, hpq.left]
      simpa using hpq.lt.ne
    have hip : p ≤ i := by
      by_contra hip
      have hcontra := h.between p (by omega) (hpq.lt.trans hkj)
      rw [hp] at hcontra
      cases hcontra
    have hcontra := hpq.between i (lt_of_le_of_ne hip (Ne.symm hi)) hik
    rw [hileft] at hcontra
    cases hcontra

/-- A merge keeps every ranked pair in the queue. -/
theorem Covered.merge (h : Covered t s) {r version : Nat} {rest : List Entry}
    (hqueue : s.queue = toLex (r, toLex (p, version)) :: rest) (hpq : Next s.alive p q) :
    Covered t (t.requeueAround (applyMerge { s with queue := rest } p q joined) p q) where
  alive := by simp [applyMerge, h.alive]
  versions := by simp [applyMerge, h.versions]
  first := by
    rw [requeueAround_alive]
    have hq := hpq.lt
    change isAlive (s.alive.set q false) 0 = true
    rw [isAlive_set, h.first]
    simp
    omega
  sorted := requeueAround_sorted (List.pairwise_cons.mp (hqueue ▸ h.sorted)).2
  covers := by
    intro i j r' hnext hrank
    rw [requeueAround_alive] at hnext
    rw [rankOf_congr (requeueAround_symbols _ p q)] at hrank
    rw [version_congr (requeueAround_versions _ p q)]
    have hp : p < s.symbols.length := h.alive ▸ lt_of_isAlive hpq.left
    by_cases hj : j = p
    · subst hj
      exact mem_requeueAround_left hnext hrank
    by_cases hi : i = p
    · subst hi
      have hqj : q < j := by
        have hright := hnext.right
        change isAlive (s.alive.set q false) j = true at hright
        rw [isAlive_set, Bool.and_eq_true, decide_eq_true_eq] at hright
        by_contra hle
        have hdead := hpq.between j hnext.lt (by omega)
        rw [hright.1] at hdead
        cases hdead
      exact mem_requeueAround_right (by simp [applyMerge, h.alive]) hnext hqj hpq.lt hrank
    · have hbefore : Next s.alive i j :=
        next_of_applyMerge (s := { s with queue := rest }) hpq hnext hi
      rw [rankOf_applyMerge (s := { s with queue := rest }) hp hi hj] at hrank
      rw [version_applyMerge hi]
      have hmem := h.covers i j r' hbefore hrank
      rw [hqueue] at hmem
      rcases List.mem_cons.mp hmem with heq | hmem
      · simp only [EmbeddingLike.apply_eq_iff_eq, Prod.mk.injEq] at heq
        exact absurd heq.2.1 hi
      · exact mem_requeueAround hmem

theorem surviving_merge (h : s.alive.length = s.symbols.length) {pre post : List Nat}
    (hlive : live s.alive = pre ++ p :: q :: post) :
    (t.requeueAround (applyMerge s p q joined) p q).surviving =
      pre.map s.symbol ++ joined :: post.map s.symbol := by
  have hp : p < s.symbols.length := h ▸ lt_of_isAlive (mem_live.mp (by simp [hlive]))
  have hsorted := live_pairwise s.alive
  rw [hlive, List.pairwise_append] at hsorted
  obtain ⟨-, hpost, hpre⟩ := hsorted
  rw [List.pairwise_cons] at hpost
  have hsame : ∀ l : List Nat, (∀ k ∈ l, k ≠ p) →
      l.map (applyMerge s p q joined).symbol = l.map s.symbol := by
    intro l hl
    refine List.map_congr_left fun k hk => ?_
    rw [symbol_applyMerge hp, if_neg (hl k hk)]
  rw [MergeLoop.surviving, requeueAround_alive, symbol_congr (requeueAround_symbols _ p q)]
  change (live (s.alive.set q false)).map _ = _
  rw [live_set_next hlive, List.map_append, List.map_cons, symbol_applyMerge hp, if_pos rfl,
    hsame pre fun k hk => (hpre k hk p List.mem_cons_self).ne,
    hsame post fun k hk => (hpost.1 k (List.mem_cons_of_mem _ hk)).ne']

end Merges

section Turns

variable {t} [DebugTexts] {s : MergeLoop} {entry : Entry} {rest : List Entry}

def mergedAt (t : BpeTokenizer) (s : MergeLoop) (p q : Nat) : MergeLoop :=
  t.requeueAround (applyMerge s p q (s.symbol p ++ s.symbol q)) p q

/-- A turn drops an entry that no pair needs, or it merges the leftmost pair of lowest rank. -/
theorem turn_cases (h : Covered t s) (hqueue : s.queue = entry :: rest) :
    (t.turn { s with queue := rest } entry.1 entry.2.1 entry.2.2 = .ok { s with queue := rest } ∧
      Covered t { s with queue := rest }) ∨
    ∃ pre post p q, live s.alive = pre ++ p :: q :: post ∧
      Merging.Leftmost t.rank entry.1 (pre.map s.symbol) (s.symbol p) (s.symbol q)
        (post.map s.symbol) ∧
      Covered t (t.mergedAt { s with queue := rest } p q) ∧
      t.turn { s with queue := rest } entry.1 entry.2.1 entry.2.2 =
        (t.idOf (s.symbol p ++ s.symbol q)).map
          fun _ => t.mergedAt { s with queue := rest } p q := by
  obtain ⟨rank, p, version⟩ := entry
  change s.queue = toLex (rank, toLex (p, version)) :: rest at hqueue
  simp only [turn]
  by_cases hvalid : (!isAlive s.alive p ||
      decide (MergeLoop.version { s with queue := rest } p ≠ version)) = true
  · refine Or.inl ⟨by rw [if_pos hvalid], h.pop hqueue fun i j r hnext hrank heq => ?_⟩
    simp only [EmbeddingLike.apply_eq_iff_eq, Prod.mk.injEq] at heq
    obtain ⟨-, rfl, hversion⟩ := heq
    rw [hnext.left] at hvalid
    simp only [Bool.not_true, Bool.false_or, decide_eq_true_eq] at hvalid
    exact hvalid hversion
  rw [if_neg hvalid]
  simp only [Bool.or_eq_true, Bool.not_eq_true', not_or, Bool.not_eq_false] at hvalid
  by_cases hnone : s.symbols.length ≤ nextAlive s.alive (p + 1)
  · refine Or.inl ⟨by rw [if_pos hnone], h.pop hqueue fun i j r hnext hrank heq => ?_⟩
    simp only [EmbeddingLike.apply_eq_iff_eq, Prod.mk.injEq] at heq
    obtain ⟨-, rfl, -⟩ := heq
    rw [nextAlive_of_next hnext, ← h.alive] at hnone
    exact absurd (lt_of_isAlive hnext.right) (not_lt.mpr hnone)
  rw [if_neg hnone, show t.rankOf { s with queue := rest } = t.rankOf s from rfl]
  have hnext := next_nextAlive hvalid.1 (h.alive ▸ not_le.mp hnone)
  by_cases hrank : t.rankOf s p (nextAlive s.alive (p + 1)) = some rank
  · obtain ⟨pre, post, hsplit⟩ := pair_infix_live.mpr hnext
    have hlive : live s.alive = pre ++ p :: nextAlive s.alive (p + 1) :: post := by
      rw [← hsplit]
      simp
    refine Or.inr ⟨pre, post, p, _, hlive, h.leftmost hqueue hlive hrank, h.merge hqueue hnext, ?_⟩
    rw [if_neg (not_not.mpr hrank),
      show MergeLoop.symbol { s with queue := rest } = s.symbol from rfl]
    cases t.idOf (s.symbol p ++ s.symbol (nextAlive s.alive (p + 1))) <;> rfl
  · refine Or.inl ⟨by rw [if_pos hrank], h.pop hqueue fun i j r hnext' hrank' heq => ?_⟩
    simp only [EmbeddingLike.apply_eq_iff_eq, Prod.mk.injEq] at heq
    obtain ⟨rfl, rfl, -⟩ := heq
    rw [nextAlive_of_next hnext'] at hrank
    exact hrank hrank'

/-- Turns that the loop can still take. -/
def work (s : MergeLoop) : Nat := s.queue.length + 2 * (live s.alive).length

/-- The loop does the merges of the reference, in its order, as long as their products have ids. -/
theorem drain_surviving (n : Nat) (h : Covered t s) (hn : work s ≤ n) :
    (t.drain n s).map MergeLoop.surviving = (do
        (Merging.products t.rank (· ++ ·) s.surviving).forM fun product =>
          (t.idOf product).map fun _ => ()
        .ok (Merging.merge t.rank (· ++ ·) s.surviving)) ∧
      ∀ s', t.drain n s = .ok s' → s'.queue = [] := by
  induction n generalizing s with
  | zero =>
    have hqueue : s.queue = [] := by
      rw [← List.length_eq_zero_iff]
      unfold work at hn
      omega
    obtain ⟨hmerge, hproducts⟩ :=
      Merging.merge_of_unranked (· ++ ·) (unranked_of_empty h hqueue)
    rw [hmerge, hproducts]
    exact ⟨rfl, fun s' hs' => by cases hs'; exact hqueue⟩
  | succ n ih =>
    rw [drain]
    cases hqueue : s.queue with
    | nil =>
      obtain ⟨hmerge, hproducts⟩ :=
        Merging.merge_of_unranked (· ++ ·) (unranked_of_empty h hqueue)
      rw [hmerge, hproducts]
      exact ⟨rfl, fun s' hs' => by cases hs'; exact hqueue⟩
    | cons entry rest =>
      simp only
      have hwork : work { s with queue := rest } ≤ n := by
        unfold work at hn ⊢
        rw [hqueue, List.length_cons] at hn
        change rest.length + 2 * (live s.alive).length ≤ n
        omega
      rcases turn_cases h hqueue with ⟨hturn, hcovered⟩ |
        ⟨pre, post, p, q, hlive, hleftmost, hcovered, hturn⟩
      · rw [hturn]
        exact ih hcovered hwork
      · have hbefore : s.surviving =
            pre.map s.symbol ++ s.symbol p :: s.symbol q :: post.map s.symbol := by
          rw [MergeLoop.surviving, hlive]
          simp
        obtain ⟨hmerge, hproducts⟩ := hleftmost.merge (· ++ ·)
        have hafter : (t.mergedAt { s with queue := rest } p q).surviving =
            pre.map s.symbol ++ (s.symbol p ++ s.symbol q) :: post.map s.symbol :=
          surviving_merge (s := { s with queue := rest }) h.alive hlive
        have hless : work (t.mergedAt { s with queue := rest } p q) ≤ n := by
          have hlength : (t.mergedAt { s with queue := rest } p q).queue.length ≤ rest.length + 2 :=
            requeueAround_length
          have hdead : live (t.mergedAt { s with queue := rest } p q).alive = pre ++ p :: post := by
            rw [mergedAt, requeueAround_alive]
            exact live_set_next hlive
          unfold work at hn ⊢
          rw [hqueue, hlive] at hn
          rw [hdead]
          simp only [List.length_append, List.length_cons] at hn ⊢
          omega
        obtain ⟨ihSurviving, ihQueue⟩ := ih hcovered hless
        rw [hafter] at ihSurviving
        rw [hturn, hbefore, hmerge, hproducts]
        cases hid : t.idOf (s.symbol p ++ s.symbol q) with
        | error e =>
          refine ⟨?_, fun s' hs' => by cases hs'⟩
          rw [Result.forM_cons, hid]
          rfl
        | ok id =>
          refine ⟨?_, ihQueue⟩
          rw [Result.forM_cons, hid]
          exact ihSurviving

end Turns

section Start

variable {t}

theorem foldl_requeue (l : List Nat) (s : MergeLoop) :
    let s' := l.foldl (fun s position => t.requeue s position (position + 1)) s
    s'.symbols = s.symbols ∧ s'.alive = s.alive ∧ s'.versions = s.versions ∧
      (s.queue.Pairwise (· ≤ ·) → s'.queue.Pairwise (· ≤ ·)) ∧
      (∀ entry ∈ s.queue, entry ∈ s'.queue) ∧
      (∀ i ∈ l, ∀ r, t.rankOf s i (i + 1) = some r →
        toLex (r, toLex (i, s.version i)) ∈ s'.queue) ∧
      s'.queue.length ≤ s.queue.length + l.length := by
  induction l generalizing s with
  | nil => simp
  | cons i l ih =>
    obtain ⟨hsymbols, halive, hversions, hsorted, hkept, hmem, hlength⟩ :=
      ih (t.requeue s i (i + 1))
    refine ⟨by simpa using hsymbols, by simpa using halive, by simpa using hversions,
      fun h => hsorted (requeue_sorted t s i (i + 1) h),
      fun entry h => hkept entry (mem_requeue t s i (i + 1) h), ?_, ?_⟩
    · intro j hj r hr
      rcases List.mem_cons.mp hj with rfl | hj
      · exact hkept _ (mem_requeue_self t s j (j + 1) hr)
      · have hthere := hmem j hj r (by rw [rankOf_congr (requeue_symbols t s i (i + 1))]; exact hr)
        rwa [version_congr (requeue_versions t s i (i + 1))] at hthere
    · have := requeue_length t s i (i + 1)
      simp only [List.foldl_cons, List.length_cons]
      omega

theorem isAlive_true (symbols : List String) (i : Nat) :
    isAlive (symbols.map fun _ => true) i = decide (i < symbols.length) := by
  by_cases hi : i < symbols.length
  · simp [isAlive, hi]
  · simp [isAlive, hi]

theorem live_true (symbols : List String) :
    live (symbols.map fun _ => true) = List.range symbols.length := by
  rw [live, List.length_map, List.filter_eq_self.mpr]
  intro i hi
  rw [isAlive_true]
  simpa using hi

theorem start_spec {symbols : List String} (h : symbols ≠ []) :
    Covered t (t.start symbols) ∧ (t.start symbols).surviving = symbols ∧
      work (t.start symbols) ≤ 3 * symbols.length := by
  obtain ⟨hsymbols, halive, hversions, hsorted, -, hmem, hlength⟩ :=
    foldl_requeue (t := t) (List.range (symbols.length - 1))
      { symbols, alive := symbols.map fun _ => true, versions := symbols.map fun _ => 0, queue := [] }
  have hpos : 0 < symbols.length := List.length_pos_iff.mpr h
  rw [← start] at hsymbols halive hversions hsorted hmem hlength
  refine ⟨⟨?_, ?_, ?_, hsorted List.Pairwise.nil, ?_⟩, ?_, ?_⟩
  · rw [halive, hsymbols]
    simp
  · rw [hversions, hsymbols]
    simp
  · rw [halive, isAlive_true]
    simpa using hpos
  · intro p q r hnext hrank
    rw [halive] at hnext
    have hq : q < symbols.length := by
      have hright := hnext.right
      rw [isAlive_true] at hright
      simpa using hright
    have hsucc : q = p + 1 := by
      by_contra hne
      have hlt := hnext.lt
      have hdead := hnext.between (p + 1) (by omega) (by omega)
      rw [isAlive_true] at hdead
      simp only [decide_eq_false_iff_not] at hdead
      omega
    subst hsucc
    rw [rankOf_congr hsymbols] at hrank
    rw [version_congr hversions]
    exact hmem p (List.mem_range.mpr (by omega)) r hrank
  · rw [MergeLoop.surviving, halive, symbol_congr hsymbols]
    change (live (symbols.map fun _ => true)).map _ = symbols
    rw [live_true]
    refine List.ext_getElem (by simp) fun i _ hi => ?_
    simp [MergeLoop.symbol, hi]
  · unfold work
    rw [halive]
    change _ + 2 * (live (symbols.map fun _ => true)).length ≤ _
    rw [live_true, List.length_range]
    simp only [List.length_nil, List.length_range] at hlength
    omega

end Start

section Reference

variable [DebugTexts]

/-- The symbols of a text after all merges of the naive procedure. -/
def referenceSymbols (text : String) : List String :=
  Merging.merge t.rank (· ++ ·) (symbolsOf text)

def referenceProducts (text : String) : List String :=
  Merging.products t.rank (· ++ ·) (symbolsOf text)

/-- Merge the leftmost pair of lowest rank until none is ranked, then look every symbol up. -/
def reference (text : String) : ModelResult (List Int) := (t.referenceSymbols text).mapM t.idOf

def firstUnknown (symbols : List String) : Option String :=
  symbols.find? fun symbol => (t.vocabulary.get? symbol).isNone

theorem forM_idOf (symbols : List String) :
    symbols.forM (fun symbol => (t.idOf symbol).map fun _ => ()) =
      match t.firstUnknown symbols with
      | some symbol => .error (.tokenizer ("vocabulary has no id for " ++ DebugTexts.str symbol))
      | none => .ok () := by
  induction symbols with
  | nil => rfl
  | cons symbol symbols ih =>
    rw [Result.forM_cons, ih, firstUnknown, firstUnknown, List.find?_cons, idOf]
    cases hid : t.vocabulary.get? symbol <;> rfl

def byteImage (text : String) : List Char :=
  text.toUTF8.data.toList.map fun byte => byteAlphabet.getD byte.toNat '\x00'

omit [DebugTexts] in
theorem flatMap_symbolsOf (text : String) :
    (symbolsOf text).flatMap String.toList = byteImage text := by
  rw [symbolsOf, byteImage, List.flatMap_map, List.map_eq_flatMap]
  simp

theorem mergeSymbols_surviving (text : String) :
    (t.mergeSymbols (symbolsOf text)).map MergeLoop.surviving = (do
        (t.referenceProducts text).forM fun product => (t.idOf product).map fun _ => ()
        .ok (t.referenceSymbols text)) ∧
      ∀ s, t.mergeSymbols (symbolsOf text) = .ok s → s.queue = [] := by
  by_cases h : symbolsOf text = []
  · rw [referenceProducts, referenceSymbols, h]
    exact ⟨rfl, fun s hs => by cases hs; rfl⟩
  · obtain ⟨hcovered, hsurviving, hwork⟩ := start_spec (t := t) h
    have hdrain := drain_surviving _ hcovered hwork
    rw [hsurviving] at hdrain
    exact hdrain

/-- The encoder gives what the naive procedure gives, save that a merge whose product has no id is a
failure. Its loop ends with an empty queue, and what survives it is the image of the text. -/
theorem encode_eq_reference (text : String) :
    t.encode text = (match t.firstUnknown (t.referenceProducts text) with
      | some product => .error (.tokenizer ("vocabulary has no id for " ++ DebugTexts.str product))
      | none => t.reference text) ∧
    ∀ s, t.mergeSymbols (symbolsOf text) = .ok s →
      s.queue = [] ∧ s.surviving = t.referenceSymbols text ∧
        s.surviving.flatMap String.toList = byteImage text := by
  obtain ⟨hmerge, hqueue⟩ := t.mergeSymbols_surviving text
  rw [forM_idOf] at hmerge
  constructor
  · by_cases h : symbolsOf text = []
    · simp [encode, referenceProducts, reference, referenceSymbols, h, Merging.products,
        Merging.productsUpTo, Merging.merge, Merging.mergeUpTo, firstUnknown]
      rfl
    · have hencode : t.encode text = ((t.mergeSymbols (symbolsOf text)).map
          MergeLoop.surviving >>= fun symbols => symbols.mapM t.idOf) := by
        simp only [encode, if_neg h]
        cases t.mergeSymbols (symbolsOf text) <;> rfl
      rw [hencode, hmerge]
      cases t.firstUnknown (t.referenceProducts text) <;> rfl
  · intro s hs
    rw [hs] at hmerge
    have hsurviving : s.surviving = t.referenceSymbols text := by
      cases hunknown : t.firstUnknown (t.referenceProducts text) with
      | some product =>
        rw [hunknown] at hmerge
        cases hmerge
      | none =>
        rw [hunknown] at hmerge
        exact Except.ok.inj hmerge
    refine ⟨hqueue s hs, hsurviving, ?_⟩
    rw [hsurviving, referenceSymbols, Merging.flatMap_merge (by simp), flatMap_symbolsOf]

end Reference

section Samples

abbrev plainDebug : DebugTexts where
  str text := text

attribute [local instance] plainDebug plainTexts

/-- Three letters and the word they make; the word is merged from a part that is no symbol. -/
def spelled : Value :=
  .parse (.obj [("model", .obj [
    ("vocab", .obj [("a", .num (.int 0)), ("b", .num (.int 1)), ("c", .num (.int 2)),
      ("abc", .num (.int 3))]),
    ("merges", .arr [.str "a b", .arr [.str "ab", .str "c"]])])])

example : ((fromTokenizerJson (.ok spelled)).toOption.map fun t => t.ranks.entries) =
    some [(toLex ("a", "b"), 0), (toLex ("ab", "c"), 1)] := by
  decide +kernel

theorem encode_eq_reference_spelled :
    ((fromTokenizerJson (.ok spelled)).toOption.map fun t => t.reference "abc") = some (.ok [3]) ∧
      ((fromTokenizerJson (.ok spelled)).toOption.map fun t => t.encode "abc") =
        some (.error (.tokenizer "vocabulary has no id for ab")) := by
  decide +kernel

end Samples

end BpeTokenizer

end OpenCodifier
