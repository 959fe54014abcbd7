import OpenCodifier.Lib.OrdMap
import OpenCodifier.Lib.Result
set_option autoImplicit false

universe u v w x

namespace OrdMap

variable {κ : Type u} {α : Type v} {β : Type w} {ε : Type x} [LinearOrder κ]

def insertBuilt (build : κ → α → Except ε β) (m : OrdMap κ β) (e : κ × α) :
    Except ε (OrdMap κ β) :=
  match build e.1 e.2 with
  | .error error => .error error
  | .ok b => .ok (m.insert e.1 b)

def traverse (m : OrdMap κ α) (build : κ → α → Except ε β) : Except ε (OrdMap κ β) :=
  m.entries.foldlM (insertBuilt build) empty

variable {build : κ → α → Except ε β}

theorem insertBuilt_ok {m n : OrdMap κ β} {e : κ × α} :
    insertBuilt build m e = .ok n ↔ ∃ b, build e.1 e.2 = .ok b ∧ m.insert e.1 b = n := by
  rw [insertBuilt]
  cases build e.1 e.2 <;> simp

theorem foldlM_insertBuilt_exists (l : List (κ × α)) (m : OrdMap κ β) :
    (∃ n, l.foldlM (insertBuilt build) m = .ok n) ↔ ∀ e ∈ l, ∃ b, build e.1 e.2 = .ok b := by
  induction l generalizing m with
  | nil => simp [pure, Except.pure]
  | cons e l ih =>
    simp only [List.foldlM_cons, List.forall_mem_cons]
    constructor
    · intro h
      obtain ⟨n, h⟩ := h
      obtain ⟨m', hm', hn⟩ := Result.bind_ok.mp h
      obtain ⟨b, hb, -⟩ := insertBuilt_ok.mp hm'
      exact ⟨⟨b, hb⟩, (ih m').mp ⟨n, hn⟩⟩
    · intro h
      obtain ⟨b, hb⟩ := h.1
      obtain ⟨n, hn⟩ := (ih (m.insert e.1 b)).mpr h.2
      exact ⟨n, Result.bind_ok.mpr ⟨_, insertBuilt_ok.mpr ⟨b, hb, rfl⟩, hn⟩⟩

theorem get?_foldlM_insertBuilt {l : List (κ × α)} {m n : OrdMap κ β}
    (hl : (l.map Prod.fst).Nodup) (h : l.foldlM (insertBuilt build) m = .ok n) (k : κ) (b : β) :
    n.get? k = some b ↔ (∃ e ∈ l, e.1 = k ∧ build e.1 e.2 = .ok b) ∨
      ((∀ e ∈ l, e.1 ≠ k) ∧ m.get? k = some b) := by
  induction l generalizing m with
  | nil =>
    cases h
    simp
  | cons e l ih =>
    obtain ⟨hnot, hl⟩ := List.nodup_cons.mp hl
    rw [List.foldlM_cons] at h
    obtain ⟨m', hm', h⟩ := Result.bind_ok.mp h
    obtain ⟨c, hc, rfl⟩ := insertBuilt_ok.mp hm'
    rw [ih hl h, get?_insert]
    by_cases hk : k = e.1
    · subst hk
      have hne : ∀ e' ∈ l, e'.1 ≠ e.1 := fun e' he' he =>
        hnot (he ▸ List.mem_map_of_mem he')
      simp only [List.exists_mem_cons_iff, if_true, Option.some.injEq, true_and, hc,
        Except.ok.injEq]
      constructor
      · rintro (⟨e', he', hkey, -⟩ | ⟨-, rfl⟩)
        · exact absurd hkey (hne e' he')
        · exact .inl (.inl rfl)
      · rintro ((rfl | ⟨e', he', hkey, -⟩) | ⟨hall, -⟩)
        · exact .inr ⟨hne, rfl⟩
        · exact absurd hkey (hne e' he')
        · exact absurd rfl (hall e List.mem_cons_self)
    · simp [hk, Ne.symm hk]

theorem get?_traverse {m : OrdMap κ α} {n : OrdMap κ β} (h : m.traverse build = .ok n) (k : κ)
    (b : β) : n.get? k = some b ↔ ∃ a, m.get? k = some a ∧ build k a = .ok b := by
  rw [get?_foldlM_insertBuilt m.nodup_keys h k b]
  simp only [get?_empty, reduceCtorEq, and_false, or_false]
  constructor
  · rintro ⟨e, he, rfl, hb⟩
    exact ⟨e.2, (mem_entries_iff m e.1 e.2).mp he, hb⟩
  · rintro ⟨a, ha, hb⟩
    exact ⟨(k, a), (mem_entries_iff m k a).mpr ha, rfl, hb⟩

theorem traverse_exists (m : OrdMap κ α) :
    (∃ n, m.traverse build = .ok n) ↔ ∀ k a, m.get? k = some a → ∃ b, build k a = .ok b := by
  refine (foldlM_insertBuilt_exists m.entries empty).trans ⟨fun h k a ha => ?_, fun h e he => ?_⟩
  · exact h (k, a) ((mem_entries_iff m k a).mpr ha)
  · exact h e.1 e.2 ((mem_entries_iff m e.1 e.2).mp he)

section Mutation

variable {σ : Type w}

def mutateEntry (body : σ → κ → α → Except ε (σ × α)) (acc : σ × OrdMap κ α) (e : κ × α) :
    Except ε (σ × OrdMap κ α) :=
  match body acc.1 e.1 e.2 with
  | .error error => .error error
  | .ok turn => .ok (turn.1, acc.2.insert e.1 turn.2)

/-- The loop over a map's entries whose body rewrites the value and a state. -/
def forMut (m : OrdMap κ α) (body : σ → κ → α → Except ε (σ × α)) (s : σ) :
    Except ε (σ × OrdMap κ α) :=
  m.entries.foldlM (mutateEntry body) (s, m)

theorem foldl_insert_entries (m : OrdMap κ α) (f : κ → α → α) :
    m.entries.foldl (fun n e => n.insert e.1 (f e.1 e.2)) m = m.mapValues f := by
  refine ext_get? fun k => ?_
  have hfold : m.entries.foldl (fun n e => n.insert e.1 (f e.1 e.2)) m =
      (m.mapValues f).entries.foldl (fun n e => n.insert e.1 e.2) m := by
    rw [mapValues, List.foldl_map]
  rw [hfold, get?_foldl_insert _ _ (m.mapValues f).nodup_keys]
  change ((m.mapValues f).get? k).or (m.get? k) = _
  rw [get?_mapValues]
  cases m.get? k <;> rfl

/-- A loop that rewrites every value the same way in every state: it ends when its states do. -/
theorem forMut_ok_iff {m : OrdMap κ α} {body : σ → κ → α → Except ε (σ × α)} {f : κ → α → α}
    (h : ∀ e ∈ m.entries, ∀ s turn, body s e.1 e.2 = .ok turn → turn.2 = f e.1 e.2) (s : σ)
    (out : σ × OrdMap κ α) : m.forMut body s = .ok out ↔
      m.entries.foldlM (fun s e => (body s e.1 e.2).map Prod.fst) s = .ok out.1 ∧
        out.2 = m.mapValues f := by
  have hrun : ∀ (l : List (κ × α)) (s : σ) (n : OrdMap κ α), (∀ e ∈ l, e ∈ m.entries) →
      (l.foldlM (mutateEntry body) (s, n) = .ok out ↔
        l.foldlM (fun s e => (body s e.1 e.2).map Prod.fst) s = .ok out.1 ∧
          out.2 = l.foldl (fun n e => n.insert e.1 (f e.1 e.2)) n) := by
    intro l
    induction l with
    | nil =>
      intro s n _
      obtain ⟨t, n'⟩ := out
      simp [pure, Except.pure, eq_comm]
    | cons e l ih =>
      intro s n hl
      rw [List.foldlM_cons, List.foldlM_cons, List.foldl_cons, mutateEntry]
      have hvalue := h e (hl e List.mem_cons_self) s
      cases hbody : body s e.1 e.2 with
      | error error => exact iff_of_false (fun h => by cases h) fun h => by cases h.1
      | ok turn =>
        rw [← hvalue turn hbody]
        exact ih turn.1 _ fun e' he' => hl e' (List.mem_cons_of_mem e he')
  rw [forMut, hrun m.entries s m fun e he => he, foldl_insert_entries]

end Mutation

end OrdMap
