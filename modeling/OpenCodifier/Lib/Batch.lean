import Mathlib.Data.List.Forall2
set_option autoImplicit false

universe u v w

namespace Batch

variable {α : Type u} {β : Type u} {ε : Type w}

section Rows

def write : List α → Nat → List α → List α
  | cells, _, [] => cells
  | cells, start, x :: xs => write (cells.set start x) (start + 1) xs

def row (width : Nat) (cells : List α) (r : Nat) : List α := (cells.drop (r * width)).take width

def padded (width : Nat) (fill : α) (xs : List α) : List α :=
  xs ++ List.replicate (width - xs.length) fill

theorem length_padded {width : Nat} (fill : α) {xs : List α} (h : xs.length ≤ width) :
    (padded width fill xs).length = width := by
  rw [padded, List.length_append, List.length_replicate]
  omega

theorem map_padded {γ : Type v} (f : α → γ) (width : Nat) (fill : α) (xs : List α) :
    (padded width fill xs).map f = padded width (f fill) (xs.map f) := by
  rw [padded, padded, List.map_append, List.map_replicate, List.length_map]

theorem take_padded (width : Nat) (fill : α) (xs : List α) :
    (padded width fill xs).take xs.length = xs := by
  rw [padded, List.take_left]

theorem write_over (done old rest xs : List α) (h : old.length = xs.length) :
    write (done ++ (old ++ rest)) done.length xs = done ++ (xs ++ rest) := by
  induction xs generalizing done old with
  | nil =>
    rw [List.length_eq_zero_iff.mp h]
    rfl
  | cons x xs ih =>
    match old, h with
    | o :: old, h =>
      have hset : (done ++ (o :: old ++ rest)).set done.length x = (done ++ [x]) ++ (old ++ rest) := by
        rw [List.set_append_right _ _ (Nat.le_refl _), Nat.sub_self]
        simp
      have hnext := ih (done ++ [x]) old (by simpa using h)
      rw [List.length_append, List.length_singleton] at hnext
      rw [write, hset, hnext]
      simp

theorem write_next {width : Nat} (done : List α) (fill : α) {xs : List α} (h : xs.length ≤ width)
    (n : Nat) :
    write (done ++ List.replicate ((n + 1) * width) fill) done.length xs =
      (done ++ padded width fill xs) ++ List.replicate (n * width) fill := by
  have hsplit : List.replicate ((n + 1) * width) fill = List.replicate xs.length fill ++
      (List.replicate (width - xs.length) fill ++ List.replicate (n * width) fill) := by
    rw [← List.append_assoc, List.replicate_append_replicate, List.replicate_append_replicate,
      Nat.succ_mul]
    congr 1
    omega
  rw [hsplit, write_over _ _ _ _ (List.length_replicate ..), padded]
  simp

theorem set_next (done : List α) (fill x : α) (n : Nat) :
    (done ++ List.replicate (n + 1) fill).set done.length x =
      (done ++ [x]) ++ List.replicate n fill := by
  rw [List.set_append_right _ _ (Nat.le_refl _), Nat.sub_self, List.replicate_succ]
  simp

theorem row_flatten {width : Nat} {rows : List (List α)} (h : ∀ xs ∈ rows, xs.length = width)
    {r : Nat} {xs : List α} (hr : rows[r]? = some xs) : row width rows.flatten r = xs := by
  induction rows generalizing r with
  | nil => cases hr
  | cons first rest ih =>
    rw [List.forall_mem_cons] at h
    cases r with
    | zero =>
      cases hr
      rw [row, Nat.zero_mul, List.drop_zero, List.flatten_cons, List.take_left' h.1]
    | succ r =>
      have hdrop : (first ++ rest.flatten).drop ((r + 1) * width) = rest.flatten.drop (r * width) := by
        rw [Nat.succ_mul, Nat.add_comm, ← List.drop_drop, List.drop_left' h.1]
      have hrest := ih h.2 (by simpa using hr)
      rw [row] at hrest
      rw [row, List.flatten_cons, hdrop, hrest]

def kept {μ : Type v} [DecidableEq μ] (one : μ) (cells : List α) (mask : List μ) : List α :=
  ((cells.zip mask).filter fun e => e.2 = one).map Prod.fst

theorem kept_all {μ : Type v} [DecidableEq μ] (one : μ) (cells : List α) :
    kept one cells (List.replicate cells.length one) = cells := by
  induction cells with
  | nil => rfl
  | cons x cells ih =>
    rw [kept] at ih ⊢
    rw [List.length_cons, List.replicate_succ, List.zip_cons_cons, List.filter_cons_of_pos (by simp),
      List.map_cons, ih]

theorem kept_append {μ : Type v} [DecidableEq μ] {zero one : μ} (hne : zero ≠ one) {cells : List α}
    {mask : List μ} (h : cells.length = mask.length) (rest : List α) (n : Nat) :
    kept one (cells ++ rest) (mask ++ List.replicate n zero) = kept one cells mask := by
  have hnone : ((rest.zip (List.replicate n zero)).filter fun e => e.2 = one) = [] := by
    refine List.filter_eq_nil_iff.mpr fun e he => ?_
    have hz := List.eq_of_mem_replicate (List.of_mem_zip he).2
    simpa [hz] using hne
  rw [kept, List.zip_append h, List.filter_append, hnone, List.append_nil, kept]

theorem kept_padded {μ : Type v} [DecidableEq μ] {zero one : μ} (hne : zero ≠ one) (width : Nat)
    (fill : α) {cells : List α} {mask : List μ} (h : cells.length = mask.length) :
    kept one (padded width fill cells) (padded width zero mask) = kept one cells mask :=
  kept_append hne h _ _

theorem zipIdx_padded (width : Nat) (fill : α) (xs : List α) :
    ∃ rest, (padded width fill xs).zipIdx = xs.zipIdx ++ rest := by
  rw [padded, List.zipIdx_append]
  exact ⟨_, rfl⟩

section Largest

variable {γ : Type v}

theorem le_largest (f : γ → Nat) {xs : List γ} {x : γ} (hx : x ∈ xs) :
    f x ≤ ((xs.map f).max?).getD 0 := by
  have hmem := List.mem_map_of_mem (f := f) hx
  cases hmax : (xs.map f).max? with
  | none =>
    rw [List.max?_eq_none_iff.mp hmax] at hmem
    cases hmem
  | some n => exact (List.max?_eq_some_iff.mp hmax).2 _ hmem

theorem largest_mem (f : γ → Nat) {xs : List γ} (hne : xs ≠ []) :
    ∃ x ∈ xs, ((xs.map f).max?).getD 0 = f x := by
  cases hmax : (xs.map f).max? with
  | none => exact absurd (List.map_eq_nil_iff.mp (List.max?_eq_none_iff.mp hmax)) hne
  | some n =>
    obtain ⟨x, hx, hn⟩ := List.mem_map.mp (List.max?_eq_some_iff.mp hmax).1
    exact ⟨x, hx, hn.symm⟩

def longest (f : γ → List α) (xs : List γ) : Nat :=
  ((xs.map fun x => (f x).length).max?).getD 0

theorem le_longest (f : γ → List α) {xs : List γ} {x : γ} (hx : x ∈ xs) :
    (f x).length ≤ longest f xs :=
  le_largest (fun x => (f x).length) hx

theorem longest_mem (f : γ → List α) {xs : List γ} (hne : xs ≠ []) :
    ∃ x ∈ xs, longest f xs = (f x).length :=
  largest_mem (fun x => (f x).length) hne

end Largest

end Rows

section Batches

/-- A batch gives each row what the row gives alone. -/
def Rowwise (run : List α → Except ε (List β)) (xs : List α) : Prop :=
  xs ≠ [] → (run xs).toOption = xs.mapM fun x => (run [x]).toOption.bind List.head?

theorem mapM_congr {γ : Type v} {f g : γ → Option β} {xs : List γ} (h : ∀ x ∈ xs, f x = g x) :
    xs.mapM f = xs.mapM g := by
  induction xs with
  | nil => rfl
  | cons x xs ih =>
    rw [List.forall_mem_cons] at h
    rw [List.mapM_cons, List.mapM_cons, h.1, ih h.2]

theorem mapM_singleton_head {γ : Type v} (f : γ → Option β) (x : γ) :
    ([x].mapM f).bind List.head? = f x := by
  rw [List.mapM_cons, List.mapM_nil]
  cases f x <;> rfl

theorem mapM_eq_some {γ : Type v} {f : γ → Option β} {xs : List γ} {ys : List β} :
    xs.mapM f = some ys ↔ List.Forall₂ (fun x y => f x = some y) xs ys := by
  induction xs generalizing ys with
  | nil =>
    rw [List.mapM_nil, List.forall₂_nil_left_iff]
    exact ⟨fun h => (Option.some.inj h).symm, fun h => h ▸ rfl⟩
  | cons x xs ih =>
    rw [List.mapM_cons, List.forall₂_cons_left_iff]
    cases hx : f x with
    | none => simp
    | some y =>
      cases hxs : xs.mapM f with
      | none =>
        refine ⟨fun h => (Option.some_ne_none _ h.symm).elim, fun ⟨y', ys', _, hall, _⟩ => ?_⟩
        rw [ih.mpr hall] at hxs
        cases hxs
      | some ys' =>
        constructor
        · intro h
          exact ⟨y, ys', rfl, ih.mp hxs, (Option.some.inj h).symm⟩
        · rintro ⟨y'', ys'', hy, hall, rfl⟩
          cases hy
          rw [ih.mpr hall] at hxs
          cases hxs
          rfl

theorem mapM_eq_none {γ : Type v} {f : γ → Option β} {xs : List γ} :
    xs.mapM f = none ↔ ∃ x ∈ xs, f x = none := by
  induction xs with
  | nil => simp
  | cons x xs ih =>
    rw [List.mapM_cons, List.exists_mem_cons_iff]
    cases hx : f x with
    | none => simp
    | some y =>
      cases hxs : xs.mapM f with
      | none => simp [ih.mp hxs]
      | some ys =>
        have hno : ¬ ∃ x ∈ xs, f x = none := fun h => by
          rw [ih.mpr h] at hxs
          cases hxs
        simp only [reduceCtorEq, false_or, iff_false_right hno]
        exact Option.some_ne_none _

theorem toOption_bind {γ : Type u} {x : Except ε γ} {f : γ → Except ε β} :
    (x >>= f).toOption = x.toOption.bind fun a => (f a).toOption := by
  cases x <;> rfl

theorem toOption_mapM {γ : Type v} {f : γ → Except ε β} {xs : List γ} :
    (xs.mapM f).toOption = xs.mapM fun x => (f x).toOption := by
  induction xs with
  | nil => rfl
  | cons x xs ih =>
    rw [List.mapM_cons, List.mapM_cons, ← ih]
    cases f x with
    | error e => rfl
    | ok y => cases xs.mapM f <;> rfl

theorem mapM_zipIdx {γ : Type v} {f : γ × Nat → Option β} {h : γ → Option β} {xs : List γ}
    (hf : ∀ r x, xs[r]? = some x → f (x, r) = h x) : xs.zipIdx.mapM f = xs.mapM h := by
  have hcongr : xs.zipIdx.mapM f = xs.zipIdx.mapM (h ∘ Prod.fst) :=
    mapM_congr fun entry hentry => hf entry.2 entry.1 (List.mem_zipIdx_iff_getElem?.mp hentry)
  rw [hcongr, ← List.mapM_map, List.zipIdx_map_fst]

theorem forall₂_getElem? {γ : Type v} {R : γ → β → Prop} {xs : List γ} {ys : List β}
    (h : List.Forall₂ R xs ys) {r : Nat} {x : γ} (hr : xs[r]? = some x) :
    ∃ y, ys[r]? = some y ∧ R x y := by
  induction h generalizing r with
  | nil => cases hr
  | cons hxy _ ih =>
    cases r with
    | zero =>
      cases hr
      exact ⟨_, rfl, hxy⟩
    | succ r => exact ih (by simpa using hr)

theorem mapM_through {γ : Type v} {δ : Type v} {f : γ → Option δ} {g : δ → Option β}
    {h : γ → Option β} {xs : List γ} {ys : List δ} (hxs : xs.mapM f = some ys)
    (hgh : ∀ x ∈ xs, ∀ y ∈ ys, f x = some y → h x = g y) : xs.mapM h = ys.mapM g := by
  have hall := mapM_eq_some.mp hxs
  clear hxs
  induction hall with
  | nil => rfl
  | cons hxy _ ih =>
    rw [List.mapM_cons, List.mapM_cons, hgh _ List.mem_cons_self _ List.mem_cons_self hxy,
      ih fun x hx y hy => hgh x (List.mem_cons_of_mem _ hx) y (List.mem_cons_of_mem _ hy)]

theorem mapM_map_option {γ : Type v} {δ : Type u} {f : γ → Option β} {g : β → δ} {xs : List γ} :
    (xs.mapM fun x => (f x).map g) = (xs.mapM f).map (List.map g) := by
  induction xs with
  | nil => rfl
  | cons x xs ih =>
    rw [List.mapM_cons, List.mapM_cons, ih]
    cases f x with
    | none => rfl
    | some y => cases xs.mapM f <;> rfl

theorem mapM_mem {γ : Type v} {f : γ → Option β} {xs : List γ} {ys : List β}
    (h : xs.mapM f = some ys) {x : γ} (hx : x ∈ xs) : ∃ y ∈ ys, f x = some y := by
  obtain ⟨r, hr⟩ := List.mem_iff_getElem?.mp hx
  obtain ⟨y, hy, hxy⟩ := forall₂_getElem? (mapM_eq_some.mp h) hr
  exact ⟨y, List.mem_of_getElem? hy, hxy⟩

theorem mem_of_mapM {γ : Type v} {f : γ → Option β} {xs : List γ} {ys : List β}
    (h : xs.mapM f = some ys) {y : β} (hy : y ∈ ys) : ∃ x ∈ xs, f x = some y := by
  obtain ⟨r, hr⟩ := List.mem_iff_getElem?.mp hy
  obtain ⟨x, hx, hxy⟩ := forall₂_getElem? (mapM_eq_some.mp h).flip hr
  exact ⟨x, List.mem_of_getElem? hx, hxy⟩

theorem mapM_singleton {γ : Type v} {f : γ → Option β} {x : γ} {ys : List β} :
    [x].mapM f = some ys ↔ ∃ y, f x = some y ∧ ys = [y] := by
  rw [mapM_eq_some, List.forall₂_cons_left_iff]
  simp only [List.forall₂_nil_left_iff, existsAndEq, true_and]

theorem mapM_range {f : Nat → Option β} {rows : List β} (h : ∀ r, f r = rows[r]?) :
    (List.range rows.length).mapM f = some rows := by
  refine mapM_eq_some.mpr (List.forall₂_iff_get.mpr ⟨List.length_range, fun i _ hi => ?_⟩)
  rw [List.get_eq_getElem, List.get_eq_getElem, List.getElem_range, h, List.getElem?_eq_getElem hi]

/-- A run that reads every row by itself treats its rows one by one. -/
theorem rowwise_of_mapM {run : List α → Except ε (List β)} {f : α → Option β} {xs : List α}
    (hrun : xs ≠ [] → (run xs).toOption = xs.mapM f)
    (hone : ∀ x ∈ xs, (run [x]).toOption = [x].mapM f) : Rowwise run xs := by
  intro hne
  rw [hrun hne]
  refine mapM_congr fun x hx => ?_
  rw [hone x hx, mapM_singleton_head]

end Batches

end Batch
