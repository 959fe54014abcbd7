import Mathlib.Data.List.Forall2
import Mathlib.Data.List.Basic
set_option autoImplicit false

universe u v w

namespace Result

variable {ε : Type u} {α : Type v} {β : Type v} {γ : Type v}

theorem bind_ok {x : Except ε α} {f : α → Except ε β} {b : β} :
    (x >>= f) = .ok b ↔ ∃ a, x = .ok a ∧ f a = .ok b := by
  cases x with
  | error e => simp [bind, Except.bind]
  | ok a => simp [bind, Except.bind]

theorem bind_error {x : Except ε α} {f : α → Except ε β} {e : ε} :
    (x >>= f) = .error e ↔ x = .error e ∨ ∃ a, x = .ok a ∧ f a = .error e := by
  cases x with
  | error e' => simp [bind, Except.bind]
  | ok a => simp [bind, Except.bind]

theorem pure_ok {a b : α} : (pure a : Except ε α) = .ok b ↔ b = a :=
  ⟨fun h => (Except.ok.inj h).symm, fun h => congrArg Except.ok h.symm⟩

theorem bind_unit_ok {δ : Type} {x : Except ε Unit} {y : Except ε δ} {d : δ} :
    (do x; y) = .ok d ↔ x = .ok () ∧ y = .ok d := by
  cases x with
  | error e => simp [bind, Except.bind]
  | ok u => simp [bind, Except.bind]

theorem forM_cons {δ : Type} (f : δ → Except ε Unit) (a : δ) (l : List δ) :
    (a :: l).forM f = (do f a; l.forM f) := rfl

theorem forM_ok_iff {δ : Type} (f : δ → Except ε Unit) (l : List δ) :
    l.forM f = .ok () ↔ ∀ a ∈ l, f a = .ok () := by
  induction l with
  | nil => simp [pure, Except.pure]
  | cons a l ih =>
    change (do f a; l.forM f) = .ok () ↔ _
    rw [bind_unit_ok, ih]
    simp

theorem forM_error {δ : Type} {f : δ → Except ε Unit} {l : List δ} {e : ε}
    (h : l.forM f = .error e) : ∃ a ∈ l, f a = .error e := by
  induction l with
  | nil => cases h
  | cons a l ih =>
    rw [forM_cons] at h
    cases ha : f a with
    | error e' =>
      rw [ha] at h
      cases h
      exact ⟨a, List.mem_cons_self, ha⟩
    | ok u =>
      rw [ha] at h
      obtain ⟨b, hb, he⟩ := ih h
      exact ⟨b, List.mem_cons_of_mem _ hb, he⟩

theorem map_ok {x : Except ε α} {f : α → β} {b : β} :
    (f <$> x) = .ok b ↔ ∃ a, x = .ok a ∧ f a = b := by
  cases x with
  | error e => simp [Functor.map, Except.map]
  | ok a => simp [Functor.map, Except.map]

theorem mapError_ok {ε' : Type w} {f : ε → ε'} {x : Except ε α} {a : α} :
    x.mapError f = .ok a ↔ x = .ok a := by
  cases x with
  | error e => simp [Except.mapError]
  | ok a => simp [Except.mapError]

theorem map_bind_map {δ : Type v} {x : Except ε α} {f : α → β} {g : α → Except ε γ}
    {g' : β → Except ε δ} {h : γ → δ} (hg : ∀ a, g' (f a) = (g a).map h) :
    (x.map f >>= g') = (x >>= g).map h := by
  cases x with
  | error e => rfl
  | ok a => exact hg a

theorem ite_error_ok {c : Prop} [Decidable c] {e : ε} {a b : α} :
    (if c then .error e else .ok a) = Except.ok b ↔ ¬c ∧ a = b := by
  by_cases h : c <;> simp [h]

theorem toOption_eq_some {x : Except ε α} {a : α} : x.toOption = some a ↔ x = .ok a := by
  cases x with
  | error e => simp [Except.toOption]
  | ok b => simp [Except.toOption]

theorem ok_of_isSome {x : Except ε α} (h : x.toOption.isSome = true) : ∃ a, x = .ok a := by
  obtain ⟨a, ha⟩ := Option.isSome_iff_exists.mp h
  exact ⟨a, toOption_eq_some.mp ha⟩

/-- A traversal that returns pairs each input with its result, in order. -/
theorem mapM_ok {δ : Type w} {f : δ → Except ε β} {l : List δ} {ys : List β} :
    l.mapM f = .ok ys ↔ List.Forall₂ (fun a b => f a = .ok b) l ys := by
  induction l generalizing ys with
  | nil =>
    rw [List.mapM_nil, List.forall₂_nil_left_iff]
    exact ⟨fun h => by cases h; rfl, fun h => h ▸ rfl⟩
  | cons a l ih =>
    rw [List.mapM_cons, bind_ok]
    constructor
    · rintro ⟨b, hb, h⟩
      obtain ⟨bs, hbs, h⟩ := bind_ok.mp h
      cases h
      exact List.Forall₂.cons hb (ih.mp hbs)
    · intro h
      cases h with
      | cons hb hbs => exact ⟨_, hb, bind_ok.mpr ⟨_, ih.mpr hbs, rfl⟩⟩

theorem mapM_ok_mem {δ : Type w} {f : δ → Except ε β} {l : List δ} {ys : List β}
    (h : l.mapM f = .ok ys) {a : δ} (ha : a ∈ l) : ∃ b ∈ ys, f a = .ok b := by
  have hf := mapM_ok.mp h
  clear h
  induction hf with
  | nil => simp at ha
  | cons hb _ ih =>
    rcases List.mem_cons.mp ha with rfl | ha
    · exact ⟨_, List.mem_cons_self, hb⟩
    · obtain ⟨b, hm, hb⟩ := ih ha
      exact ⟨b, List.mem_cons_of_mem _ hm, hb⟩

theorem mem_of_mapM_ok {δ : Type w} {f : δ → Except ε β} {l : List δ} {ys : List β}
    (h : l.mapM f = .ok ys) {b : β} (hb : b ∈ ys) : ∃ a ∈ l, f a = .ok b := by
  have hf := mapM_ok.mp h
  clear h
  induction hf with
  | nil => simp at hb
  | cons ha _ ih =>
    rcases List.mem_cons.mp hb with rfl | hb
    · exact ⟨_, List.mem_cons_self, ha⟩
    · obtain ⟨a, hm, ha⟩ := ih hb
      exact ⟨a, List.mem_cons_of_mem _ hm, ha⟩

theorem mapM_error {δ : Type w} {f : δ → Except ε β} {l : List δ} {e : ε}
    (h : l.mapM f = .error e) : ∃ a ∈ l, f a = .error e := by
  induction l with
  | nil => cases h
  | cons a l ih =>
    rw [List.mapM_cons] at h
    rcases bind_error.mp h with ha | ⟨b, -, h⟩
    · exact ⟨a, List.mem_cons_self, ha⟩
    rcases bind_error.mp h with hl | ⟨bs, -, h⟩
    · obtain ⟨c, hc, he⟩ := ih hl
      exact ⟨c, List.mem_cons_of_mem _ hc, he⟩
    · cases h

theorem mapM_map_eq {δ : Type w} {κ : Type w} {f : δ → Except ε β} {g : β → κ} {k : δ → κ}
    {l : List δ} {ys : List β} (h : l.mapM f = .ok ys) (hf : ∀ a b, f a = .ok b → g b = k a) :
    ys.map g = l.map k := by
  have hl := mapM_ok.mp h
  clear h
  induction hl with
  | nil => rfl
  | cons hhead _ ih => rw [List.map_cons, List.map_cons, ih, hf _ _ hhead]

theorem mapM_length {δ : Type w} {f : δ → Except ε β} {l : List δ} {ys : List β}
    (h : l.mapM f = .ok ys) : ys.length = l.length :=
  (mapM_ok.mp h).length_eq.symm

theorem mapM_ok_exists {δ : Type w} {f : δ → Except ε β} {S : δ → β → Prop} {l : List δ} :
    (∃ ys, l.mapM f = .ok ys ∧ List.Forall₂ S l ys) ↔ ∀ a ∈ l, ∃ b, f a = .ok b ∧ S a b := by
  induction l with
  | nil => simp [pure, Except.pure]
  | cons a l ih =>
    rw [List.forall_mem_cons, ← ih]
    constructor
    · rintro ⟨ys, hf, hs⟩
      cases mapM_ok.mp hf with
      | cons hb hbs =>
        cases hs with
        | cons hsb hsbs => exact ⟨⟨_, hb, hsb⟩, _, mapM_ok.mpr hbs, hsbs⟩
    · rintro ⟨⟨b, hb, hsb⟩, bs, hbs, hsbs⟩
      exact ⟨b :: bs, mapM_ok.mpr (.cons hb (mapM_ok.mp hbs)), .cons hsb hsbs⟩

theorem mapM_ok_iff_eq_map {δ : Type w} {f : δ → Except ε β} {P : δ → Prop} {g : δ → β}
    {l : List δ} (h : ∀ a ∈ l, ∀ b, f a = .ok b ↔ P a ∧ b = g a) (ys : List β) :
    l.mapM f = .ok ys ↔ (∀ a ∈ l, P a) ∧ ys = l.map g := by
  induction l generalizing ys with
  | nil => simp [pure, Except.pure, eq_comm]
  | cons a l ih =>
    have ih := ih fun b hb => h b (List.mem_cons_of_mem _ hb)
    have hhead := h a List.mem_cons_self
    rw [List.mapM_cons, bind_ok, List.forall_mem_cons]
    constructor
    · rintro ⟨b, hb, hrest⟩
      obtain ⟨bs, hbs, hrest⟩ := bind_ok.mp hrest
      cases hrest
      obtain ⟨ha, rfl⟩ := (hhead b).mp hb
      obtain ⟨hl, rfl⟩ := (ih bs).mp hbs
      exact ⟨⟨ha, hl⟩, rfl⟩
    · rintro ⟨⟨ha, hl⟩, rfl⟩
      exact ⟨g a, (hhead _).mpr ⟨ha, rfl⟩, bind_ok.mpr ⟨_, (ih _).mpr ⟨hl, rfl⟩, rfl⟩⟩

theorem mapM_some_eq_map {δ : Type w} {f : δ → Option β} {g : δ → β} {l : List δ}
    (h : ∀ a ∈ l, f a = some (g a)) : l.mapM f = some (l.map g) := by
  induction l with
  | nil => rfl
  | cons a l ih =>
    have ih := ih fun b hb => h b (List.mem_cons_of_mem _ hb)
    rw [List.mapM_cons, h a List.mem_cons_self, ih]
    rfl

/-- What every step of a loop keeps holds at its end. -/
theorem foldlM_invariant {δ : Type w} {α : Type u} {P : α → Prop} {f : α → δ → Except ε α}
    (hstep : ∀ a d b, P a → f a d = .ok b → P b) {l : List δ} {a r : α} (ha : P a)
    (h : l.foldlM f a = .ok r) : P r := by
  induction l generalizing a with
  | nil =>
    cases h
    exact ha
  | cons d l ih =>
    rw [List.foldlM_cons] at h
    obtain ⟨b, hb, h⟩ := bind_ok.mp h
    exact ih (hstep a d b ha hb) h

/-- A fold whose steps each replace the accumulator by the last of what they find ends with the
last of all that was found. -/
theorem foldlM_last {δ : Type w} {α : Type u} {f : Option α → δ → Except ε (Option α)}
    {R : δ → List α → Prop}
    (hf : ∀ acc d r, f acc d = .ok r ↔ ∃ ts, R d ts ∧ r = ts.getLast?.or acc)
    (l : List δ) (acc r : Option α) :
    l.foldlM f acc = .ok r ↔ ∃ tss, List.Forall₂ R l tss ∧ r = tss.flatten.getLast?.or acc := by
  induction l generalizing acc with
  | nil =>
    simp only [List.foldlM_nil, List.forall₂_nil_left_iff]
    constructor
    · intro h
      cases h
      exact ⟨[], rfl, rfl⟩
    · rintro ⟨tss, rfl, rfl⟩
      rfl
  | cons d l ih =>
    rw [List.foldlM_cons, bind_ok]
    constructor
    · rintro ⟨next, hnext, h⟩
      obtain ⟨ts, hts, rfl⟩ := (hf acc d next).mp hnext
      obtain ⟨tss, htss, rfl⟩ := (ih _).mp h
      exact ⟨ts :: tss, .cons hts htss, by simp [List.getLast?_append, Option.or_assoc]⟩
    · rintro ⟨tss, htss, rfl⟩
      cases htss with
      | cons hts hrest =>
        exact ⟨_, (hf acc d _).mpr ⟨_, hts, rfl⟩, (ih _).mpr ⟨_, hrest, by
          simp [List.getLast?_append, Option.or_assoc]⟩⟩

section Rel

variable {ε : Type u} {α β γ δ : Type v}

/-- Two computations fail alike or return related values. -/
inductive Rel (R : α → β → Prop) : Except ε α → Except ε β → Prop
  | ok {a : α} {b : β} : R a b → Rel R (.ok a) (.ok b)
  | error (e : ε) : Rel R (.error e) (.error e)

theorem Rel.of_eq {R : α → α → Prop} (hR : ∀ a, R a a) {x y : Except ε α} (h : x = y) :
    Rel R x y := by
  subst h
  cases x with
  | error e => exact .error e
  | ok a => exact .ok (hR a)

theorem Rel.bind {R : α → β → Prop} {S : γ → δ → Prop} {x : Except ε α} {y : Except ε β}
    {f : α → Except ε γ} {g : β → Except ε δ} (h : Rel R x y)
    (hf : ∀ a b, R a b → Rel S (f a) (g b)) : Rel S (x >>= f) (y >>= g) := by
  cases h with
  | error e => exact .error e
  | ok h => exact hf _ _ h

theorem Rel.map_eq {R : α → β → Prop} {x : Except ε α} {y : Except ε β} (h : Rel R x y)
    {f : α → γ} {g : β → γ} (hf : ∀ a b, R a b → f a = g b) : f <$> x = g <$> y := by
  cases h with
  | error e => rfl
  | ok h => exact congrArg Except.ok (hf _ _ h)

theorem Rel.mapM {κ : Type w} {κ' : Type w} {Q : κ → κ' → Prop} {R : α → β → Prop}
    {f : κ → Except ε α} {g : κ' → Except ε β} {l : List κ} {l' : List κ'}
    (hl : List.Forall₂ Q l l') (h : ∀ a b, Q a b → Rel R (f a) (g b)) :
    Rel (List.Forall₂ R) (l.mapM f) (l'.mapM g) := by
  induction hl with
  | nil => exact .ok .nil
  | cons hab _ ih =>
    rw [List.mapM_cons, List.mapM_cons]
    refine (h _ _ hab).bind fun a b hr => ih.bind fun as bs hrs => ?_
    exact .ok (.cons hr hrs)

end Rel

section Ends

variable {E : ε → Prop} {P : α → Prop} {Q : β → Prop}

/-- A computation that ends with a result of one kind or an error of another. -/
def Ends (E : ε → Prop) (P : α → Prop) : Except ε α → Prop
  | .ok a => P a
  | .error e => E e

theorem Ends.bind {x : Except ε α} {f : α → Except ε β} (h : Ends E P x)
    (hf : ∀ a, P a → Ends E Q (f a)) : Ends E Q (x >>= f) := by
  cases x with
  | error e => exact h
  | ok a => exact hf a h

theorem Ends.mapM {δ : Type w} {f : δ → Except ε β} {R : δ → β → Prop} {l : List δ}
    (h : ∀ a ∈ l, Ends E (R a) (f a)) : Ends E (List.Forall₂ R l) (l.mapM f) := by
  induction l with
  | nil => exact List.Forall₂.nil
  | cons a l ih =>
    rw [List.forall_mem_cons] at h
    rw [List.mapM_cons]
    exact h.1.bind fun b hb => (ih h.2).bind fun bs hbs => List.Forall₂.cons hb hbs

theorem Ends.mapM_all {δ : Type w} {f : δ → Except ε β} (l : List δ)
    (h : ∀ a, Ends E (fun _ => True) (f a)) : Ends E (fun _ => True) (l.mapM f) := by
  have hall := Ends.mapM fun a (_ : a ∈ l) => h a
  cases hm : l.mapM f with
  | error e =>
    rw [hm] at hall
    exact hall
  | ok bs => trivial

end Ends

section Cut

variable {E : ε → Prop}

/-- A computation is run whole, or an error of some kind cuts it short. -/
inductive Cut (E : ε → Prop) : Except ε α → Except ε α → Prop
  | whole (x : Except ε α) : Cut E x x
  | short {x : Except ε α} {e : ε} : E e → Cut E x (.error e)

theorem Cut.bind {x x' : Except ε α} {f f' : α → Except ε β} (h : Cut E x x')
    (hf : ∀ a, Cut E (f a) (f' a)) : Cut E (x >>= f) (x' >>= f') := by
  cases h with
  | short he => exact .short he
  | whole =>
    cases x with
    | error e => exact .whole _
    | ok a => exact hf a

theorem Cut.mapM {δ : Type w} {f f' : δ → Except ε β} (l : List δ)
    (h : ∀ a, Cut E (f a) (f' a)) : Cut E (l.mapM f) (l.mapM f') := by
  induction l with
  | nil => exact .whole _
  | cons a l ih =>
    rw [List.mapM_cons, List.mapM_cons]
    exact (h a).bind fun b => ih.bind fun bs => .whole _

theorem Cut.eq_or {x y : Except ε α} (h : Cut E x y) : y = x ∨ ∃ e, E e ∧ y = .error e := by
  cases h with
  | whole => exact Or.inl rfl
  | short he => exact Or.inr ⟨_, he, rfl⟩

end Cut

end Result
