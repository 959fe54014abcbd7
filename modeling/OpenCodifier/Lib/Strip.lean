import Mathlib.Data.List.DropRight
set_option autoImplicit false

namespace Strip

universe u

variable {α : Type u}

def rstrip (p : α → Bool) (l : List α) : List α := l.rdropWhile p

def strip (p : α → Bool) (l : List α) : List α := rstrip p (l.dropWhile p)

def Trimmed (p : α → Bool) (l : List α) : Prop :=
  (∀ a ∈ l.head?, p a = false) ∧ ∀ a ∈ l.getLast?, p a = false

instance (p : α → Bool) (l : List α) : Decidable (Trimmed p l) :=
  inferInstanceAs (Decidable (_ ∧ _))

theorem rstrip_eq_self_iff {p : α → Bool} {l : List α} :
    rstrip p l = l ↔ ∀ a ∈ l.getLast?, p a = false := by
  rw [rstrip, List.rdropWhile_eq_self_iff]
  cases l using List.reverseRecOn <;> simp

theorem dropWhile_eq_self_iff {p : α → Bool} {l : List α} :
    l.dropWhile p = l ↔ ∀ a ∈ l.head?, p a = false := by
  cases l with
  | nil => simp
  | cons a l =>
    by_cases h : p a = true
    · have hlength := (l.dropWhile_suffix p).length_le
      have hne : l.dropWhile p ≠ a :: l := fun heq => by
        rw [heq, List.length_cons] at hlength
        omega
      simp [h, hne]
    · simp [h]

theorem strip_length_le (p : α → Bool) (l : List α) : (strip p l).length ≤ l.length :=
  ((List.rdropWhile_prefix p _).length_le).trans (List.dropWhile_suffix p).length_le

theorem strip_eq_self_iff {p : α → Bool} {l : List α} : strip p l = l ↔ Trimmed p l := by
  constructor
  · intro h
    have hle : l.length ≤ (l.dropWhile p).length := by
      have hprefix := (List.rdropWhile_prefix p (l.dropWhile p)).length_le
      rwa [← rstrip, ← strip, h] at hprefix
    have hdrop : l.dropWhile p = l := (List.dropWhile_suffix p).eq_of_length_le hle
    rw [strip, hdrop] at h
    exact ⟨dropWhile_eq_self_iff.mp hdrop, rstrip_eq_self_iff.mp h⟩
  · rintro ⟨hhead, hlast⟩
    rw [strip, dropWhile_eq_self_iff.mpr hhead, rstrip_eq_self_iff.mpr hlast]

theorem dropWhile_dropWhile {p q : α → Bool} (h : ∀ a, p a = true → q a = true) (l : List α) :
    (l.dropWhile p).dropWhile q = l.dropWhile q := by
  induction l with
  | nil => rfl
  | cons a l ih =>
    by_cases hp : p a = true
    · rw [List.dropWhile_cons_of_pos hp, List.dropWhile_cons_of_pos (h a hp), ih]
    · rw [List.dropWhile_cons_of_neg hp]

theorem rstrip_append_singleton (p : α → Bool) (l : List α) (a : α) :
    rstrip p (l ++ [a]) = if p a then rstrip p l else l ++ [a] :=
  List.rdropWhile_concat p l a

theorem dropWhile_rstrip {p q : α → Bool} (h : ∀ a, p a = true → q a = true) (l : List α) :
    rstrip q ((rstrip p l).dropWhile q) = rstrip q (l.dropWhile q) := by
  induction l using List.reverseRecOn with
  | nil => rfl
  | append_singleton l a ih =>
    rw [rstrip_append_singleton]
    by_cases hp : p a = true
    · rw [if_pos hp, ih, List.dropWhile_append]
      by_cases hempty : l.dropWhile q = []
      · simp [hempty, rstrip, h a hp]
      · rw [if_neg (by simpa using hempty), rstrip_append_singleton, if_pos (h a hp)]
    · rw [if_neg hp]

theorem strip_strip {p q : α → Bool} (h : ∀ a, p a = true → q a = true) (l : List α) :
    strip q (strip p l) = strip q l := by
  rw [strip, strip, strip, dropWhile_rstrip h, dropWhile_dropWhile h]

/-- Two notions strip a list alike exactly when the narrower leaves no blank of the wider at an
end. -/
theorem strip_eq_strip_iff {p q : α → Bool} (h : ∀ a, p a = true → q a = true) (l : List α) :
    strip p l = strip q l ↔ Trimmed q (strip p l) := by
  rw [← strip_strip h l, eq_comm, strip_eq_self_iff]

theorem strip_eq_of_length {p q : α → Bool} (h : ∀ a, p a = true → q a = true) {l : List α}
    (hlength : (strip p l).length = (strip q l).length) : strip p l = strip q l := by
  rw [← strip_strip h l] at hlength ⊢
  have hsublist : (strip q (strip p l)).Sublist (strip p l) :=
    (List.rdropWhile_prefix q _).sublist.trans (List.dropWhile_sublist q)
  exact (hsublist.eq_of_length hlength.symm).symm

theorem trimmed_strip (p : α → Bool) (l : List α) : Trimmed p (strip p l) :=
  (strip_eq_strip_iff (fun _ h => h) l).mp rfl

theorem rstrip_label {p : α → Bool} {label t : List α} {b : α} (hb : p b = true)
    (hlabel : ∀ a ∈ label.getLast?, p a = false) (ht : Trimmed p t) :
    rstrip p (label ++ b :: t) = if t = [] then label else label ++ b :: t := by
  by_cases hempty : t = []
  · rw [if_pos hempty, hempty, rstrip_append_singleton, if_pos hb]
    exact rstrip_eq_self_iff.mpr hlabel
  · rw [if_neg hempty, rstrip_eq_self_iff]
    intro a ha
    refine ht.2 a ?_
    rw [List.getLast?_append_of_ne_nil _ (List.cons_ne_nil b t)] at ha
    rwa [List.getLast?_cons_of_ne_nil hempty] at ha

/-- Labelled texts are equal exactly when the texts are, whichever blanks were stripped. -/
theorem rstrip_label_eq_iff {p q : α → Bool} (label : List α) (b : α) {t t' : List α}
    (hp : p b = true) (hq : q b = true) (hlabel : ∀ a ∈ label.getLast?, p a = false ∧ q a = false)
    (ht : Trimmed p t) (ht' : Trimmed q t') :
    rstrip p (label ++ b :: t) = rstrip q (label ++ b :: t') ↔ t = t' := by
  rw [rstrip_label hp (fun a ha => (hlabel a ha).1) ht,
    rstrip_label hq (fun a ha => (hlabel a ha).2) ht']
  by_cases h : t = []
  · by_cases h' : t' = [] <;> simp [h, h', eq_comm]
  · by_cases h' : t' = [] <;> simp [h, h']

end Strip
