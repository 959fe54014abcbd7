import Mathlib.Algebra.Order.Group.Nat
import Mathlib.Data.List.Basic
import Mathlib.Data.List.Induction
import Mathlib.Algebra.GroupWithZero.Nat
set_option autoImplicit false

universe u v

namespace Framing

section Readers

variable {β : Type u} {α : Type v}

/-- A reader that takes the encoding of a value off the front of any input. -/
def Reads (read : List β → Option (α × List β)) (encode : α → List β) : Prop :=
  ∀ a tail, read (encode a ++ tail) = some (a, tail)

theorem Reads.split {read : List β → Option (α × List β)} {encode : α → List β}
    (h : Reads read encode) {a b : α} {tail tail' : List β}
    (heq : encode a ++ tail = encode b ++ tail') : a = b ∧ tail = tail' := by
  have hr := congrArg read heq
  rw [h a tail, h b tail'] at hr
  exact Prod.mk.inj (Option.some.inj hr)

theorem Reads.injective {read : List β → Option (α × List β)} {encode : α → List β}
    (h : Reads read encode) : Function.Injective encode := by
  intro a b heq
  have hfront : encode a ++ [] = encode b ++ [] := by rw [heq]
  exact (h.split hfront).1

end Readers

section Delimited

variable {β : Type u}

/-- A stretch that holds no delimiter ends where the first delimiter stands. -/
theorem append_inj_of_delimited (delimiter : β → Prop) {a a' tail tail' : List β}
    (ha : ∀ x ∈ a, ¬ delimiter x) (ha' : ∀ x ∈ a', ¬ delimiter x)
    (ht : ∀ x ∈ tail.head?, delimiter x) (ht' : ∀ x ∈ tail'.head?, delimiter x)
    (h : a ++ tail = a' ++ tail') : a = a' ∧ tail = tail' := by
  induction a generalizing a' with
  | nil =>
    cases a' with
    | nil => exact ⟨rfl, h⟩
    | cons y a' =>
      have hhead : tail.head? = some y := by rw [← List.nil_append tail, h]; rfl
      exact absurd (ht y hhead) (ha' y List.mem_cons_self)
  | cons x a ih =>
    cases a' with
    | nil =>
      have hhead : tail'.head? = some x := by rw [← List.nil_append tail', ← h]; rfl
      exact absurd (ht' x hhead) (ha x List.mem_cons_self)
    | cons y a' =>
      obtain ⟨hx, hrest⟩ := List.cons.inj h
      obtain ⟨hal, htl⟩ := ih (fun z hz => ha z (List.mem_cons_of_mem _ hz))
        (fun z hz => ha' z (List.mem_cons_of_mem _ hz)) hrest
      exact ⟨by rw [hx, hal], htl⟩

theorem head?_append_delimiter {delimiter : β → Prop} {a b : List β}
    (ha : ∀ x ∈ a.head?, delimiter x) (hb : ∀ x ∈ b.head?, delimiter x) :
    ∀ x ∈ (a ++ b).head?, delimiter x := by
  cases a with
  | nil => exact hb
  | cons y a => exact ha

theorem not_mem_of_forall_ne {delimiter : β} {a : List β} (h : delimiter ∉ a) :
    ∀ x ∈ a, ¬ x = delimiter := by
  intro x hx he
  exact h (he ▸ hx)

theorem repr_append_inj {n n' : Nat} {tail tail' : List Char}
    (ht : ∀ c ∈ tail.head?, ¬ c.isDigit) (ht' : ∀ c ∈ tail'.head?, ¬ c.isDigit)
    (h : n.repr.toList ++ tail = n'.repr.toList ++ tail') : n = n' ∧ tail = tail' := by
  have hdigits : ∀ m : Nat, ∀ c ∈ m.repr.toList, ¬ ¬ c.isDigit := by
    intro m c hc
    rw [Nat.toList_repr] at hc
    exact not_not.mpr (Nat.isDigit_of_mem_toDigits (by omega) (by omega) hc)
  obtain ⟨hn, htail⟩ := append_inj_of_delimited (fun c : Char => ¬ c.isDigit) (hdigits n)
    (hdigits n') ht ht' h
  rw [Nat.toList_repr, Nat.toList_repr] at hn
  have hv := congrArg (fun l => Nat.ofDigitChars 10 l 0) hn
  simp only [Nat.ofDigitChars_ten_toDigits] at hv
  exact ⟨hv, htail⟩

theorem repr_inj {n n' : Nat} (h : n.repr = n'.repr) : n = n' := by
  have htail : ∀ c ∈ ([] : List Char).head?, ¬ c.isDigit := by simp
  exact (repr_append_inj htail htail (by rw [h])).1

end Delimited

section Words

/-- The lowest bytes of a number, least significant first. -/
def leBytes : Nat → Nat → List UInt8
  | 0, _ => []
  | width + 1, n => UInt8.ofNat n :: leBytes width (n / 256)

def readLe : Nat → List UInt8 → Option (Nat × List UInt8)
  | 0, input => some (0, input)
  | _ + 1, [] => none
  | width + 1, b :: input => do
    let (n, rest) ← readLe width input
    pure (b.toNat + 256 * n, rest)

theorem readLe_leBytes (width n : Nat) (tail : List UInt8) :
    readLe width (leBytes width n ++ tail) = some (n % 256 ^ width, tail) := by
  induction width generalizing n with
  | zero => simp [readLe, leBytes, Nat.mod_one]
  | succ width ih =>
    have hbyte : (UInt8.ofNat n).toNat = n % 256 := by simp
    rw [leBytes, List.cons_append, readLe, ih, hbyte, pow_succ']
    simp [Nat.mod_mul]

def u64LeBytes (value : UInt64) : List UInt8 := leBytes 8 value.toNat

def readU64Le (input : List UInt8) : Option (UInt64 × List UInt8) := do
  let (n, rest) ← readLe 8 input
  pure (UInt64.ofNat n, rest)

theorem readU64Le_u64LeBytes : Reads readU64Le u64LeBytes := by
  intro value tail
  have hlt : value.toNat < 256 ^ 8 := value.toNat_lt
  rw [readU64Le, u64LeBytes, readLe_leBytes, Nat.mod_eq_of_lt hlt]
  simp

end Words

end Framing

namespace BigEndian

def value (bytes : List UInt8) : Nat := bytes.foldl (fun n b => n * 256 + b.toNat) 0

def bytes : Nat → Nat → List UInt8
  | 0, _ => []
  | n + 1, x => bytes n (x / 256) ++ [UInt8.ofNat x]

theorem value_append_singleton (l : List UInt8) (b : UInt8) :
    value (l ++ [b]) = value l * 256 + b.toNat := by
  simp [value, List.foldl_append]

theorem length_bytes (n x : Nat) : (bytes n x).length = n := by
  induction n generalizing x with
  | zero => rfl
  | succ n ih => simp [bytes, ih]

theorem value_lt (l : List UInt8) : value l < 256 ^ l.length := by
  induction l using List.reverseRecOn with
  | nil => simp [value]
  | append_singleton l b ih =>
    have hb := b.toNat_lt
    rw [value_append_singleton, List.length_append, List.length_singleton, pow_succ]
    omega

theorem value_bytes {n x : Nat} (h : x < 256 ^ n) : value (bytes n x) = x := by
  induction n generalizing x with
  | zero => simp_all [bytes, value]
  | succ n ih =>
    have hx : x / 256 < 256 ^ n := by
      rw [pow_succ] at h
      omega
    rw [bytes, value_append_singleton, ih hx, UInt8.toNat_ofNat']
    omega

theorem bytes_value (l : List UInt8) : bytes l.length (value l) = l := by
  induction l using List.reverseRecOn with
  | nil => rfl
  | append_singleton l b ih =>
    have hb := b.toNat_lt
    have hdiv : (value l * 256 + b.toNat) / 256 = value l := by omega
    have hlast : UInt8.ofNat (value l * 256 + b.toNat) = b := by
      apply UInt8.toNat_inj.mp
      rw [UInt8.toNat_ofNat']
      omega
    rw [List.length_append, List.length_singleton, bytes, value_append_singleton, hdiv, ih, hlast]

end BigEndian
