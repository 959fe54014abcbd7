import Mathlib.Data.List.Basic
set_option autoImplicit false

namespace Base64

def alphabet : List Char :=
  "ABCDEFGHIJKLMNOPQRSTUVWXYZabcdefghijklmnopqrstuvwxyz0123456789+/".toList

def digit (n : Nat) : Char := alphabet.getD n '='

def value? (c : Char) : Option Nat :=
  if c ∈ alphabet then some (alphabet.idxOf c) else none

def pad : Char := '='

/-- Three bytes in four digits; a last group of one or two bytes is padded. -/
def encode : List UInt8 → List Char
  | [] => []
  | [a] => [digit (a.toNat / 4), digit (a.toNat % 4 * 16), pad, pad]
  | [a, b] =>
    [digit (a.toNat / 4), digit (a.toNat % 4 * 16 + b.toNat / 16), digit (b.toNat % 16 * 4), pad]
  | a :: b :: c :: rest =>
    digit (a.toNat / 4) :: digit (a.toNat % 4 * 16 + b.toNat / 16) ::
      digit (b.toNat % 16 * 4 + c.toNat / 64) :: digit (c.toNat % 64) :: encode rest

def decodeGroup (w x y z : Char) : Option (List UInt8) := do
  let w ← value? w
  let x ← value? x
  let y ← value? y
  let z ← value? z
  some [UInt8.ofNat (w * 4 + x / 16), UInt8.ofNat (x % 16 * 16 + y / 4),
    UInt8.ofNat (y % 4 * 64 + z)]

/-- The last group; the bits its padding stands for must be zero. -/
def decodeLast (w x y z : Char) : Option (List UInt8) :=
  if y = pad && z = pad then do
    let w ← value? w
    let x ← value? x
    if x % 16 = 0 then some [UInt8.ofNat (w * 4 + x / 16)] else none
  else if z = pad then do
    let w ← value? w
    let x ← value? x
    let y ← value? y
    if y % 4 = 0 then
      some [UInt8.ofNat (w * 4 + x / 16), UInt8.ofNat (x % 16 * 16 + y / 4)]
    else none
  else decodeGroup w x y z

def decode : List Char → Option (List UInt8)
  | [] => some []
  | [w, x, y, z] => decodeLast w x y z
  | w :: x :: y :: z :: rest => do
    let bytes ← decodeGroup w x y z
    let others ← decode rest
    some (bytes ++ others)
  | _ => none

theorem value?_digit {n : Nat} (h : n < 64) : value? (digit n) = some n := by
  have hall : ∀ k : Fin 64, value? (digit k.val) = some k.val := by decide +kernel
  exact hall ⟨n, h⟩

theorem digit_ne_pad {n : Nat} (h : n < 64) : digit n ≠ pad := by
  have hall : ∀ k : Fin 64, digit k.val ≠ pad := by decide +kernel
  exact hall ⟨n, h⟩

theorem digit_utf8Size (n : Nat) : (digit n).utf8Size = 1 := by
  by_cases h : n < 64
  · have hall : ∀ k : Fin 64, (digit k.val).utf8Size = 1 := by decide +kernel
    exact hall ⟨n, h⟩
  · have hlen : alphabet.length ≤ n := by
      have h64 : alphabet.length = 64 := by decide +kernel
      omega
    rw [digit, List.getD_eq_getElem?_getD, List.getElem?_eq_none hlen]
    decide

theorem length_encode (bytes : List UInt8) :
    (encode bytes).length = 4 * ((bytes.length + 2) / 3) := by
  induction bytes using encode.induct with
  | case1 => rfl
  | case2 a => simp [encode]
  | case3 a b => simp [encode]
  | case4 a b c rest ih =>
    simp only [encode, List.length_cons, ih]
    omega

theorem pad_utf8Size : pad.utf8Size = 1 := by decide

theorem utf8Size_encode (bytes : List UInt8) : ∀ c ∈ encode bytes, c.utf8Size = 1 := by
  induction bytes using encode.induct with
  | case1 => simp [encode]
  | case2 a => simp [encode, digit_utf8Size, pad_utf8Size]
  | case3 a b => simp [encode, digit_utf8Size, pad_utf8Size]
  | case4 a b c rest ih =>
    simp only [encode, List.mem_cons, forall_eq_or_imp, digit_utf8Size, true_and]
    exact ih

theorem decodeGroup_encode (a b c : UInt8) :
    decodeGroup (digit (a.toNat / 4)) (digit (a.toNat % 4 * 16 + b.toNat / 16))
      (digit (b.toNat % 16 * 4 + c.toNat / 64)) (digit (c.toNat % 64)) = some [a, b, c] := by
  have ha := a.toNat_lt
  have hb := b.toNat_lt
  have hc := c.toNat_lt
  rw [decodeGroup, value?_digit (by omega), value?_digit (by omega), value?_digit (by omega),
    value?_digit (by omega)]
  have h1 : a.toNat / 4 * 4 + (a.toNat % 4 * 16 + b.toNat / 16) / 16 = a.toNat := by omega
  have h2 : (a.toNat % 4 * 16 + b.toNat / 16) % 16 * 16 +
      (b.toNat % 16 * 4 + c.toNat / 64) / 4 = b.toNat := by omega
  have h3 : (b.toNat % 16 * 4 + c.toNat / 64) % 4 * 64 + c.toNat % 64 = c.toNat := by omega
  simp only [Option.bind_eq_bind, Option.bind_some, h1, h2, h3, UInt8.ofNat_toNat]

/-- Decoding the encoding gives the bytes back. -/
theorem decode_encode (bytes : List UInt8) : decode (encode bytes) = some bytes := by
  induction bytes using encode.induct with
  | case1 => rfl
  | case2 a =>
    have ha := a.toNat_lt
    have h1 : a.toNat / 4 * 4 + a.toNat % 4 * 16 / 16 = a.toNat := by omega
    have h2 : a.toNat % 4 * 16 % 16 = 0 := by omega
    rw [encode, decode, decodeLast, value?_digit (by omega), value?_digit (by omega)]
    simp only [Bool.and_self, decide_true, if_true, Option.bind_eq_bind,
      Option.bind_some, h1, h2, UInt8.ofNat_toNat]
  | case3 a b =>
    have ha := a.toNat_lt
    have hb := b.toNat_lt
    have hy := digit_ne_pad (n := b.toNat % 16 * 4) (by omega)
    have h1 : a.toNat / 4 * 4 + (a.toNat % 4 * 16 + b.toNat / 16) / 16 = a.toNat := by omega
    have h2 : (a.toNat % 4 * 16 + b.toNat / 16) % 16 * 16 + b.toNat % 16 * 4 / 4 = b.toNat := by
      omega
    have h3 : b.toNat % 16 * 4 % 4 = 0 := by omega
    rw [encode, decode, decodeLast, value?_digit (by omega), value?_digit (by omega),
      value?_digit (by omega)]
    simp only [hy, decide_false, decide_true, Bool.false_and, Bool.false_eq_true, if_false, if_true,
      Option.bind_eq_bind, Option.bind_some, h1, h2, h3, UInt8.ofNat_toNat]
  | case4 a b c rest ih =>
    have hc := c.toNat_lt
    have hz := digit_ne_pad (n := c.toNat % 64) (by omega)
    cases rest with
    | nil =>
      rw [encode, encode, decode, decodeLast, decodeGroup_encode]
      simp [hz]
    | cons d rest =>
      have hne : encode (d :: rest) ≠ [] := by
        intro he
        have hlen := length_encode (d :: rest)
        rw [he, List.length_nil, List.length_cons] at hlen
        omega
      obtain ⟨e, tail, hcons⟩ := List.exists_cons_of_ne_nil hne
      rw [hcons] at ih
      rw [encode, hcons, decode, decodeGroup_encode, ih]
      · rfl
      · simp

end Base64
