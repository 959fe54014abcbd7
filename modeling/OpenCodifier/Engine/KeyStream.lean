import OpenCodifier.Lib.Framing
import OpenCodifier.Engine.Engine
set_option autoImplicit false

namespace OpenCodifier

abbrev KeyBytes := { bytes : List UInt8 // bytes.length = 32 }

theorem keySpace_bytes : 256 ^ 32 = 2 ^ 256 := by decide

theorem length_keyBytes (key : CacheKey) : (BigEndian.bytes 32 key.val).length = 32 :=
  BigEndian.length_bytes 32 key.val

theorem value_lt_keySpace (bytes : KeyBytes) : BigEndian.value bytes.val < 2 ^ 256 := by
  have h := BigEndian.value_lt bytes.val
  rwa [bytes.property, keySpace_bytes] at h

namespace CacheKey

def asBytes (key : CacheKey) : KeyBytes := ⟨BigEndian.bytes 32 key.val, length_keyBytes key⟩

def ofBytes (bytes : KeyBytes) : CacheKey := ⟨BigEndian.value bytes.val, value_lt_keySpace bytes⟩

@[simp]
theorem asBytes_ofBytes (bytes : KeyBytes) : asBytes (ofBytes bytes) = bytes := by
  apply Subtype.ext
  have h := BigEndian.bytes_value bytes.val
  rwa [bytes.property] at h

@[simp]
theorem ofBytes_asBytes (key : CacheKey) : ofBytes (asBytes key) = key := by
  apply Fin.ext
  apply BigEndian.value_bytes
  rw [keySpace_bytes]
  exact key.isLt

end CacheKey

section Encode

def hexTable : List Char :=
  ['0', '1', '2', '3', '4', '5', '6', '7', '8', '9', 'a', 'b', 'c', 'd', 'e', 'f']

def hexChar (n : Nat) : Char := hexTable.getD n '0'

def hexOfByte (byte : UInt8) : List Char := [hexChar (byte.toNat / 16), hexChar (byte.toNat % 16)]

theorem hexChar_digitChar {n : Nat} (h : n < 16) : hexChar n = Nat.digitChar n := by
  have hall : ∀ k < 16, hexChar k = Nat.digitChar k := by decide
  exact hall n h

def lastDigits : Nat → Nat → List Char
  | 0, _ => []
  | k + 1, x => lastDigits k (x / 16) ++ [Nat.digitChar (x % 16)]

theorem padded_toDigits {k x : Nat} (h : x < 16 ^ (k + 1)) :
    List.replicate (k + 1 - (Nat.toDigits 16 x).length) '0' ++ Nat.toDigits 16 x =
      lastDigits (k + 1) x := by
  induction k generalizing x with
  | zero =>
    have hx : x < 16 := by simpa using h
    simp [Nat.toDigits_of_lt_base hx, lastDigits, Nat.mod_eq_of_lt hx]
  | succ k ih =>
    rw [lastDigits]
    by_cases hx : x < 16
    · have hzero := ih (Nat.pow_pos (show 0 < 16 by decide))
      rw [Nat.div_eq_of_lt hx, ← hzero, Nat.toDigits_of_lt_base hx, Nat.mod_eq_of_lt hx]
      simp [List.replicate_succ']
    · have hdiv : x / 16 < 16 ^ (k + 1) := by
        rw [pow_succ] at h
        omega
      rw [Nat.toDigits_of_base_le (by decide) (by omega), ← ih hdiv]
      simp

theorem hexOfByte_flatMap_bytes (n x : Nat) :
    (BigEndian.bytes n x).flatMap hexOfByte = lastDigits (2 * n) x := by
  induction n generalizing x with
  | zero => rfl
  | succ n ih =>
    have hhigh : x % 256 / 16 = x / 16 % 16 := by omega
    have hlow : x % 256 % 16 = x % 16 := by omega
    have hdiv : x / 256 = x / 16 / 16 := by omega
    rw [BigEndian.bytes, List.flatMap_append, ih, List.flatMap_singleton, hexOfByte,
      UInt8.toNat_ofNat', hexChar_digitChar (by omega), hexChar_digitChar (by omega)]
    change _ = lastDigits (2 * n + 1 + 1) x
    rw [lastDigits, lastDigits, hdiv]
    simp [hhigh, hlow]

theorem asHex_eq (key : CacheKey) :
    key.asHex = String.ofList (key.asBytes.val.flatMap hexOfByte) := by
  have hpad := padded_toDigits (k := 63) key.isLt
  rw [CacheKey.asHex, hpad, CacheKey.asBytes, hexOfByte_flatMap_bytes]

end Encode

section Decode

def utf8Bytes (text : String) : List UInt8 := text.toList.flatMap String.utf8EncodeChar

def toDigit16 (c : Char) : Option Nat :=
  if '0' ≤ c ∧ c ≤ '9' then some (c.toNat - '0'.toNat)
  else if 'a' ≤ c ∧ c ≤ 'f' then some (c.toNat - 'a'.toNat + 10)
  else if 'A' ≤ c ∧ c ≤ 'F' then some (c.toNat - 'A'.toNat + 10)
  else none

def charFrom (byte : UInt8) : Char := Char.ofNat byte.toNat

def u8TryFrom (n : Nat) : Option UInt8 := if n < 256 then some (UInt8.ofNat n) else none

/-- The bytes of the pairs of digits; an odd byte at the end is left over. -/
def decodePairs : List UInt8 → Option (List UInt8)
  | first :: second :: rest => do
    let high ← toDigit16 (charFrom first)
    let low ← toDigit16 (charFrom second)
    let byte ← u8TryFrom (high * 16 + low)
    let others ← decodePairs rest
    some (byte :: others)
  | _ => some []

theorem length_decodePairs {l out : List UInt8} (h : decodePairs l = some out) :
    out.length = l.length / 2 := by
  induction l using decodePairs.induct generalizing out with
  | case1 first second rest ih =>
    simp only [decodePairs, Option.bind_eq_bind, Option.bind_eq_some_iff, Option.some.injEq] at h
    obtain ⟨high, -, low, -, byte, -, others, hothers, rfl⟩ := h
    simp only [List.length_cons, ih hothers]
    omega
  | case2 l hl =>
    rw [decodePairs.eq_2 l hl, Option.some.injEq] at h
    subst h
    cases l with
    | nil => rfl
    | cons first l =>
      cases l with
      | nil => simp
      | cons second rest => exact absurd rfl (hl first second rest)

theorem length_decoded {l out : List UInt8} (hl : ¬ l.length ≠ 64)
    (h : decodePairs l = some out) : out.length = 32 := by
  rw [length_decodePairs h]
  omega

def decodeHex (hex : String) : Option KeyBytes :=
  if hlen : (utf8Bytes hex).length ≠ 64 then none
  else match hout : decodePairs (utf8Bytes hex) with
    | none => none
    | some out => some ⟨out, length_decoded hlen hout⟩

def CacheKey.deserialize (hex : String) : Except String CacheKey :=
  match decodeHex hex with
  | some bytes => .ok (.ofBytes bytes)
  | none => .error "cache key must be 64 lowercase hexadecimal characters"

end Decode

section Bytes

theorem utf8Bytes_inj {s t : String} (h : utf8Bytes s = utf8Bytes t) : s = t := by
  apply String.toByteArray_inj.mp
  rw [← String.utf8Encode_toList, ← String.utf8Encode_toList (b := t)]
  exact List.toByteArray_inj.mpr h

def byteOf (c : Char) : UInt8 := c.val.toUInt8

theorem utf8Bytes_ascii {l : List Char} (h : ∀ c ∈ l, c.utf8Size = 1) :
    utf8Bytes (String.ofList l) = l.map byteOf := by
  rw [utf8Bytes, String.toList_ofList]
  induction l with
  | nil => rfl
  | cons c l ih =>
    have hc := String.utf8EncodeChar_eq_singleton (h c List.mem_cons_self)
    rw [List.flatMap_cons, hc, ih fun d hd => h d (List.mem_cons_of_mem _ hd)]
    rfl

theorem forall_uint8 {P : UInt8 → Prop} (h : ∀ n < 256, P (UInt8.ofNat n)) (b : UInt8) : P b := by
  have hb := h b.toNat b.toNat_lt
  rwa [UInt8.ofNat_toNat] at hb

def isUpperDigit (c : Char) : Bool := 'A' ≤ c ∧ c ≤ 'F'

/-- A byte that is read as a digit is an ASCII character, and the digit of its
value in the table or an upper-case one. -/
theorem digit_byte (b : UInt8) : ∀ d ∈ toDigit16 (charFrom b),
    d < 16 ∧ (charFrom b).utf8Size = 1 ∧ byteOf (charFrom b) = b ∧
      (isUpperDigit (charFrom b) = false → charFrom b = hexChar d) := by
  revert b
  exact forall_uint8 (by decide +kernel)

theorem toDigit16_ascii {c : Char} (h : (toDigit16 c).isSome = true) :
    c.utf8Size = 1 ∧ charFrom (byteOf c) = c := by
  have hlt : c.toNat < 128 := by
    unfold toDigit16 at h
    split at h
    · rename_i hc
      exact lt_of_le_of_lt (Char.le_def.mp hc.2) (by decide)
    · split at h
      · rename_i hc
        exact lt_of_le_of_lt (Char.le_def.mp hc.2) (by decide)
      · split at h
        · rename_i hc
          exact lt_of_le_of_lt (Char.le_def.mp hc.2) (by decide)
        · cases h
  have hall : ∀ n < 128, (Char.ofNat n).utf8Size = 1 ∧
      charFrom (byteOf (Char.ofNat n)) = Char.ofNat n := by decide +kernel
  have hc := hall c.toNat hlt
  rwa [Char.ofNat_toNat] at hc

theorem hexChar_byte {n : Nat} (h : n < 16) :
    (hexChar n).utf8Size = 1 ∧ toDigit16 (charFrom (byteOf (hexChar n))) = some n ∧
      isUpperDigit (hexChar n) = false := by
  have hall : ∀ k < 16, (hexChar k).utf8Size = 1 ∧
      toDigit16 (charFrom (byteOf (hexChar k))) = some k ∧ isUpperDigit (hexChar k) = false := by
    decide +kernel
  exact hall n h

end Bytes

section Pairs

theorem mem_hexOfByte {bytes : List UInt8} {c : Char} (h : c ∈ bytes.flatMap hexOfByte) :
    c.utf8Size = 1 ∧ isUpperDigit c = false := by
  obtain ⟨b, -, hc⟩ := List.mem_flatMap.mp h
  have hb := b.toNat_lt
  rcases List.mem_pair.mp hc with rfl | rfl
  · have hdigit := hexChar_byte (show b.toNat / 16 < 16 by omega)
    exact ⟨hdigit.1, hdigit.2.2⟩
  · have hdigit := hexChar_byte (show b.toNat % 16 < 16 by omega)
    exact ⟨hdigit.1, hdigit.2.2⟩

theorem decodePairs_hexOfByte (bytes : List UInt8) :
    decodePairs ((bytes.flatMap hexOfByte).map byteOf) = some bytes := by
  induction bytes with
  | nil => rfl
  | cons b bytes ih =>
    have hb := b.toNat_lt
    have hhigh := (hexChar_byte (show b.toNat / 16 < 16 by omega)).2.1
    have hlow := (hexChar_byte (show b.toNat % 16 < 16 by omega)).2.1
    have hsum : b.toNat / 16 * 16 + b.toNat % 16 = b.toNat := by omega
    have hbyte : u8TryFrom b.toNat = some b := by
      rw [u8TryFrom, if_pos hb, UInt8.ofNat_toNat]
    rw [List.flatMap_cons, hexOfByte, List.cons_append, List.cons_append, List.nil_append,
      List.map_cons, List.map_cons, decodePairs, ih, hhigh, hlow]
    simp [hsum, hbyte]

/-- Bytes that decode are digits, and without an upper-case one they are the
text of what they decode to. -/
theorem decodePairs_some {l out : List UInt8} (heven : l.length % 2 = 0)
    (h : decodePairs l = some out) :
    (∀ b ∈ l, (toDigit16 (charFrom b)).isSome = true) ∧
      ((∀ b ∈ l, isUpperDigit (charFrom b) = false) → l.map charFrom = out.flatMap hexOfByte) := by
  induction l using decodePairs.induct generalizing out with
  | case1 first second rest ih =>
    simp only [decodePairs, Option.bind_eq_bind, Option.bind_eq_some_iff, Option.some.injEq] at h
    obtain ⟨high, hhigh, low, hlow, byte, hbyte, others, hothers, rfl⟩ := h
    have hrest : rest.length % 2 = 0 := by
      simp only [List.length_cons] at heven
      omega
    obtain ⟨hdigits, htext⟩ := ih hrest hothers
    obtain ⟨hhigh16, -, -, hhighChar⟩ := digit_byte first high hhigh
    obtain ⟨hlow16, -, -, hlowChar⟩ := digit_byte second low hlow
    refine ⟨by simpa [hhigh, hlow] using hdigits, fun hlower => ?_⟩
    simp only [List.forall_mem_cons] at hlower
    have hvalue : byte.toNat = high * 16 + low := by
      rw [u8TryFrom, if_pos (by omega), Option.some.injEq] at hbyte
      rw [← hbyte, UInt8.toNat_ofNat']
      omega
    have hdiv : byte.toNat / 16 = high := by omega
    have hmod : byte.toNat % 16 = low := by omega
    rw [List.map_cons, List.map_cons, htext hlower.2.2, hhighChar hlower.1, hlowChar hlower.2.1,
      List.flatMap_cons, hexOfByte, hdiv, hmod]
    rfl
  | case2 l hl =>
    rw [decodePairs.eq_2 l hl, Option.some.injEq] at h
    subst h
    cases l with
    | nil => simp
    | cons first l =>
      cases l with
      | nil => simp at heven
      | cons second rest => exact absurd rfl (hl first second rest)

theorem exists_decodePairs {l : List UInt8}
    (h : ∀ b ∈ l, (toDigit16 (charFrom b)).isSome = true) : ∃ out, decodePairs l = some out := by
  induction l using decodePairs.induct with
  | case1 first second rest ih =>
    simp only [List.forall_mem_cons] at h
    obtain ⟨high, hhigh⟩ := Option.isSome_iff_exists.mp h.1
    obtain ⟨low, hlow⟩ := Option.isSome_iff_exists.mp h.2.1
    obtain ⟨others, hothers⟩ := ih h.2.2
    have hhigh16 := (digit_byte first high hhigh).1
    have hlow16 := (digit_byte second low hlow).1
    have hbyte : u8TryFrom (high * 16 + low) = some (UInt8.ofNat (high * 16 + low)) :=
      if_pos (by omega)
    simp [decodePairs, hhigh, hlow, hothers, hbyte]
  | case2 l hl => exact ⟨[], decodePairs.eq_2 l hl⟩

end Pairs

section Law

theorem utf8Bytes_asHex (key : CacheKey) :
    utf8Bytes key.asHex = (key.asBytes.val.flatMap hexOfByte).map byteOf := by
  rw [asHex_eq, utf8Bytes_ascii fun c hc => (mem_hexOfByte hc).1]

theorem length_hexOfByte (bytes : List UInt8) :
    (bytes.flatMap hexOfByte).length = 2 * bytes.length := by
  induction bytes with
  | nil => rfl
  | cons b bytes ih =>
    rw [List.flatMap_cons, List.length_append, ih, List.length_cons, hexOfByte]
    simp only [List.length_cons, List.length_nil]
    omega

theorem decodeHex_eq_some_iff {s : String} {bytes : KeyBytes} :
    decodeHex s = some bytes ↔
      (utf8Bytes s).length = 64 ∧ decodePairs (utf8Bytes s) = some bytes.val := by
  unfold decodeHex
  split
  · rename_i hlen
    simp [hlen]
  · rename_i hlen
    have h64 : (utf8Bytes s).length = 64 := not_not.mp hlen
    split
    · rename_i hnone
      simp [hnone]
    · rename_i out hout
      simp [hout, h64, Subtype.ext_iff]

theorem deserialize_ok_iff {s : String} {key : CacheKey} :
    CacheKey.deserialize s = .ok key ↔ decodeHex s = some key.asBytes := by
  unfold CacheKey.deserialize
  cases h : decodeHex s with
  | none => simp
  | some bytes =>
    rw [Except.ok.injEq, Option.some.injEq]
    constructor
    · rintro rfl
      exact (CacheKey.asBytes_ofBytes bytes).symm
    · rintro rfl
      exact CacheKey.ofBytes_asBytes key

theorem deserialize_asHex (key : CacheKey) : CacheKey.deserialize key.asHex = .ok key := by
  rw [deserialize_ok_iff, decodeHex_eq_some_iff, utf8Bytes_asHex]
  refine ⟨?_, decodePairs_hexOfByte key.asBytes.val⟩
  rw [List.length_map, length_hexOfByte, key.asBytes.property]

theorem text_of_decodes {s : String} {bytes : KeyBytes} (h : decodeHex s = some bytes) :
    s = String.ofList ((utf8Bytes s).map charFrom) := by
  obtain ⟨hlen, hpairs⟩ := decodeHex_eq_some_iff.mp h
  have hdigits := (decodePairs_some (by omega) hpairs).1
  have hbyte : ∀ b ∈ utf8Bytes s, (charFrom b).utf8Size = 1 ∧ byteOf (charFrom b) = b := by
    intro b hb
    obtain ⟨d, hd⟩ := Option.isSome_iff_exists.mp (hdigits b hb)
    exact ⟨(digit_byte b d hd).2.1, (digit_byte b d hd).2.2.1⟩
  apply utf8Bytes_inj
  rw [utf8Bytes_ascii, List.map_map]
  · exact (List.map_id _).symm.trans (List.map_congr_left fun b hb => (hbyte b hb).2.symm)
  · intro c hc
    obtain ⟨b, hb, rfl⟩ := List.mem_map.mp hc
    exact (hbyte b hb).1

/-- The 64 digits of a key, at least one of them in upper case. -/
def UpperHex (s : String) : Prop :=
  s.toList.length = 64 ∧ (∀ c ∈ s.toList, (toDigit16 c).isSome = true) ∧
    ∃ c ∈ s.toList, isUpperDigit c = true

/-- A text is the only one of the key it decodes to, if it decodes at all. -/
structure TextOfKey (s : String) : Prop where
  decodes_iff : (∃ key, CacheKey.deserialize s = .ok key) ↔ ∃ key : CacheKey, s = key.asHex
  written_back : ∀ key, CacheKey.deserialize s = .ok key → key.asHex = s

theorem not_upperHex_asHex (key : CacheKey) : ¬ UpperHex key.asHex := by
  rintro ⟨-, -, c, hc, hupper⟩
  rw [asHex_eq, String.toList_ofList] at hc
  rw [(mem_hexOfByte hc).2] at hupper
  cases hupper

theorem upperHex_decodes {s : String} (h : UpperHex s) :
    ∃ key, CacheKey.deserialize s = .ok key := by
  obtain ⟨hlen, hdigits, -⟩ := h
  have hchar : ∀ c ∈ s.toList, c.utf8Size = 1 ∧ charFrom (byteOf c) = c := by
    intro c hc
    exact toDigit16_ascii (hdigits c hc)
  have hbytes : utf8Bytes s = s.toList.map byteOf := by
    have hascii := utf8Bytes_ascii fun c hc => (hchar c hc).1
    rwa [String.ofList_toList] at hascii
  obtain ⟨out, hout⟩ := exists_decodePairs (l := utf8Bytes s) (by
    intro b hb
    rw [hbytes] at hb
    obtain ⟨c, hc, rfl⟩ := List.mem_map.mp hb
    rw [(hchar c hc).2]
    exact hdigits c hc)
  have h64 : (utf8Bytes s).length = 64 := by rw [hbytes, List.length_map, hlen]
  have hsome : decodeHex s = some ⟨out, length_decoded (not_not.mpr h64) hout⟩ :=
    decodeHex_eq_some_iff.mpr ⟨h64, hout⟩
  exact ⟨.ofBytes ⟨out, length_decoded (not_not.mpr h64) hout⟩,
    deserialize_ok_iff.mpr (by rw [hsome, CacheKey.asBytes_ofBytes])⟩

theorem asHex_of_deserialize {s : String} {key : CacheKey}
    (h : CacheKey.deserialize s = .ok key) (hs : ¬ UpperHex s) : key.asHex = s := by
  have hdecode := deserialize_ok_iff.mp h
  have htext := text_of_decodes hdecode
  obtain ⟨hlen, hpairs⟩ := decodeHex_eq_some_iff.mp hdecode
  obtain ⟨hdigits, hwritten⟩ := decodePairs_some (by omega) hpairs
  have hchars : s.toList = (utf8Bytes s).map charFrom := by
    have hlist := congrArg String.toList htext
    rwa [String.toList_ofList] at hlist
  have hlower : ∀ b ∈ utf8Bytes s, isUpperDigit (charFrom b) = false := by
    intro b hb
    by_contra hupper
    refine hs ⟨by rw [hchars, List.length_map, hlen], ?_, charFrom b, ?_, by simpa using hupper⟩
    · rw [hchars]
      exact List.forall_mem_map.mpr hdigits
    · rw [hchars]
      exact List.mem_map_of_mem hb
  rw [asHex_eq, ← hwritten hlower]
  exact htext.symm

/-- The texts of keys are exactly those that decode, and each is the text of
what it decodes to, but for the upper-case forms that the decoder lets through. -/
theorem textOfKey_iff (s : String) : TextOfKey s ↔ ¬ UpperHex s := by
  constructor
  · intro h hs
    obtain ⟨key, hkey⟩ := upperHex_decodes hs
    have hback := h.written_back key hkey
    rw [← hback] at hs
    exact not_upperHex_asHex key hs
  · intro hs
    refine ⟨⟨?_, ?_⟩, fun key h => asHex_of_deserialize h hs⟩
    · rintro ⟨key, hkey⟩
      exact ⟨key, (asHex_of_deserialize hkey hs).symm⟩
    · rintro ⟨key, rfl⟩
      exact ⟨key, deserialize_asHex key⟩

theorem TextOfKey.eq_of_deserialize {s t : String} (hs : TextOfKey s) (ht : TextOfKey t)
    {key : CacheKey} (h : CacheKey.deserialize s = .ok key)
    (h' : CacheKey.deserialize t = .ok key) : s = t :=
  (hs.written_back key h).symm.trans (ht.written_back key h')

theorem key_text_exact_iff (s : String) :
    (TextOfKey s ↔ ¬ UpperHex s) ∧
      ∀ t, ¬ UpperHex s → ¬ UpperHex t → s ≠ t → ∀ key,
        ¬ (CacheKey.deserialize s = .ok key ∧ CacheKey.deserialize t = .ok key) := by
  refine ⟨textOfKey_iff s, fun t hs ht hne key h => hne ?_⟩
  exact ((textOfKey_iff s).mpr hs).eq_of_deserialize ((textOfKey_iff t).mpr ht) h.1 h.2

theorem key_text_exact_digits :
    TextOfKey (String.ofList (List.replicate 64 '0')) ∧
      ∀ key, ¬ (CacheKey.deserialize (String.ofList (List.replicate 64 '0')) = .ok key ∧
        CacheKey.deserialize (String.ofList (List.replicate 64 'f')) = .ok key) := by
  have hzero : ¬ UpperHex (String.ofList (List.replicate 64 '0')) := by
    simp [UpperHex, isUpperDigit]
  have hlower : ¬ UpperHex (String.ofList (List.replicate 64 'f')) := by
    simp [UpperHex, isUpperDigit]
  have hexact := key_text_exact_iff (String.ofList (List.replicate 64 '0'))
  exact ⟨hexact.1.mpr hzero, hexact.2 _ hzero hlower (by decide)⟩

theorem upper_text_denotes_lower :
    ∃ key, CacheKey.deserialize (String.ofList (List.replicate 64 'A')) = .ok key ∧
      CacheKey.deserialize (String.ofList (List.replicate 64 'a')) = .ok key ∧
      key.asHex ≠ String.ofList (List.replicate 64 'A') ∧
      ∀ other : CacheKey, String.ofList (List.replicate 64 'A') ≠ other.asHex := by
  have hupper : UpperHex (String.ofList (List.replicate 64 'A')) := by
    simp [UpperHex, toDigit16, isUpperDigit]
  have hsame : decodeHex (String.ofList (List.replicate 64 'A')) =
      decodeHex (String.ofList (List.replicate 64 'a')) := by decide +kernel
  obtain ⟨key, hkey⟩ := upperHex_decodes hupper
  refine ⟨key, hkey, ?_, fun h => ?_, fun other h => ?_⟩
  · rwa [deserialize_ok_iff, ← hsame, ← deserialize_ok_iff]
  · exact not_upperHex_asHex key (h ▸ hupper)
  · exact not_upperHex_asHex other (h ▸ hupper)

end Law

/-- The bytes of a slice; their count fits the machine word. -/
abbrev Chunk := {bytes : List UInt8 // bytes.length < 2 ^ 64}

/-- A string whose bytes fit the machine word. -/
abbrev KeyText := {text : String // text.utf8ByteSize < 2 ^ 64}

def KeyText.asBytes (text : KeyText) : Chunk :=
  ⟨text.1.toByteArray.data.toList, by simpa using text.2⟩

structure KeyIdentity where
  graphVersion : UInt64
  modelId : KeyText
  calibrationVersion : UInt64
  engineSemver : KeyText
  embeddingModel : KeyText

namespace CacheKeyBuilder

def writeU64 (value : UInt64) : List UInt8 := Framing.u64LeBytes 8 ++ Framing.u64LeBytes value

def writeChunk (bytes : Chunk) : List UInt8 := writeU64 (UInt64.ofNat bytes.1.length) ++ bytes.1

/-- What the key of a request feeds to the hash: the canonical bytes of the request, then the
identity. -/
def stream (canonical : Chunk) (identity : KeyIdentity) : List UInt8 :=
  writeChunk canonical ++ (writeU64 identity.graphVersion ++
    (writeChunk identity.modelId.asBytes ++ (writeU64 identity.calibrationVersion ++
      (writeChunk identity.engineSemver.asBytes ++ writeChunk identity.embeddingModel.asBytes))))

/-- The key of a request; `canonicalBytes` serializes the normalized request. -/
def build (canonicalBytes : DecisionRequest → EngineResult Chunk)
    (hash : List UInt8 → CacheKey) (request : DecisionRequest) (identity : KeyIdentity) :
    EngineResult CacheKey := do
  let canonical ← canonicalBytes (normalizedRequest request)
  pure (hash (stream canonical identity))

section Readers

def readU64 (input : List UInt8) : Option (UInt64 × List UInt8) :=
  (Framing.readU64Le input).bind fun width => Framing.readU64Le width.2

def readChunk (input : List UInt8) : Option (Chunk × List UInt8) :=
  (readU64 input).map fun r =>
    (⟨r.2.take r.1.toNat, (List.length_take_le _ _).trans_lt r.1.toNat_lt⟩, r.2.drop r.1.toNat)

theorem readU64_writeU64 : Framing.Reads readU64 writeU64 := by
  intro value tail
  rw [readU64, writeU64, List.append_assoc, Framing.readU64Le_u64LeBytes]
  exact Framing.readU64Le_u64LeBytes value tail

theorem readChunk_writeChunk : Framing.Reads readChunk writeChunk := by
  intro bytes tail
  have hlen : (UInt64.ofNat bytes.1.length).toNat = bytes.1.length := by
    rw [UInt64.toNat_ofNat']
    exact Nat.mod_eq_of_lt bytes.2
  rw [readChunk, writeChunk, List.append_assoc, readU64_writeU64]
  simp [hlen]

theorem KeyText.asBytes_injective : Function.Injective KeyText.asBytes := by
  intro a b h
  have hlist : a.1.toByteArray.data.toList = b.1.toByteArray.data.toList :=
    congrArg Subtype.val h
  exact Subtype.ext (String.toByteArray_inj.mp (ByteArray.ext (Array.toList_inj.mp hlist)))

end Readers

theorem stream_eq {canonical canonical' : Chunk} {identity identity' : KeyIdentity}
    (h : stream canonical identity = stream canonical' identity') :
    canonical = canonical' ∧ identity = identity' := by
  obtain ⟨hc, h⟩ := readChunk_writeChunk.split h
  obtain ⟨hg, h⟩ := readU64_writeU64.split h
  obtain ⟨hm, h⟩ := readChunk_writeChunk.split h
  obtain ⟨hv, h⟩ := readU64_writeU64.split h
  obtain ⟨hs, h⟩ := readChunk_writeChunk.split h
  have he := readChunk_writeChunk.injective h
  refine ⟨hc, ?_⟩
  cases identity
  cases identity'
  cases KeyText.asBytes_injective hm
  cases KeyText.asBytes_injective hs
  cases KeyText.asBytes_injective he
  cases hg
  cases hv
  rfl

/-- The stream determines the canonical bytes and every part of the identity, whatever
characters its texts contain; two contexts share a key only when the hash collides on their
two streams. -/
theorem stream_injective (canonicalBytes : DecisionRequest → EngineResult Chunk)
    (hash : List UInt8 → CacheKey) :
    (Function.Injective fun context : Chunk × KeyIdentity => stream context.1 context.2) ∧
    ∀ request request' identity identity' canonical canonical',
      canonicalBytes (normalizedRequest request) = .ok canonical →
      canonicalBytes (normalizedRequest request') = .ok canonical' →
      build canonicalBytes hash request identity = build canonicalBytes hash request' identity' →
      (canonical = canonical' ∧ identity = identity') ∨
        (stream canonical identity ≠ stream canonical' identity' ∧
          hash (stream canonical identity) = hash (stream canonical' identity')) := by
  constructor
  · intro a b h
    exact Prod.ext_iff.mpr (stream_eq h)
  · intro request request' identity identity' canonical canonical' hc hc' h
    by_cases heq : stream canonical identity = stream canonical' identity'
    · exact Or.inl (stream_eq heq)
    · rw [build, build, hc, hc'] at h
      exact Or.inr ⟨heq, Except.ok.inj h⟩

end CacheKeyBuilder

end OpenCodifier
