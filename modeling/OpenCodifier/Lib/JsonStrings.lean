import Mathlib.Data.List.Basic
import Mathlib.Algebra.GroupWithZero.Nat
import Mathlib.Algebra.BigOperators.Group.List.Basic
import OpenCodifier.Lib.Json
set_option autoImplicit false

namespace JsonStrings

def quote : Char := Char.ofNat 34

def backslash : Char := Char.ofNat 92

def hexDigit (n : Nat) : Char := "0123456789abcdef".toList.getD n '0'

def hexValue (c : Char) : Option Nat :=
  let i := "0123456789abcdef".toList.idxOf c
  if i < 16 then some i
  else
    let j := "ABCDEF".toList.idxOf c
    if j < 6 then some (10 + j) else none

def letterOf (c : Char) : Option Char :=
  if c.toNat = 8 then some 'b'
  else if c.toNat = 9 then some 't'
  else if c.toNat = 10 then some 'n'
  else if c.toNat = 12 then some 'f'
  else if c.toNat = 13 then some 'r'
  else none

def controlOf (letter : Char) : Option Char :=
  if letter = 'b' then some (Char.ofNat 8)
  else if letter = 't' then some (Char.ofNat 9)
  else if letter = 'n' then some (Char.ofNat 10)
  else if letter = 'f' then some (Char.ofNat 12)
  else if letter = 'r' then some (Char.ofNat 13)
  else if letter = quote ∨ letter = backslash ∨ letter = '/' then some letter
  else none

/-- The quote, the backslash and the control characters are escaped, nothing else is. -/
def escape (c : Char) : List Char :=
  if c = quote ∨ c = backslash then [backslash, c]
  else
    match letterOf c with
    | some letter => [backslash, letter]
    | none =>
      if c.toNat < 32 then
        [backslash, 'u', '0', '0', hexDigit (c.toNat / 16), hexDigit (c.toNat % 16)]
      else [c]

def write (s : List Char) : List Char := quote :: (s.flatMap escape ++ [quote])

def hexChar (a b c d : Char) : Option Char := do
  let a ← hexValue a
  let b ← hexValue b
  let c ← hexValue c
  let d ← hexValue d
  let n := ((a * 16 + b) * 16 + c) * 16 + d
  if 0xD800 ≤ n ∧ n < 0xE000 then none else some (Char.ofNat n)

/-- The content up to the closing quote, and what follows it. -/
def readBody : List Char → Option (List Char × List Char)
  | [] => none
  | c :: rest =>
    if c = quote then some ([], rest)
    else if c = backslash then
      match rest with
      | 'u' :: a :: b :: d :: e :: rest =>
        (hexChar a b d e).bind fun c => (readBody rest).map fun p => (c :: p.1, p.2)
      | letter :: rest =>
        (controlOf letter).bind fun c => (readBody rest).map fun p => (c :: p.1, p.2)
      | [] => none
    else if c.toNat < 32 then none
    else (readBody rest).map fun p => (c :: p.1, p.2)

def read : List Char → Option (List Char × List Char)
  | c :: rest => if c = quote then readBody rest else none
  | [] => none

def writeList : List (List Char) → List Char
  | [] => ['[', ']']
  | s :: rest => '[' :: (write s ++ rest.flatMap (fun t => ',' :: write t) ++ [']'])

def readRest : Nat → List Char → Option (List (List Char))
  | _, [']'] => some []
  | fuel + 1, ',' :: rest => (read rest).bind fun p => (readRest fuel p.2).map (p.1 :: ·)
  | _, _ => none

def readList (text : List Char) : Option (List (List Char)) :=
  match text with
  | ['[', ']'] => some []
  | '[' :: rest => (read rest).bind fun p => (readRest text.length p.2).map (p.1 :: ·)
  | _ => none

theorem controlOf_letterOf {c letter : Char} (h : letterOf c = some letter) :
    controlOf letter = some c ∧ letter ≠ 'u' := by
  have hc : ∀ n, c.toNat = n → c = Char.ofNat n := by
    rintro n rfl
    exact (Char.ofNat_toNat c).symm
  unfold letterOf at h
  repeat' split at h
  all_goals cases h
  all_goals rename_i hn
  all_goals rw [hc _ hn]
  all_goals decide

theorem hexChar_hexDigit : ∀ n < 32,
    hexChar '0' '0' (hexDigit (n / 16)) (hexDigit (n % 16)) = some (Char.ofNat n) := by
  decide

theorem readBody_letter {letter : Char} (rest : List Char) (h : letter ≠ 'u') :
    readBody (backslash :: letter :: rest) = (controlOf letter).bind fun c =>
      (readBody rest).map fun p => (c :: p.1, p.2) := by
  have hq : backslash ≠ quote := by decide
  rw [readBody.eq_def]
  simp only [hq, if_false, if_true]
  split
  · rename_i heq
    cases heq
    exact absurd rfl h
  · rename_i heq
    cases heq
    rfl
  · exact absurd ‹letter :: rest = []› (List.cons_ne_nil _ _)

theorem readBody_hex (a b c d : Char) (rest : List Char) :
    readBody (backslash :: 'u' :: a :: b :: c :: d :: rest) = (hexChar a b c d).bind fun e =>
      (readBody rest).map fun p => (e :: p.1, p.2) := rfl

theorem readBody_plain {c : Char} (rest : List Char) (hq : c ≠ quote) (hb : c ≠ backslash)
    (hc : ¬ c.toNat < 32) : readBody (c :: rest) = (readBody rest).map fun p => (c :: p.1, p.2) := by
  rw [readBody.eq_def]
  simp only [hq, hb, hc, if_false]

/-- What is escaped is read back, and what follows it is left. -/
theorem readBody_escape (c : Char) (rest : List Char) :
    readBody (escape c ++ rest) = (readBody rest).map fun p => (c :: p.1, p.2) := by
  unfold escape
  split
  · rename_i h
    have hu : c ≠ 'u' := by
      rcases h with rfl | rfl <;> decide
    have hcontrol : controlOf c = some c := by
      rcases h with rfl | rfl <;> decide
    exact (readBody_letter rest hu).trans (by rw [hcontrol]; rfl)
  · rename_i h
    obtain ⟨hq, hb⟩ := not_or.mp h
    split
    · rename_i letter hletter
      obtain ⟨hcontrol, hu⟩ := controlOf_letterOf hletter
      exact (readBody_letter rest hu).trans (by rw [hcontrol]; rfl)
    · split
      · rename_i hc
        have hhex := hexChar_hexDigit c.toNat hc
        rw [Char.ofNat_toNat] at hhex
        exact (readBody_hex _ _ _ _ rest).trans (by rw [hhex]; rfl)
      · rename_i hc
        exact readBody_plain rest hq hb hc

theorem readBody_flatMap (s rest : List Char) :
    readBody (s.flatMap escape ++ quote :: rest) = some (s, rest) := by
  induction s with
  | nil =>
    rw [List.flatMap_nil, List.nil_append, readBody.eq_def]
    exact if_pos rfl
  | cons c s ih => rw [List.flatMap_cons, List.append_assoc, readBody_escape, ih, Option.map_some]

theorem read_write (s rest : List Char) : read (write s ++ rest) = some (s, rest) := by
  have h := readBody_flatMap s rest
  simpa [read, write] using h

theorem readRest_writeRest (rest : List (List Char)) (fuel : Nat) (h : rest.length ≤ fuel) :
    readRest fuel (rest.flatMap (fun t => ',' :: write t) ++ [']']) = some rest := by
  induction rest generalizing fuel with
  | nil => cases fuel <;> rfl
  | cons t rest ih =>
    cases fuel with
    | zero => simp at h
    | succ fuel =>
      have ih := ih fuel (by simpa using h)
      rw [List.flatMap_cons, List.append_assoc, List.cons_append]
      simp only [readRest, read_write, Option.bind_some, ih]
      rfl

/-- A list of strings is read back. -/
theorem readList_writeList (l : List (List Char)) : readList (writeList l) = some l := by
  cases l with
  | nil => rfl
  | cons s rest =>
    have hlength : rest.length ≤ (rest.flatMap fun t => ',' :: write t).length := by
      induction rest with
      | nil => simp
      | cons t rest ih =>
        simp only [List.flatMap_cons, List.length_append, List.length_cons]
        omega
    rw [writeList, readList.eq_def]
    split
    · rename_i heq
      simp [write] at heq
    · rename_i heq
      cases heq
      rw [List.append_assoc, read_write, Option.bind_some, readRest_writeRest rest _]
      · rfl
      · simp only [List.length_append, List.length_cons]
        omega
    · rename_i hne
      exact absurd rfl (hne _)

end JsonStrings

namespace Json

def quotedLen (value : String) : Nat := ((JsonStrings.write value.toList).map Char.utf8Size).sum

variable (number : JsonNumber → Nat)

mutual

/-- An item counts the comma or the bracket after it; an empty list has two brackets. -/
def compactLen : Json → Nat
  | .null => 4
  | .bool value => if value then 4 else 5
  | .num value => number value
  | .str value => quotedLen value
  | .arr items => 1 + max 1 (compactItems items)
  | .obj fields => 1 + max 1 (compactFields fields)

def compactItems : List Json → Nat
  | [] => 0
  | j :: rest => compactLen j + 1 + compactItems rest

def compactFields : List (String × Json) → Nat
  | [] => 0
  | (key, j) :: rest => quotedLen key + 1 + compactLen j + 1 + compactFields rest

end

def compactField (e : String × Json) : Nat := quotedLen e.1 + 1 + compactLen number e.2 + 1

theorem compactFields_eq (fields : List (String × Json)) :
    compactFields number fields = (fields.map (compactField number)).sum := by
  induction fields with
  | nil => rfl
  | cons e rest ih => rw [List.map_cons, List.sum_cons, ← ih, compactFields, compactField]

theorem compactLen_struct {fields : List (String × Option Value)}
    (hn : (fields.map Prod.fst).Nodup) :
    compactLen number (Value.struct fields).1 = 1 + max 1
      ((fields.filterMap fun f => f.2.map fun v => compactField number (f.1, v.1)).sum) := by
  have hkeys : ((fields.filterMap fun f => f.2.map fun v => (f.1, v)).map Prod.fst).Nodup := by
    refine hn.sublist ?_
    clear hn
    induction fields with
    | nil => simp
    | cons f rest ih =>
      obtain ⟨name, value⟩ := f
      cases value with
      | some v => simpa using ih
      | none => simpa using ih.cons name
  have hperm := (OrdMap.ofList_entries_perm hkeys).map fun e => compactField number (e.1, e.2.1)
  rw [Value.struct_val, compactLen, compactFields_eq, Value.structFields, List.map_map]
  rw [show (compactField number ∘ fun e : String × Value => (e.1, e.2.1)) =
    fun e => compactField number (e.1, e.2.1) from rfl, hperm.sum_eq, List.map_filterMap]
  simp only [Option.map_map, Function.comp_def]

end Json
