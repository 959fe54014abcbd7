import OpenCodifier.Engine.Facts
set_option autoImplicit false

namespace OpenCodifier

def padded (width n : Nat) : List Char := (Nat.toDigits 10 n).leftpad width '0'

theorem isDigit_of_mem_padded {width n : Nat} {c : Char} (h : c ∈ padded width n) :
    c.isDigit = true := by
  rw [padded, List.leftpad, List.mem_append, List.mem_replicate] at h
  rcases h with ⟨-, rfl⟩ | h
  · decide
  · exact Nat.isDigit_of_mem_toDigits (by decide) (by decide) h

theorem padded_ne_nil (width n : Nat) : padded width n ≠ [] := by
  simp [padded, List.leftpad]

theorem length_padded {width n : Nat} (hw : 0 < width) (h : n < 10 ^ width) :
    (padded width n).length = width := by
  have hlen := (Nat.length_toDigits_le_iff (by decide) hw).mpr h
  rw [padded, List.length_leftpad]
  omega

theorem ofDigitChars_padded (width n : Nat) : Nat.ofDigitChars 10 (padded width n) 0 = n := by
  rw [padded, List.leftpad, Nat.ofDigitChars_append, Nat.ofDigitChars_replicate_zero, Nat.mul_zero]
  exact Nat.ofDigitChars_ten_toDigits

theorem ne_of_isDigit {c : Char} (h : c.isDigit = true) {d : Char} (hd : d.isDigit = false) :
    c ≠ d := by
  rintro rfl
  rw [h] at hd
  cases hd

theorem parseU32_padded {width n : Nat} (h : n < 2 ^ 32) : parseU32 (padded width n) = some n := by
  have hplus : (padded width n).head? ≠ some '+' := by
    intro hhead
    exact ne_of_isDigit (isDigit_of_mem_padded (List.mem_of_mem_head? hhead)) (by decide) rfl
  have hall : (padded width n).all Char.isDigit = true :=
    List.all_eq_true.mpr fun c hc => isDigit_of_mem_padded hc
  simp only [parseU32, if_neg hplus, hall, padded_ne_nil, ofDigitChars_padded, if_pos h]
  rfl

theorem utf8Len_of_ascii {chars : List Char} (h : ∀ c ∈ chars, c.utf8Size = 1) :
    utf8Len chars = chars.length := by
  induction chars with
  | nil => rfl
  | cons c chars ih =>
    have hrest := ih fun d hd => h d (List.mem_cons_of_mem _ hd)
    rw [utf8Len] at hrest ⊢
    rw [List.map_cons, List.sum_cons, hrest, h c List.mem_cons_self, List.length_cons]
    omega

theorem utf8Size_of_isDigit {c : Char} (h : c.isDigit = true) : c.utf8Size = 1 := by
  simp only [Char.isDigit, Bool.and_eq_true, decide_eq_true_eq] at h
  have hle : c.val ≤ 0x7F := by
    have h9 := h.2
    rw [UInt32.le_iff_toNat_le] at h9 ⊢
    exact h9.trans (by decide)
  simp [Char.utf8Size, hle]

theorem splitOnce_append {delimiter : Char} {before : List Char} (h : delimiter ∉ before)
    (after : List Char) :
    splitOnce delimiter (before ++ delimiter :: after) = some (before, after) := by
  induction before with
  | nil => simp [splitOnce]
  | cons c before ih =>
    have hc : c ≠ delimiter := fun he => h (he ▸ List.mem_cons_self)
    have hrest := ih fun hm => h (List.mem_cons_of_mem _ hm)
    simp [splitOnce, hc, hrest]

theorem splitOnce_none {delimiter : Char} {chars : List Char} (h : delimiter ∉ chars) :
    splitOnce delimiter chars = none := by
  induction chars with
  | nil => rfl
  | cons c chars ih =>
    have hc : c ≠ delimiter := fun he => h (he ▸ List.mem_cons_self)
    have hrest := ih fun hm => h (List.mem_cons_of_mem _ hm)
    simp [splitOnce, hc, hrest]

theorem splitOnce_some {delimiter : Char} {chars before after : List Char}
    (h : splitOnce delimiter chars = some (before, after)) :
    chars = before ++ delimiter :: after := by
  induction chars generalizing before with
  | nil => simp [splitOnce] at h
  | cons c chars ih =>
    simp only [splitOnce] at h
    split at h
    · rename_i hc
      cases h
      rw [hc, List.nil_append]
    · obtain ⟨⟨before', after'⟩, hrest, he⟩ := Option.map_eq_some_iff.mp h
      cases he
      rw [ih hrest, List.cons_append]

namespace Timestamp

def isoDate (t : Timestamp) : List Char :=
  padded 4 t.year ++ '-' :: (padded 2 t.month ++ '-' :: padded 2 t.day)

def isoClock (t : Timestamp) : List Char := padded 2 t.hour ++ ':' :: padded 2 t.minute

/-- The clock is left out at midnight. -/
def toIso (t : Timestamp) : String :=
  if t.hour = 0 && t.minute = 0 then String.ofList t.isoDate
  else String.ofList (t.isoDate ++ 'T' :: t.isoClock)

/-- A day of the calendar and a minute of that day, with a year of at most four digits. -/
structure Valid (t : Timestamp) : Prop where
  year : t.year < 10000
  month : 1 ≤ t.month ∧ t.month ≤ 12
  day : 1 ≤ t.day ∧ t.day ≤ daysInMonth t.year t.month
  hour : t.hour ≤ 23
  minute : t.minute ≤ 59

def Iso (word : String) (t : Timestamp) : Prop :=
  t.Valid ∧ ((word.toList = t.isoDate ∧ t.hour = 0 ∧ t.minute = 0) ∨
    word.toList = t.isoDate ++ 'T' :: t.isoClock)

theorem daysInMonth_le (year month : Nat) : daysInMonth year month ≤ 31 := by
  unfold daysInMonth
  split
  · omega
  · split
    · omega
    · split
      · split <;> omega
      · omega

theorem splitOnP_dash {width n : Nat} (rest : List Char) :
    (padded width n ++ '-' :: rest).splitOnP (fun c => c = '-') =
      padded width n :: rest.splitOnP fun c => c = '-' :=
  List.splitOnP_append_cons_of_forall_mem
    (fun _ hc => decide_eq_false (ne_of_isDigit (isDigit_of_mem_padded hc) (by decide)))
    '-' (by decide) rest

theorem splitOnP_padded {width n : Nat} {sep : Char} (hsep : sep.isDigit = false) :
    (padded width n).splitOnP (fun c => c = sep) = [padded width n] :=
  List.splitOnP_eq_singleton fun _ hc =>
    decide_eq_false (ne_of_isDigit (isDigit_of_mem_padded hc) hsep)

theorem parseDate_isoDate {t : Timestamp} (h : t.Valid) :
    parseDate t.isoDate = some (t.year, t.month, t.day) := by
  have hdays := daysInMonth_le t.year t.month
  have hyear := h.year
  have hmonth := h.month
  have hday := h.day
  rw [parseDate, isoDate, splitOnP_dash, splitOnP_dash, splitOnP_padded (by decide)]
  simp only [parseU32_padded (show t.year < 2 ^ 32 by omega),
    parseU32_padded (show t.month < 2 ^ 32 by omega),
    parseU32_padded (show t.day < 2 ^ 32 by omega), Option.bind_eq_bind, Option.bind_some]
  rw [if_neg (by simp; omega)]

theorem parseClock_isoClock {t : Timestamp} (h : t.Valid) :
    parseClock t.isoClock = some (t.hour, t.minute) := by
  have hhour := h.hour
  have hminute := h.minute
  have hsplit : t.isoClock.splitOnP (fun c => c = ':') = [padded 2 t.hour, padded 2 t.minute] := by
    rw [isoClock, List.splitOnP_append_cons_of_forall_mem
      (fun _ hc => decide_eq_false (ne_of_isDigit (isDigit_of_mem_padded hc) (by decide)))
      ':' (by decide), splitOnP_padded (by decide)]
  rw [parseClock, hsplit]
  simp only [parseU32_padded (show t.hour < 2 ^ 32 by omega),
    parseU32_padded (show t.minute < 2 ^ 32 by omega), Option.bind_eq_bind, Option.bind_some]
  rw [if_neg (by simp; omega)]

theorem mem_isoDate {t : Timestamp} {c : Char} (h : c ∈ t.isoDate) :
    c.isDigit = true ∨ c = '-' := by
  simp only [isoDate, List.mem_append, List.mem_cons] at h
  rcases h with h | h | h | h | h
  · exact Or.inl (isDigit_of_mem_padded h)
  · exact Or.inr h
  · exact Or.inl (isDigit_of_mem_padded h)
  · exact Or.inr h
  · exact Or.inl (isDigit_of_mem_padded h)

theorem utf8Len_isoDate {t : Timestamp} (h : t.Valid) : utf8Len t.isoDate = 10 := by
  have hdays := daysInMonth_le t.year t.month
  have hmonth := h.month
  have hday := h.day
  rw [utf8Len_of_ascii]
  · simp only [isoDate, List.length_append, List.length_cons,
      @length_padded 4 t.year (by decide) h.year,
      @length_padded 2 t.month (by decide) (by omega),
      @length_padded 2 t.day (by decide) (by omega)]
  · intro c hc
    rcases mem_isoDate hc with hc | rfl
    · exact utf8Size_of_isDigit hc
    · rfl

theorem utf8Len_isoClock {t : Timestamp} (h : t.Valid) : utf8Len t.isoClock = 5 := by
  have hhour := h.hour
  have hminute := h.minute
  rw [utf8Len_of_ascii]
  · simp only [isoClock, List.length_append, List.length_cons,
      @length_padded 2 t.hour (by decide) (by omega),
      @length_padded 2 t.minute (by decide) (by omega)]
  · intro c hc
    simp only [isoClock, List.mem_append, List.mem_cons] at hc
    rcases hc with hc | rfl | hc
    · exact utf8Size_of_isDigit (isDigit_of_mem_padded hc)
    · rfl
    · exact utf8Size_of_isDigit (isDigit_of_mem_padded hc)

theorem T_notMem_isoDate (t : Timestamp) : 'T' ∉ t.isoDate := by
  intro h
  rcases mem_isoDate h with h | h
  · exact absurd h (by decide)
  · exact absurd h (by decide)

/-- Both ISO forms of a time are read back as that time. -/
theorem parse_of_iso {word : String} {t : Timestamp} (h : Iso word t) : parse word = some t := by
  obtain ⟨hv, ⟨hword, hhour, hminute⟩ | hword⟩ := h
  · have hparts : parts word.toList = (t.isoDate, none) := by
      rw [parts, hword, splitOnce_none t.T_notMem_isoDate]
    rw [parse, hparts]
    simp only [utf8Len_isoDate hv, parseDate_isoDate hv, Option.bind_eq_bind, Option.bind_some]
    obtain ⟨year, month, day, hour, minute⟩ := t
    simp only at hhour hminute
    subst hhour hminute
    rfl
  · have hparts : parts word.toList = (t.isoDate, some t.isoClock) := by
      rw [parts, hword, splitOnce_append t.T_notMem_isoDate]
    rw [parse, hparts]
    simp [utf8Len_isoDate hv, utf8Len_isoClock hv, parseDate_isoDate hv, parseClock_isoClock hv]

theorem iso_toIso {t : Timestamp} (h : t.Valid) : Iso t.toIso t := by
  refine ⟨h, ?_⟩
  unfold toIso
  split
  · rename_i hm
    left
    simpa using hm
  · right
    rw [String.toList_ofList]

theorem parse_toIso {t : Timestamp} (h : t.Valid) : parse t.toIso = some t :=
  parse_of_iso (iso_toIso h)

theorem mem_of_mem_parts {chars : List Char} {c : Char} (h : c ∈ (parts chars).1) : c ∈ chars := by
  unfold parts at h
  split at h
  · rename_i date clock hsplit
    rw [splitOnce_some hsplit]
    exact List.mem_append_left _ h
  · exact h

theorem dash_mem_of_parse {word : String} {t : Timestamp} (h : parse word = some t) :
    '-' ∈ word.toList := by
  refine mem_of_mem_parts ?_
  unfold parse at h
  by_contra hdash
  have hsplit : (parts word.toList).1.splitOnP (fun c => c = '-') = [(parts word.toList).1] :=
    List.splitOnP_eq_singleton fun c hc => decide_eq_false fun he => hdash (he ▸ hc)
  have hnone : parseDate (parts word.toList).1 = none := by
    rw [parseDate, hsplit]
  rcases hparts : parts word.toList with ⟨date, clock⟩
  rw [hparts] at h hnone
  simp [hnone] at h

end Timestamp

end OpenCodifier
