import OpenCodifier.Engine.Timestamp
import OpenCodifier.Lib.Calendar
set_option autoImplicit false

namespace OpenCodifier

namespace Timestamp

def unsigned (field : List Char) : List Char :=
  if field.head? = some '+' then field.tail else field

def Numeral (field : List Char) : Prop :=
  unsigned field ≠ [] ∧ ∀ c ∈ unsigned field, c.isDigit = true

instance (field : List Char) : Decidable (Numeral field) :=
  @instDecidableAnd _ _ inferInstance (List.decidableBAll _ _)

def value (field : List Char) : Nat := Nat.ofDigitChars 10 (unsigned field) 0

structure Written where
  year : List Char
  month : List Char
  day : List Char
  clock : Option (List Char × List Char)

namespace Written

def date (w : Written) : List Char := w.year ++ '-' :: (w.month ++ '-' :: w.day)

def text (w : Written) : List Char :=
  w.date ++ w.clock.elim [] fun clock => 'T' :: (clock.1 ++ ':' :: clock.2)

def fields (w : Written) : List (List Char) :=
  [w.year, w.month, w.day] ++ w.clock.elim [] fun clock => [clock.1, clock.2]

/-- A date alone is the start of its day. -/
def time (w : Written) : Timestamp :=
  ⟨value w.year, value w.month, value w.day,
    w.clock.elim 0 fun clock => value clock.1, w.clock.elim 0 fun clock => value clock.2⟩

/-- The columns of `YYYY-MM-DD` and `YYYY-MM-DDTHH:MM`. -/
def InColumns (w : Written) : Prop :=
  (w.year.length = 4 ∧ w.month.length = 2 ∧ w.day.length = 2) ∧
    ∀ clock ∈ w.clock, clock.1.length = 2 ∧ clock.2.length = 2

def Balanced (w : Written) : Prop :=
  w.year.length + w.month.length + w.day.length = 8 ∧
    ∀ clock ∈ w.clock, clock.1.length + clock.2.length = 4

end Written

structure OnCalendar (t : Timestamp) : Prop where
  month : 1 ≤ t.month ∧ t.month ≤ 12
  day : 1 ≤ t.day ∧ t.day ≤ daysInMonth t.year t.month
  hour : t.hour ≤ 23
  minute : t.minute ≤ 59

/-- The text is exactly a date, or a date and a clock time, with digits in every column, and
says this time of the calendar. -/
def Denotes (text : String) (t : Timestamp) : Prop :=
  ∃ w : Written, w.text = text.toList ∧ w.InColumns ∧
    (∀ field ∈ w.fields, ∀ c ∈ field, c.isDigit = true) ∧ w.time = t ∧ t.OnCalendar

/-- The text is a time of the calendar in numbers of the right length together, one of which has
a sign or is out of its column. -/
def Loose (text : String) : Prop :=
  ∃ w : Written, w.text = text.toList ∧ w.Balanced ∧ (∀ field ∈ w.fields, Numeral field) ∧
    w.time.OnCalendar ∧ (¬ w.InColumns ∨ ∃ field ∈ w.fields, field.head? = some '+')

def gregorian : Calendar where
  months := 12
  days year month := daysInMonth year (month + 1)

/-- The days from the start of the year zero. -/
def dayNumber (t : Timestamp) : Nat := gregorian.dayNumber t.year (t.month - 1) (t.day - 1)

def minuteOfDay (t : Timestamp) : Nat := t.hour * 60 + t.minute

def elapsed (t : Timestamp) : Nat := t.dayNumber * 1440 + t.minuteOfDay

/-- The text is read if and only if it is in the grammar, and as the time it denotes; that time is
read back from its rendering, and stands among all times that are read where the calendar puts
it. -/
def Exact (text : String) : Prop :=
  (∀ t, parse text = some t ↔ Denotes text t) ∧
    ∀ t, parse text = some t → parse t.toIso = some t ∧
      ∀ text' t', parse text' = some t' → (t < t' ↔ t.elapsed < t'.elapsed)

section Numbers

theorem unsigned_of_digits {field : List Char} (h : ∀ c ∈ field, c.isDigit = true) :
    unsigned field = field := by
  rw [unsigned, if_neg]
  intro hplus
  exact absurd (h '+' (List.mem_of_mem_head? hplus)) (by decide)

theorem numeral_of_digits {field : List Char} (hne : field ≠ [])
    (h : ∀ c ∈ field, c.isDigit = true) : Numeral field := by
  rw [Numeral, unsigned_of_digits h]
  exact ⟨hne, h⟩

theorem digits_of_numeral {field : List Char} (h : Numeral field)
    (hplus : field.head? ≠ some '+') : ∀ c ∈ field, c.isDigit = true := by
  have hdigits := h.2
  rwa [unsigned, if_neg hplus] at hdigits

theorem mem_numeral {field : List Char} (h : Numeral field) {c : Char} (hc : c ∈ field) :
    c.isDigit = true ∨ c = '+' := by
  by_cases hplus : field.head? = some '+'
  · have hdigits := h.2
    rw [unsigned, if_pos hplus] at hdigits
    cases field with
    | nil => cases hc
    | cons d field =>
      rw [List.head?_cons, Option.some.injEq] at hplus
      rcases List.mem_cons.mp hc with rfl | hc
      · exact Or.inr hplus
      · exact Or.inl (hdigits c hc)
  · exact Or.inl (digits_of_numeral h hplus c hc)

theorem notMem_numeral {field : List Char} (h : Numeral field) {c : Char}
    (hdigit : c.isDigit = false) (hplus : c ≠ '+') : c ∉ field := by
  intro hc
  rcases mem_numeral h hc with hc | hc
  · rw [hdigit] at hc
    cases hc
  · exact hplus hc

theorem length_unsigned_le (field : List Char) : (unsigned field).length ≤ field.length := by
  unfold unsigned
  split
  · rw [List.length_tail]
    omega
  · exact le_rfl

theorem utf8Size_of_numeral {field : List Char} (h : Numeral field) :
    ∀ c ∈ field, c.utf8Size = 1 := by
  intro c hc
  rcases mem_numeral h hc with hc | rfl
  · exact utf8Size_of_isDigit hc
  · rfl

theorem ofDigitChars_lt {digits : List Char} (h : ∀ c ∈ digits, c.isDigit = true) :
    Nat.ofDigitChars 10 digits 0 < 10 ^ digits.length := by
  induction digits with
  | nil => decide
  | cons c digits ih =>
    have hrest := ih fun d hd => h d (List.mem_cons_of_mem _ hd)
    have hc := Char.isDigit_iff_toNat.mp (h c List.mem_cons_self)
    rw [Nat.ofDigitChars_cons, Nat.ofDigitChars_eq_ofDigitChars_zero, List.length_cons, pow_succ]
    have hdigit : 10 * 0 + (c.toNat - '0'.toNat) ≤ 9 := by
      have h0 : '0'.toNat = 48 := rfl
      have h9 : '9'.toNat = 57 := rfl
      omega
    have hmul := Nat.mul_le_mul_left (10 ^ digits.length) hdigit
    omega

theorem value_lt {field : List Char} (h : Numeral field) : value field < 10 ^ field.length :=
  (ofDigitChars_lt h.2).trans_le (Nat.pow_le_pow_right (by decide) (length_unsigned_le field))

theorem parseU32_eq (field : List Char) : parseU32 field =
    if unsigned field = [] || !(unsigned field).all Char.isDigit then none
    else if value field < 2 ^ 32 then some (value field) else none := rfl

theorem parseU32_eq_some_iff {field : List Char} {n : Nat} :
    parseU32 field = some n ↔ Numeral field ∧ value field = n ∧ n < 2 ^ 32 := by
  by_cases hnum : Numeral field
  · rw [parseU32_eq, if_neg (by simpa [Numeral] using hnum)]
    split
    · rename_i hlt
      rw [Option.some.injEq]
      exact ⟨fun h => ⟨hnum, h, h ▸ hlt⟩, fun h => h.2.1⟩
    · rename_i hlt
      refine iff_of_false (by simp) ?_
      rintro ⟨-, rfl, h⟩
      exact hlt h
  · rw [parseU32_eq, if_pos (by simpa [Numeral, imp_iff_not_or] using hnum)]
    exact iff_of_false (by simp) fun h => hnum h.1

theorem parseU32_of_short {field : List Char} (h : Numeral field) (hlen : field.length ≤ 9) :
    parseU32 field = some (value field) := by
  refine parseU32_eq_some_iff.mpr ⟨h, rfl, ?_⟩
  have hpow : 10 ^ field.length ≤ 10 ^ 9 := Nat.pow_le_pow_right (by decide) hlen
  have hlt := value_lt h
  have hnine : 10 ^ 9 < 2 ^ 32 := by decide
  omega

end Numbers

section Reading

theorem splitOnP_eq_splitOn (sep : Char) (chars : List Char) :
    chars.splitOnP (fun c => c = sep) = chars.splitOn sep := by
  rw [List.splitOn_eq_splitOnP]
  rfl

theorem eq_intercalate {sep : Char} {chars : List Char} {fields : List (List Char)}
    (h : chars.splitOnP (fun c => c = sep) = fields) : chars = [sep].intercalate fields := by
  rw [← h, splitOnP_eq_splitOn, List.intercalate_splitOn]

theorem splitOnP_numerals {sep : Char} (hdigit : sep.isDigit = false) (hplus : sep ≠ '+')
    {fields : List (List Char)} (hne : fields ≠ []) (h : ∀ field ∈ fields, Numeral field) :
    ([sep].intercalate fields).splitOnP (fun c => c = sep) = fields := by
  rw [splitOnP_eq_splitOn]
  exact List.splitOn_intercalate sep (fun field hf => notMem_numeral (h field hf) hdigit hplus) hne

theorem splitOnP_date {y m d : List Char} (hy : Numeral y) (hm : Numeral m) (hd : Numeral d) :
    (y ++ '-' :: (m ++ '-' :: d)).splitOnP (fun c => c = '-') = [y, m, d] := by
  simpa using @splitOnP_numerals '-' (by decide) (by decide) [y, m, d] (by simp)
    (by simp [hy, hm, hd])

theorem splitOnP_clock {h m : List Char} (hh : Numeral h) (hm : Numeral m) :
    (h ++ ':' :: m).splitOnP (fun c => c = ':') = [h, m] := by
  simpa using @splitOnP_numerals ':' (by decide) (by decide) [h, m] (by simp) (by simp [hh, hm])

theorem parseDate_eq_some_iff {date : List Char} {year month day : Nat} :
    parseDate date = some (year, month, day) ↔
      ∃ y m d, date = y ++ '-' :: (m ++ '-' :: d) ∧ parseU32 y = some year ∧
        parseU32 m = some month ∧ parseU32 d = some day ∧ (1 ≤ month ∧ month ≤ 12) ∧
        1 ≤ day ∧ day ≤ daysInMonth year month := by
  constructor
  · intro h
    unfold parseDate at h
    split at h
    · rename_i y m d hsplit
      simp only [Option.bind_eq_bind, Option.bind_eq_some_iff] at h
      obtain ⟨year', hy, month', hm, day', hd, h⟩ := h
      split at h
      · cases h
      · rename_i hcal
        simp only [Bool.or_eq_true, decide_eq_true_eq, not_or, not_lt] at hcal
        cases h
        exact ⟨y, m, d, by simpa using eq_intercalate hsplit, hy, hm, hd, by omega⟩
    · cases h
  · rintro ⟨y, m, d, rfl, hy, hm, hd, hcal⟩
    rw [parseDate, splitOnP_date (parseU32_eq_some_iff.mp hy).1 (parseU32_eq_some_iff.mp hm).1
      (parseU32_eq_some_iff.mp hd).1]
    simp only [hy, hm, hd, Option.bind_eq_bind, Option.bind_some]
    rw [if_neg (by simp; omega)]

theorem parseClock_eq_some_iff {clock : List Char} {hour minute : Nat} :
    parseClock clock = some (hour, minute) ↔
      ∃ h m, clock = h ++ ':' :: m ∧ parseU32 h = some hour ∧ parseU32 m = some minute ∧
        hour ≤ 23 ∧ minute ≤ 59 := by
  constructor
  · intro hparse
    unfold parseClock at hparse
    split at hparse
    · rename_i h m hsplit
      simp only [Option.bind_eq_bind, Option.bind_eq_some_iff] at hparse
      obtain ⟨hour', hh, minute', hm, hparse⟩ := hparse
      split at hparse
      · cases hparse
      · rename_i hcal
        simp only [Bool.or_eq_true, decide_eq_true_eq, not_or, not_lt] at hcal
        cases hparse
        exact ⟨h, m, by simpa using eq_intercalate hsplit, hh, hm, hcal⟩
    · cases hparse
  · rintro ⟨h, m, rfl, hh, hm, hcal⟩
    rw [parseClock, splitOnP_clock (parseU32_eq_some_iff.mp hh).1 (parseU32_eq_some_iff.mp hm).1]
    simp only [hh, hm, Option.bind_eq_bind, Option.bind_some]
    rw [if_neg (by simp; omega)]

theorem utf8Len_numeral {field : List Char} (h : Numeral field) : utf8Len field = field.length :=
  utf8Len_of_ascii (utf8Size_of_numeral h)

theorem utf8Len_date {y m d : List Char} (hy : Numeral y) (hm : Numeral m) (hd : Numeral d) :
    utf8Len (y ++ '-' :: (m ++ '-' :: d)) = y.length + m.length + d.length + 2 := by
  have hdash : '-'.utf8Size = 1 := rfl
  rw [utf8Len_append, utf8Len_cons, utf8Len_append, utf8Len_cons, utf8Len_numeral hy,
    utf8Len_numeral hm, utf8Len_numeral hd, hdash]
  omega

theorem utf8Len_clock {h m : List Char} (hh : Numeral h) (hm : Numeral m) :
    utf8Len (h ++ ':' :: m) = h.length + m.length + 1 := by
  have hcolon : ':'.utf8Size = 1 := rfl
  rw [utf8Len_append, utf8Len_cons, utf8Len_numeral hh, utf8Len_numeral hm, hcolon]
  omega

theorem eq_of_parts {chars date : List Char} {clock : Option (List Char)}
    (h : parts chars = (date, clock)) :
    chars = date ++ clock.elim [] fun rest => 'T' :: rest := by
  unfold parts at h
  split at h
  · rename_i before after hsplit
    cases h
    exact splitOnce_some hsplit
  · cases h
    exact (List.append_nil _).symm

theorem parts_append {date : List Char} (h : 'T' ∉ date) (clock : Option (List Char)) :
    parts (date ++ clock.elim [] fun rest => 'T' :: rest) = (date, clock) := by
  cases clock with
  | none => simp [parts, splitOnce_none h]
  | some rest => simp [parts, splitOnce_append h]

theorem T_notMem_date {y m d : List Char} (hy : Numeral y) (hm : Numeral m) (hd : Numeral d) :
    'T' ∉ y ++ '-' :: (m ++ '-' :: d) := by
  have hT {field : List Char} (h : Numeral field) : 'T' ∉ field :=
    notMem_numeral h (by decide) (by decide)
  simp [hT hy, hT hm, hT hd]

theorem forall_fields {w : Written} {P : List Char → Prop} :
    (∀ field ∈ w.fields, P field) ↔
      (P w.year ∧ P w.month ∧ P w.day) ∧ ∀ clock ∈ w.clock, P clock.1 ∧ P clock.2 := by
  obtain ⟨y, m, d, clock⟩ := w
  cases clock <;> simp [Written.fields, and_assoc]

def Written.clockText (w : Written) : Option (List Char) :=
  w.clock.map fun clock => clock.1 ++ ':' :: clock.2

theorem text_eq (w : Written) :
    w.text = w.date ++ w.clockText.elim [] fun rest => 'T' :: rest := by
  rw [Written.text, Written.clockText]
  cases w.clock <;> rfl

theorem parts_text {w : Written} (h : ∀ field ∈ w.fields, Numeral field) :
    parts w.text = (w.date, w.clockText) := by
  obtain ⟨⟨hy, hm, hd⟩, -⟩ := forall_fields.mp h
  rw [text_eq, Written.date, parts_append (T_notMem_date hy hm hd)]

theorem parse_of_parts {text : String} {date : List Char} {clock : Option (List Char)}
    (h : parts text.toList = (date, clock)) {t : Timestamp} :
    parse text = some t ↔ (utf8Len date = 10 ∧ ∀ rest ∈ clock, utf8Len rest = 5) ∧
      parseDate date = some (t.year, t.month, t.day) ∧
      clock.elim (some (0, 0)) parseClock = some (t.hour, t.minute) := by
  obtain ⟨year, month, day, hour, minute⟩ := t
  rw [parse, h]
  cases clock with
  | none => simp [Option.bind_eq_some_iff]
  | some rest => simp [Option.bind_eq_some_iff]

theorem balanced_iff {w : Written} (h : ∀ field ∈ w.fields, Numeral field) :
    w.Balanced ↔ utf8Len w.date = 10 ∧ ∀ rest ∈ w.clockText, utf8Len rest = 5 := by
  obtain ⟨y, m, d, clock⟩ := w
  obtain ⟨⟨hy, hm, hd⟩, hclock⟩ := forall_fields.mp h
  refine and_congr ?_ ?_
  · rw [Written.date, utf8Len_date hy hm hd]
    omega
  · cases clock with
    | none => simp [Written.clockText]
    | some clock =>
      obtain ⟨hh, hmi⟩ := hclock clock rfl
      simp [Written.clockText, utf8Len_clock hh hmi]

theorem parts_read_iff {date : List Char} {clock : Option (List Char)} {t : Timestamp} :
    parseDate date = some (t.year, t.month, t.day) ∧
        clock.elim (some (0, 0)) parseClock = some (t.hour, t.minute) ↔
      ∃ w : Written, w.date = date ∧ w.clockText = clock ∧
        (∀ field ∈ w.fields, parseU32 field = some (value field)) ∧ w.time = t ∧
        t.OnCalendar := by
  constructor
  · rintro ⟨hdate, hclock⟩
    obtain ⟨year, month, day, hour, minute⟩ := t
    obtain ⟨y, m, d, rfl, hy, hm, hd, hmonth, hday⟩ := parseDate_eq_some_iff.mp hdate
    obtain ⟨⟨-, rfl, -⟩, ⟨-, rfl, -⟩, ⟨-, rfl, -⟩⟩ :=
      And.intro (parseU32_eq_some_iff.mp hy)
        (And.intro (parseU32_eq_some_iff.mp hm) (parseU32_eq_some_iff.mp hd))
    cases clock with
    | none =>
      cases hclock
      exact ⟨⟨y, m, d, none⟩, rfl, rfl, forall_fields.mpr ⟨⟨hy, hm, hd⟩, by simp⟩, rfl,
        hmonth, hday, Nat.zero_le _, Nat.zero_le _⟩
    | some rest =>
      obtain ⟨h, mi, rfl, hh, hmi, hhour, hminute⟩ := parseClock_eq_some_iff.mp hclock
      obtain ⟨⟨-, rfl, -⟩, ⟨-, rfl, -⟩⟩ :=
        And.intro (parseU32_eq_some_iff.mp hh) (parseU32_eq_some_iff.mp hmi)
      exact ⟨⟨y, m, d, some (h, mi)⟩, rfl, rfl,
        forall_fields.mpr ⟨⟨hy, hm, hd⟩, by simp [hh, hmi]⟩, rfl, hmonth, hday, hhour, hminute⟩
  · rintro ⟨⟨y, m, d, clock⟩, rfl, rfl, hread, rfl, hcal⟩
    obtain ⟨⟨hy, hm, hd⟩, hclock⟩ := forall_fields.mp hread
    refine ⟨parseDate_eq_some_iff.mpr ⟨y, m, d, rfl, hy, hm, hd, hcal.month, hcal.day⟩, ?_⟩
    cases clock with
    | none => rfl
    | some clock =>
      obtain ⟨hh, hmi⟩ := hclock clock rfl
      exact parseClock_eq_some_iff.mpr ⟨clock.1, clock.2, rfl, hh, hmi, hcal.hour, hcal.minute⟩

theorem parseU32_of_balanced {w : Written} (hbal : w.Balanced)
    (h : ∀ field ∈ w.fields, Numeral field) :
    ∀ field ∈ w.fields, parseU32 field = some (value field) := by
  have hlen : ∀ field ∈ w.fields, field.length ≤ 9 := by
    have hdate := hbal.1
    refine forall_fields.mpr ⟨by omega, fun clock hc => ?_⟩
    have hclock := hbal.2 clock hc
    omega
  exact fun field hf => parseU32_of_short (h field hf) (hlen field hf)

/-- What is read is a written time of the right length, in numbers on the calendar. -/
theorem parse_eq_some_iff {text : String} {t : Timestamp} :
    parse text = some t ↔ ∃ w : Written, w.text = text.toList ∧ w.Balanced ∧
      (∀ field ∈ w.fields, Numeral field) ∧ w.time = t ∧ t.OnCalendar := by
  rcases hparts : parts text.toList with ⟨date, clock⟩
  rw [parse_of_parts hparts, parts_read_iff]
  constructor
  · rintro ⟨hlen, w, rfl, rfl, hread, htime, hcal⟩
    have hnum : ∀ field ∈ w.fields, Numeral field := fun field hf =>
      (parseU32_eq_some_iff.mp (hread field hf)).1
    exact ⟨w, by rw [text_eq, eq_of_parts hparts], (balanced_iff hnum).mpr hlen, hnum, htime, hcal⟩
  · rintro ⟨w, htext, hbal, hnum, htime, hcal⟩
    rw [← htext, parts_text hnum, Prod.mk.injEq] at hparts
    obtain ⟨rfl, rfl⟩ := hparts
    exact ⟨(balanced_iff hnum).mp hbal, w, rfl, rfl, parseU32_of_balanced hbal hnum, htime, hcal⟩

theorem written_unique {w w' : Written} (h : ∀ field ∈ w.fields, Numeral field)
    (h' : ∀ field ∈ w'.fields, Numeral field) (htext : w.text = w'.text) : w = w' := by
  have hparts := parts_text h
  rw [htext, parts_text h', Prod.mk.injEq] at hparts
  obtain ⟨y, m, d, clock⟩ := w
  obtain ⟨y', m', d', clock'⟩ := w'
  obtain ⟨⟨hy, hm, hd⟩, hclock⟩ := forall_fields.mp h
  obtain ⟨⟨hy', hm', hd'⟩, hclock'⟩ := forall_fields.mp h'
  have hdate : [y', m', d'] = [y, m, d] := by
    rw [← splitOnP_date hy hm hd, ← splitOnP_date hy' hm' hd']
    exact congrArg _ hparts.1
  have hclocks : clock' = clock := by
    rcases clock with _ | ⟨hour, minute⟩ <;> rcases clock' with _ | ⟨hour', minute'⟩
    · rfl
    · cases hparts.2
    · cases hparts.2
    · obtain ⟨hh, hmi⟩ := hclock _ rfl
      obtain ⟨hh', hmi'⟩ := hclock' _ rfl
      have hfields : [hour', minute'] = [hour, minute] := by
        rw [← splitOnP_clock hh hmi, ← splitOnP_clock hh' hmi']
        exact congrArg _ (Option.some.inj hparts.2)
      cases hfields
      rfl
  cases hdate
  rw [hclocks]

end Reading

section Order

theorem lt_iff_fields {s t : Timestamp} : s < t ↔ s.year < t.year ∨ s.year = t.year ∧
    (s.month < t.month ∨ s.month = t.month ∧ (s.day < t.day ∨ s.day = t.day ∧
      (s.hour < t.hour ∨ s.hour = t.hour ∧ s.minute < t.minute))) := by
  show s.fields < t.fields ↔ _
  simp only [fields, Prod.Lex.toLex_lt_toLex]

namespace OnCalendar

variable {s t : Timestamp}

theorem month_lt (h : t.OnCalendar) : t.month - 1 < gregorian.months := by
  have hmonth := h.month
  show t.month - 1 < 12
  omega

theorem day_lt (h : t.OnCalendar) : t.day - 1 < gregorian.days t.year (t.month - 1) := by
  have hmonth := h.month
  have hday := h.day
  show t.day - 1 < daysInMonth t.year (t.month - 1 + 1)
  rw [Nat.sub_add_cancel hmonth.1]
  omega

theorem minuteOfDay_lt (h : t.OnCalendar) : t.minuteOfDay < 1440 := by
  have hhour := h.hour
  have hminute := h.minute
  unfold minuteOfDay
  omega

/-- The order of the fields is the order of the minutes they count. -/
theorem lt_iff_elapsed_lt (hs : s.OnCalendar) (ht : t.OnCalendar) :
    s < t ↔ s.elapsed < t.elapsed := by
  have hblock : s.elapsed < t.elapsed ↔
      s.dayNumber < t.dayNumber ∨ s.dayNumber = t.dayNumber ∧ s.minuteOfDay < t.minuteOfDay :=
    @Calendar.block_lt_iff (fun n => n * 1440) (fun _ => 1440) (fun n => by omega) _ _ _ _
      hs.minuteOfDay_lt ht.minuteOfDay_lt
  have hlt := gregorian.dayNumber_lt_iff hs.month_lt hs.day_lt ht.month_lt ht.day_lt
  have heq := gregorian.dayNumber_inj hs.month_lt hs.day_lt ht.month_lt ht.day_lt
  have hsm := hs.month
  have htm := ht.month
  have hsd := hs.day
  have htd := ht.day
  have hshour := hs.hour
  have hthour := ht.hour
  have hsminute := hs.minute
  have htminute := ht.minute
  rw [lt_iff_fields, hblock, dayNumber, dayNumber, hlt, heq, minuteOfDay, minuteOfDay]
  omega

end OnCalendar

end Order

section Grammar

theorem balanced_of_inColumns {w : Written} (h : w.InColumns) : w.Balanced := by
  obtain ⟨hdate, hclock⟩ := h
  refine ⟨by omega, fun clock hc => ?_⟩
  have hcolumns := hclock clock hc
  omega

theorem ne_nil_of_inColumns {w : Written} (h : w.InColumns) : ∀ field ∈ w.fields, field ≠ [] := by
  have hne {field : List Char} {n : Nat} (hlen : field.length = n + 1) : field ≠ [] :=
    List.ne_nil_of_length_eq_add_one hlen
  obtain ⟨⟨hy, hm, hd⟩, hclock⟩ := h
  exact forall_fields.mpr ⟨⟨hne hy, hne hm, hne hd⟩, fun clock hc =>
    ⟨hne (hclock clock hc).1, hne (hclock clock hc).2⟩⟩

/-- Digits in their columns are numbers of the right length without a sign, and the other way
round. -/
theorem denotes_iff {text : String} {t : Timestamp} :
    Denotes text t ↔ ∃ w : Written, w.text = text.toList ∧ w.Balanced ∧
      (∀ field ∈ w.fields, Numeral field) ∧ w.time = t ∧ t.OnCalendar ∧
      ¬ (¬ w.InColumns ∨ ∃ field ∈ w.fields, field.head? = some '+') := by
  constructor
  · rintro ⟨w, htext, hcolumns, hdigits, htime, hcal⟩
    have hnum : ∀ field ∈ w.fields, Numeral field := fun field hf =>
      numeral_of_digits (ne_nil_of_inColumns hcolumns field hf) (hdigits field hf)
    refine ⟨w, htext, balanced_of_inColumns hcolumns, hnum, htime, hcal, ?_⟩
    rintro (hout | ⟨field, hf, hplus⟩)
    · exact hout hcolumns
    · exact absurd (hdigits field hf '+' (List.mem_of_mem_head? hplus)) (by decide)
  · rintro ⟨w, htext, -, hnum, htime, hcal, htidy⟩
    obtain ⟨hcolumns, hplus⟩ := not_or.mp htidy
    refine ⟨w, htext, not_not.mp hcolumns, fun field hf => ?_, htime, hcal⟩
    exact digits_of_numeral (hnum field hf) fun h => hplus ⟨field, hf, h⟩

theorem onCalendar_of_parse {text : String} {t : Timestamp} (h : parse text = some t) :
    t.OnCalendar := by
  obtain ⟨-, -, -, -, -, hcal⟩ := parse_eq_some_iff.mp h
  exact hcal

theorem valid_of_denotes {text : String} {t : Timestamp} (h : Denotes text t) : t.Valid := by
  obtain ⟨w, -, hcolumns, hdigits, rfl, hcal⟩ := h
  have hyear := (forall_fields.mp hdigits).1.1
  have hlt := ofDigitChars_lt hyear
  rw [hcolumns.1.1] at hlt
  refine ⟨?_, hcal.month, hcal.day, hcal.hour, hcal.minute⟩
  show value w.year < 10000
  rw [value, unsigned_of_digits hyear]
  exact hlt

theorem parse_of_denotes {text : String} {t : Timestamp} (h : Denotes text t) :
    parse text = some t := by
  obtain ⟨w, htext, hbal, hnum, htime, hcal, -⟩ := denotes_iff.mp h
  exact parse_eq_some_iff.mpr ⟨w, htext, hbal, hnum, htime, hcal⟩

theorem parse_iff_denotes {text : String} :
    (∀ t, parse text = some t ↔ Denotes text t) ↔ ¬ Loose text := by
  constructor
  · rintro h ⟨w, htext, hbal, hnum, hcal, hloose⟩
    obtain ⟨w', htext', -, hnum', -, -, htidy⟩ :=
      denotes_iff.mp ((h w.time).mp (parse_eq_some_iff.mpr ⟨w, htext, hbal, hnum, rfl, hcal⟩))
    cases written_unique hnum' hnum (htext'.trans htext.symm)
    exact htidy hloose
  · intro h t
    refine ⟨fun hparse => ?_, parse_of_denotes⟩
    obtain ⟨w, htext, hbal, hnum, rfl, hcal⟩ := parse_eq_some_iff.mp hparse
    exact denotes_iff.mpr ⟨w, htext, hbal, hnum, rfl, hcal, fun hloose =>
      h ⟨w, htext, hbal, hnum, hcal, hloose⟩⟩

/-- The reader is exact on a text if and only if the text is no loose spelling of a time. -/
theorem exact_iff (text : String) : Exact text ↔ ¬ Loose text := by
  refine ⟨fun h => parse_iff_denotes.mp h.1, fun h => ?_⟩
  have hexact := parse_iff_denotes.mpr h
  refine ⟨hexact, fun t ht => ⟨parse_toIso (valid_of_denotes ((hexact t).mp ht)), ?_⟩⟩
  intro text' t' ht'
  exact (onCalendar_of_parse ht).lt_iff_elapsed_lt (onCalendar_of_parse ht')

/-- A year of three digits with a sign is read, and one of five digits, which is not read back. -/
theorem loose_year : ¬ Exact "+026-03-01" ∧ ¬ Exact "10000-1-01" := by
  constructor
  · intro h
    refine parse_iff_denotes.mp h.1
      ⟨⟨['+', '0', '2', '6'], ['0', '3'], ['0', '1'], none⟩, rfl, ⟨rfl, by simp⟩,
        forall_fields.mpr ⟨by decide, by simp⟩,
        ⟨by decide, by decide, by decide, by decide⟩,
        Or.inr ⟨_, List.mem_cons_self, rfl⟩⟩
  · intro h
    have hback := (h.2 ⟨10000, 1, 1, 0, 0⟩ (by decide +kernel)).1
    exact absurd hback (by decide +kernel)

end Grammar

end Timestamp

end OpenCodifier
