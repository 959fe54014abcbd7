import Mathlib.Algebra.BigOperators.Group.Finset.Basic
import Mathlib.Algebra.Order.BigOperators.Group.Finset
set_option autoImplicit false

/-- So many months a year, and the length of each month of each year; months and days are
counted from zero. -/
structure Calendar where
  months : ℕ
  days : ℕ → ℕ → ℕ

namespace Calendar

/-- Consecutive blocks of a line: the order of two places is that of their blocks, and within
one block that of their offsets. -/
theorem block_lt_iff {start len : ℕ → ℕ} (hstart : ∀ n, start n + len n ≤ start (n + 1))
    {a b i j : ℕ} (hi : i < len a) (hj : j < len b) :
    start a + i < start b + j ↔ a < b ∨ a = b ∧ i < j := by
  have hmono : Monotone start := monotone_nat_of_le_succ fun n => by
    have hn := hstart n
    omega
  rcases lt_trichotomy a b with hab | rfl | hab
  · have hnext := hmono (Nat.succ_le_of_lt hab)
    have ha := hstart a
    simp only [Nat.succ_eq_add_one] at hnext
    exact iff_of_true (by omega) (Or.inl hab)
  · simp
  · have hnext := hmono (Nat.succ_le_of_lt hab)
    have hb := hstart b
    simp only [Nat.succ_eq_add_one] at hnext
    exact iff_of_false (by omega) (by omega)

variable (c : Calendar)

def yearLength (year : ℕ) : ℕ := ∑ month ∈ Finset.range c.months, c.days year month

def monthStart (year month : ℕ) : ℕ := ∑ m ∈ Finset.range month, c.days year m

def yearStart (year : ℕ) : ℕ := ∑ y ∈ Finset.range year, c.yearLength y

def dayNumber (year month day : ℕ) : ℕ := c.yearStart year + (c.monthStart year month + day)

theorem yearStart_succ (year : ℕ) :
    c.yearStart year + c.yearLength year = c.yearStart (year + 1) :=
  (Finset.sum_range_succ _ _).symm

theorem monthStart_succ (year month : ℕ) :
    c.monthStart year month + c.days year month = c.monthStart year (month + 1) :=
  (Finset.sum_range_succ _ _).symm

theorem monthStart_lt {year month day : ℕ} (hm : month < c.months) (hd : day < c.days year month) :
    c.monthStart year month + day < c.yearLength year := by
  have hle : c.monthStart year (month + 1) ≤ c.yearLength year :=
    Finset.sum_le_sum_of_subset (Finset.range_mono (Nat.succ_le_of_lt hm))
  have hsucc := c.monthStart_succ year month
  omega

theorem dayNumber_lt_iff {year month day year' month' day' : ℕ} (hm : month < c.months)
    (hd : day < c.days year month) (hm' : month' < c.months) (hd' : day' < c.days year' month') :
    c.dayNumber year month day < c.dayNumber year' month' day' ↔
      year < year' ∨ year = year' ∧ (month < month' ∨ month = month' ∧ day < day') := by
  rw [dayNumber, dayNumber, block_lt_iff (fun n => (c.yearStart_succ n).le)
    (c.monthStart_lt hm hd) (c.monthStart_lt hm' hd')]
  refine or_congr_right (and_congr_right ?_)
  rintro rfl
  exact block_lt_iff (fun n => (c.monthStart_succ year n).le) hd hd'

theorem dayNumber_inj {year month day year' month' day' : ℕ} (hm : month < c.months)
    (hd : day < c.days year month) (hm' : month' < c.months) (hd' : day' < c.days year' month') :
    c.dayNumber year month day = c.dayNumber year' month' day' ↔
      year = year' ∧ month = month' ∧ day = day' := by
  have hlt := c.dayNumber_lt_iff hm hd hm' hd'
  have hgt := c.dayNumber_lt_iff hm' hd' hm hd
  constructor
  · intro h
    omega
  · rintro ⟨rfl, rfl, rfl⟩
    rfl

end Calendar
