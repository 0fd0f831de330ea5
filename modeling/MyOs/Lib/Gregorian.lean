import Mathlib.Tactic

/-!
# The Gregorian calendar

Years, months and days are integers.  `ordinal` is the usual closed form for the number of a day, with
1 for the first of January of year 1.  That it counts days is `ordinal_nextDay`, from the two facts that
a year and a month move it by their lengths (`yearStart_succ`, `monthStart_succ`); that it keeps
the order of dates is `ordinal_lt_of_year`, `ordinal_lt_of_month`.
-/

namespace Lib

/-- Every fourth year, but of the centuries only every fourth. -/
def Leap (y : ℤ) : Prop := (y % 4 = 0 ∧ y % 100 ≠ 0) ∨ y % 400 = 0

instance (y : ℤ) : Decidable (Leap y) := inferInstanceAs (Decidable (_ ∨ _))

def yearLength (y : ℤ) : ℤ := if Leap y then 366 else 365

def monthLength (y m : ℤ) : ℤ :=
  if m = 2 then (if Leap y then 29 else 28)
  else if m = 4 ∨ m = 6 ∨ m = 9 ∨ m = 11 then 30
  else 31

/-- The days of the years before year `y`. -/
def yearStart (y : ℤ) : ℤ := 365 * (y - 1) + (y - 1) / 4 - (y - 1) / 100 + (y - 1) / 400

/-- The days of year `y` before month `m`. -/
def monthStart (y m : ℤ) : ℤ :=
  (367 * m - 362) / 12 + if m ≤ 2 then 0 else if Leap y then -1 else -2

/-- The number of a day. -/
def ordinal (y m d : ℤ) : ℤ := yearStart y + monthStart y m + d

structure ValidDate (y m d : ℤ) : Prop where
  month_pos : 1 ≤ m
  month_le : m ≤ 12
  day_pos : 1 ≤ d
  day_le : d ≤ monthLength y m

/-- The day after a day. -/
def nextDay (y m d : ℤ) : ℤ × ℤ × ℤ :=
  if d < monthLength y m then (y, m, d + 1)
  else if m < 12 then (y, m + 1, 1)
  else (y + 1, 1, 1)

instance (y m d : ℤ) : Decidable (ValidDate y m d) :=
  decidable_of_iff (1 ≤ m ∧ m ≤ 12 ∧ 1 ≤ d ∧ d ≤ monthLength y m)
    ⟨fun h => ⟨h.1, h.2.1, h.2.2.1, h.2.2.2⟩, fun h => ⟨h.1, h.2, h.3, h.4⟩⟩

variable {y y' m m' d d' : ℤ}

lemma yearStart_succ (y : ℤ) : yearStart (y + 1) = yearStart y + yearLength y := by
  unfold yearStart yearLength Leap
  split_ifs with h <;> omega

lemma yearStart_mono (h : y ≤ y') : yearStart y ≤ yearStart y' := by
  unfold yearStart
  omega

lemma monthStart_succ (y : ℤ) (h : 1 ≤ m) (h' : m ≤ 11) :
    monthStart y (m + 1) = monthStart y m + monthLength y m := by
  interval_cases m <;> simp [monthStart, monthLength] <;> split_ifs <;> omega

@[simp] lemma monthStart_one (y : ℤ) : monthStart y 1 = 0 := by
  simp [monthStart]

lemma monthStart_december (y : ℤ) :
    monthStart y 12 + monthLength y 12 = yearLength y := by
  simp [monthStart, monthLength, yearLength]
  split_ifs <;> omega

lemma monthStart_mono (y : ℤ) (h : 1 ≤ m) (hm : m ≤ m') (h' : m' ≤ 12) :
    monthStart y m ≤ monthStart y m' := by
  unfold monthStart
  split_ifs <;> omega

section

variable (h : ValidDate y m d)
include h

lemma ValidDate.le_month (hm : m ≤ 11) : monthStart y m + d ≤ monthStart y (m + 1) := by
  rw [monthStart_succ y h.month_pos hm]
  exact add_le_add_right h.day_le _

lemma ValidDate.le_year : monthStart y m + d ≤ yearLength y := by
  rw [← monthStart_december]
  rcases h.month_le.lt_or_eq with hm | rfl
  · have hlast : 0 < monthLength y 12 := by simp [monthLength]
    have hmono := monthStart_mono y (show 1 ≤ m + 1 by linarith [h.month_pos])
      (show m + 1 ≤ 12 by omega) le_rfl
    linarith [h.le_month (by omega)]
  · exact add_le_add_right h.day_le _

lemma ValidDate.monthStart_nonneg : 0 ≤ monthStart y m :=
  (monthStart_one y).ge.trans (monthStart_mono y le_rfl h.month_pos h.month_le)

/-- **Dates of different years.** -/
lemma ordinal_lt_of_year (h' : ValidDate y' m' d') (hlt : y < y') :
    ordinal y m d < ordinal y' m' d' := by
  have hyear : yearStart y + yearLength y ≤ yearStart y' := by
    rw [← yearStart_succ]
    exact yearStart_mono hlt
  unfold ordinal
  linarith [h.le_year, h'.monthStart_nonneg, h'.day_pos]

/-- **Dates of different months of a year.** -/
lemma ordinal_lt_of_month (h' : ValidDate y m' d') (hlt : m < m') :
    ordinal y m d < ordinal y m' d' := by
  have hmonth := monthStart_mono y (show 1 ≤ m + 1 by linarith [h.month_pos]) hlt h'.month_le
  unfold ordinal
  linarith [h.le_month (by linarith [h'.month_le]), h'.day_pos]

/-- **Consecutive days have consecutive numbers.** -/
lemma ordinal_nextDay :
    ordinal (nextDay y m d).1 (nextDay y m d).2.1 (nextDay y m d).2.2 = ordinal y m d + 1 := by
  unfold nextDay ordinal
  split_ifs with hd hm
  · ring
  · have hlast : d = monthLength y m := le_antisymm h.day_le (not_lt.mp hd)
    rw [monthStart_succ y h.month_pos (by omega), hlast]
    ring
  · have hlast : d = monthLength y m := le_antisymm h.day_le (not_lt.mp hd)
    have hdec : m = 12 := le_antisymm h.month_le (not_lt.mp hm)
    rw [yearStart_succ, ← monthStart_december, monthStart_one, hlast, hdec]
    ring

end

end Lib
