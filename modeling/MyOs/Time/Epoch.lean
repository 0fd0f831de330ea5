import MyOs.Lib.Gregorian

/-!
# Seconds since 1970

`is_leap`, `days_before_month` and `rtc_to_epoch` of `time.c`, in the 64-bit arithmetic of the source.
The two loops add up what the closed form of `Lib.Gregorian` says (`yearsLoop_eq`, `daysBeforeMonth_eq`);
nothing overflows for a year of 16 bits (`rtcToEpoch_eq`).
-/

namespace MyOs

open Lib

/-- `rtc_time_t` -/
structure RtcTime where
  year : UInt16
  month : UInt8
  day : UInt8
  hour : UInt8
  minute : UInt8
  second : UInt8
deriving DecidableEq, Repr

def isLeap (y : ℕ) : Bool := (y % 4 == 0 && y % 100 != 0) || y % 400 == 0

/-- The table of `days_before_month`. -/
def monthDays : List UInt64 := [31, 28, 31, 30, 31, 30, 31, 31, 30, 31, 30, 31]

/-- The loop of `days_before_month`, with so many turns left. -/
def monthsLoop (y : ℕ) : ℕ → ℕ → UInt64 → UInt64
  | 0, _, total => total
  | n + 1, i, total =>
    let total := total + monthDays.getD (i - 1) 0
    let total := if i = 2 ∧ isLeap y then total + 1 else total
    monthsLoop y n (i + 1) total

/-- `days_before_month`: `i` runs from 1 to `m - 1`.  Beyond month 13 the source reads outside its table,
where there is a 0 here. -/
def daysBeforeMonth (y m : ℕ) : UInt64 := monthsLoop y (m - 1) 1 0

/-- The loop of `rtc_to_epoch` over the years, with so many turns left. -/
def yearsLoop : ℕ → ℕ → UInt64 → UInt64
  | 0, _, days => days
  | n + 1, year, days => yearsLoop n (year + 1) (days + if isLeap year then 366 else 365)

/-- `rtc_to_epoch`: `year` runs from 1970 to `y - 1`. -/
def rtcToEpoch (t : RtcTime) : UInt64 :=
  let y := t.year.toNat
  let days := yearsLoop (y - 1970) 1970 0
  let days := days + daysBeforeMonth y t.month.toNat
  let days := days + (t.day.toUInt64 - 1)
  let seconds := days * 86400
  let seconds := seconds + t.hour.toUInt64 * 3600
  let seconds := seconds + t.minute.toUInt64 * 60
  seconds + t.second.toUInt64

/-- A date and time of day that the calendar has, in the years the source is for. -/
structure RtcTime.Valid (t : RtcTime) : Prop where
  year_ge : 1970 ≤ t.year.toNat
  date : ValidDate t.year.toNat t.month.toNat t.day.toNat
  hour_lt : t.hour.toNat < 24
  minute_lt : t.minute.toNat < 60
  second_lt : t.second.toNat < 60

/-- The number of a date, with 0 for the first of January 1970. -/
def RtcTime.dayNumber (t : RtcTime) : ℤ :=
  ordinal t.year.toNat t.month.toNat t.day.toNat - ordinal 1970 1 1

/-- The fields in the order in which times are compared. -/
def RtcTime.fields (t : RtcTime) : List ℕ :=
  [t.year.toNat, t.month.toNat, t.day.toNat, t.hour.toNat, t.minute.toNat, t.second.toNat]

/-- `t'` is the same time on the day after. -/
def RtcTime.NextDay (t t' : RtcTime) : Prop :=
  ((t'.year.toNat : ℤ), (t'.month.toNat : ℤ), (t'.day.toNat : ℤ)) =
      nextDay t.year.toNat t.month.toNat t.day.toNat ∧
    t'.hour = t.hour ∧ t'.minute = t.minute ∧ t'.second = t.second

/-! ## The loops -/

lemma isLeap_iff (y : ℕ) : isLeap y = true ↔ Leap y := by
  simp only [isLeap, Leap, Bool.or_eq_true, Bool.and_eq_true, beq_iff_eq, bne_iff_ne, ne_eq]
  omega

lemma yearsLoop_eq (n year : ℕ) (days : UInt64) :
    yearsLoop n year days =
      days + UInt64.ofNat (yearStart (year + n : ℕ) - yearStart year).toNat := by
  induction n generalizing year days with
  | zero => simp [yearsLoop]
  | succ n ih =>
    have hmono : yearStart (year + 1 : ℕ) ≤ yearStart (year + 1 + n : ℕ) :=
      yearStart_mono (by omega)
    have hsucc : yearStart (year + 1 : ℕ) = yearStart year + yearLength year := by
      push_cast
      exact yearStart_succ year
    have hlen : (if isLeap year then 366 else 365 : UInt64) = UInt64.ofNat (yearLength year).toNat := by
      unfold yearLength
      simp only [← isLeap_iff]
      split_ifs <;> rfl
    have hpos : 0 ≤ yearLength year := by
      unfold yearLength
      split_ifs <;> omega
    have hsum : (yearStart (year + (n + 1) : ℕ) - yearStart year).toNat =
        (yearLength year).toNat +
          (yearStart (year + 1 + n : ℕ) - yearStart (year + 1 : ℕ)).toNat := by
      rw [show year + (n + 1) = year + 1 + n by ring]
      omega
    rw [yearsLoop, ih, hlen, hsum, UInt64.ofNat_add, UInt64.add_assoc]

lemma monthStep_eq (y i : ℕ) (hi : 1 ≤ i) (hi' : i ≤ 12) (total : UInt64) :
    (if i = 2 ∧ isLeap y then total + monthDays.getD (i - 1) 0 + 1
      else total + monthDays.getD (i - 1) 0) = total + UInt64.ofNat (monthLength y i).toNat := by
  by_cases hleap : isLeap y
  · have hl : Leap y := (isLeap_iff y).mp hleap
    interval_cases i <;> simp [monthDays, monthLength, hleap, hl, UInt64.add_assoc]
  · have hl : ¬ Leap y := fun h => hleap ((isLeap_iff y).mpr h)
    interval_cases i <;> simp [monthDays, monthLength, hleap, hl]

lemma monthsLoop_eq (y : ℕ) (n i : ℕ) (hi : 1 ≤ i) (hn : i + n ≤ 12) (total : UInt64) :
    monthsLoop y n i total =
      total + UInt64.ofNat (monthStart y (i + n : ℕ) - monthStart y i).toNat := by
  induction n generalizing i total with
  | zero => simp [monthsLoop]
  | succ n ih =>
    have hsucc : monthStart y (i + 1 : ℕ) = monthStart y i + monthLength y i := by
      push_cast
      exact monthStart_succ y (by omega) (by omega)
    have hmono : monthStart y (i + 1 : ℕ) ≤ monthStart y (i + 1 + n : ℕ) :=
      monthStart_mono y (by omega) (by omega) (by omega)
    have hpos : 0 ≤ monthLength y i := by
      unfold monthLength
      split_ifs <;> omega
    have hsum : (monthStart y (i + (n + 1) : ℕ) - monthStart y i).toNat =
        (monthLength y i).toNat +
          (monthStart y (i + 1 + n : ℕ) - monthStart y (i + 1 : ℕ)).toNat := by
      rw [show i + (n + 1) = i + 1 + n by ring]
      omega
    rw [monthsLoop, ih (i + 1) (by omega) (by omega), monthStep_eq y i hi (by omega), hsum,
      UInt64.ofNat_add, UInt64.add_assoc]

lemma daysBeforeMonth_eq (y m : ℕ) (hm : 1 ≤ m) (hm' : m ≤ 12) :
    daysBeforeMonth y m = UInt64.ofNat (monthStart y m).toNat := by
  rw [daysBeforeMonth, monthsLoop_eq y (m - 1) 1 le_rfl (by omega), show 1 + (m - 1) = m by omega]
  simp

/-! ## Seconds -/

/-- The seconds since midnight. -/
def RtcTime.secondOfDay (t : RtcTime) : ℕ := t.hour.toNat * 3600 + t.minute.toNat * 60 + t.second.toNat

lemma RtcTime.Valid.secondOfDay_lt {t : RtcTime} (ht : t.Valid) : t.secondOfDay < 86400 := by
  have := ht.hour_lt
  have := ht.minute_lt
  have := ht.second_lt
  unfold RtcTime.secondOfDay
  omega

lemma RtcTime.Valid.dayNumber_eq {t : RtcTime} (ht : t.Valid) :
    t.dayNumber.toNat = (yearStart t.year.toNat - yearStart 1970).toNat +
      (monthStart t.year.toNat t.month.toNat).toNat + (t.day.toNat - 1) ∧ 0 ≤ t.dayNumber := by
  have hyear : yearStart 1970 ≤ yearStart t.year.toNat := yearStart_mono (by exact_mod_cast ht.year_ge)
  have hmonth := ht.date.monthStart_nonneg
  have hday : 1 ≤ t.day.toNat := by exact_mod_cast ht.date.day_pos
  have hnum : t.dayNumber = (yearStart t.year.toNat - yearStart 1970) +
      monthStart t.year.toNat t.month.toNat + (t.day.toNat - 1 : ℕ) := by
    rw [RtcTime.dayNumber, ordinal, ordinal, monthStart_one]
    push_cast [hday]
    ring
  omega

lemma RtcTime.Valid.dayNumber_lt {t : RtcTime} (ht : t.Valid) : t.dayNumber < 2 ^ 32 := by
  have hyear : t.year.toNat < 2 ^ 16 := t.year.toNat_lt
  have hlast := ht.date.le_year
  have hlen : yearLength t.year.toNat ≤ 366 := by
    unfold yearLength
    split_ifs <;> omega
  have hstart : yearStart t.year.toNat ≤ yearStart 65535 := yearStart_mono (by omega)
  have hbound : yearStart 65535 - ordinal 1970 1 1 < 2 ^ 31 := by decide
  rw [RtcTime.dayNumber, ordinal]
  omega

/-- **`rtc_to_epoch` in closed form.**  The 64-bit arithmetic does not overflow. -/
lemma rtcToEpoch_eq {t : RtcTime} (ht : t.Valid) :
    (rtcToEpoch t).toNat = 86400 * t.dayNumber.toNat + t.secondOfDay := by
  obtain ⟨hnum, hnonneg⟩ := ht.dayNumber_eq
  have hday : 1 ≤ t.day.toNat := by exact_mod_cast ht.date.day_pos
  have hyears : yearsLoop (t.year.toNat - 1970) 1970 0 =
      UInt64.ofNat (yearStart t.year.toNat - yearStart 1970).toNat := by
    rw [yearsLoop_eq, Nat.add_sub_cancel' ht.year_ge]
    simp
  have hmonths : daysBeforeMonth t.year.toNat t.month.toNat =
      UInt64.ofNat (monthStart t.year.toNat t.month.toNat).toNat :=
    daysBeforeMonth_eq _ _ (by exact_mod_cast ht.date.month_pos) (by exact_mod_cast ht.date.month_le)
  have hdays : t.day.toUInt64 - 1 = UInt64.ofNat (t.day.toNat - 1) := by
    rw [UInt64.ofNat_sub hday]
    simp
  have hepoch : rtcToEpoch t = UInt64.ofNat (86400 * t.dayNumber.toNat + t.secondOfDay) := by
    rw [rtcToEpoch, hyears, hmonths, hdays, hnum, RtcTime.secondOfDay]
    simp only [UInt64.ofNat_add, UInt64.ofNat_mul, UInt64.ofNat_uInt8ToNat]
    rw [UInt64.mul_comm]
    simp only [UInt64.add_assoc]
    rfl
  have hlt := ht.dayNumber_lt
  have hsec := ht.secondOfDay_lt
  rw [hepoch, UInt64.toNat_ofNat_of_lt']
  show _ < 2 ^ 64
  omega

/-- A later date has a larger number, and two times of one day differ by their seconds. -/
lemma dayNumber_lt_or {t t' : RtcTime} (ht : t.Valid) (ht' : t'.Valid) (h : t.fields < t'.fields) :
    t.dayNumber < t'.dayNumber ∨ t.dayNumber = t'.dayNumber ∧ t.secondOfDay < t'.secondOfDay := by
  have hd := ht.date
  have hd' := ht'.date
  have := ht.minute_lt
  have := ht.second_lt
  have := ht'.minute_lt
  have := ht'.second_lt
  simp only [RtcTime.fields, List.cons_lt_cons_iff, List.lt_irrefl, and_false, or_false] at h
  rw [RtcTime.dayNumber, RtcTime.dayNumber, RtcTime.secondOfDay, RtcTime.secondOfDay]
  obtain hyear | ⟨hyear, hmonth | ⟨hmonth, hday | ⟨hday, hrest⟩⟩⟩ := h
  · have := ordinal_lt_of_year hd hd' (by exact_mod_cast hyear)
    omega
  · rw [← hyear] at hd' ⊢
    have := ordinal_lt_of_month hd hd' (by exact_mod_cast hmonth)
    omega
  · rw [hyear, hmonth]
    simp only [ordinal]
    omega
  · rw [hyear, hmonth, hday]
    omega

/-- **`rtc_to_epoch` counts seconds of the Gregorian calendar.**  It is 86400 times the number of the day
plus the time of day; it grows with the time, and by 86400 from one day to the next. -/
theorem rtcToEpoch_gregorian (t : RtcTime) (ht : t.Valid) :
    ((rtcToEpoch t).toNat : ℤ) =
        86400 * t.dayNumber + 3600 * t.hour.toNat + 60 * t.minute.toNat + t.second.toNat ∧
      (∀ t', t'.Valid → t.fields < t'.fields → rtcToEpoch t < rtcToEpoch t') ∧
      ∀ t', t'.Valid → t.NextDay t' → (rtcToEpoch t').toNat = (rtcToEpoch t).toNat + 86400 := by
  obtain ⟨-, hnonneg⟩ := ht.dayNumber_eq
  refine ⟨?_, ?_, ?_⟩
  · rw [rtcToEpoch_eq ht, RtcTime.secondOfDay]
    push_cast [Int.toNat_of_nonneg hnonneg]
    ring
  · intro t' ht' h
    obtain ⟨-, hnonneg'⟩ := ht'.dayNumber_eq
    have hsec := ht.secondOfDay_lt
    rw [UInt64.lt_iff_toNat_lt, rtcToEpoch_eq ht, rtcToEpoch_eq ht']
    obtain hday | ⟨hday, hlt⟩ := dayNumber_lt_or ht ht' h
    · omega
    · rw [hday]
      omega
  · rintro t' ht' ⟨hdate, hhour, hminute, hsecond⟩
    simp only [Prod.ext_iff] at hdate
    have hnext := ordinal_nextDay ht.date
    rw [← hdate.1, ← hdate.2.1, ← hdate.2.2] at hnext
    have hnum : t'.dayNumber = t.dayNumber + 1 := by
      rw [RtcTime.dayNumber, RtcTime.dayNumber, hnext]
      ring
    have hsame : t'.secondOfDay = t.secondOfDay := by
      rw [RtcTime.secondOfDay, RtcTime.secondOfDay, hhour, hminute, hsecond]
    rw [rtcToEpoch_eq ht, rtcToEpoch_eq ht', hnum, hsame]
    omega

/-- The leap day of 2000, a century that is a leap year: 951782400 seconds to its midnight. -/
theorem rtcToEpoch_gregorian_leapDay :
    ((rtcToEpoch ⟨2000, 2, 29, 0, 0, 0⟩).toNat : ℤ) = 951782400 ∧
      (rtcToEpoch ⟨2000, 3, 1, 0, 0, 0⟩).toNat = (rtcToEpoch ⟨2000, 2, 29, 0, 0, 0⟩).toNat + 86400 := by
  have ht : RtcTime.Valid ⟨2000, 2, 29, 0, 0, 0⟩ :=
    ⟨by decide, by decide, by decide, by decide, by decide⟩
  have ht' : RtcTime.Valid ⟨2000, 3, 1, 0, 0, 0⟩ :=
    ⟨by decide, by decide, by decide, by decide, by decide⟩
  have h := rtcToEpoch_gregorian ⟨2000, 2, 29, 0, 0, 0⟩ ht
  exact ⟨h.1.trans (by decide), h.2.2 _ ht' ⟨by decide, rfl, rfl, rfl⟩⟩

end MyOs
