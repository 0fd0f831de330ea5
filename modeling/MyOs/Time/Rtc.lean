import MyOs.Time.Epoch

/-!
# Reading the clock

`bcd_to_bin` and `rtc_read_time` of `rtc.c`.  The CMOS is a function from register numbers; the answers of
status register A, which the source polls until no update runs, come as a list.

`RtcEncodes` is the other side: what the registers hold at an instant, in the format that status register B
announces.  All fields but the hour are decoded in every format (`rtcField_encode`, `fullYear_encode`).
In the 12-hour formats the hour is not: the BCD branch takes the PM flag off before the branch that would
look at it, and that branch adds 12 to 12 o'clock as well (`rtcHour_encode_iff`).
-/

namespace MyOs

open Lib

def bcdToBin (v : UInt8) : UInt8 := (v &&& (0x0F : UInt8)) + (v >>> 4) * 10

/-- `while (rtc_is_updating()) { }`: whether one of the answers ends the loop. -/
def updateEnds : List UInt8 → Bool
  | [] => false
  | regA :: polls => if regA &&& 0x80 ≠ 0 then updateEnds polls else true

/-- `(reg_b & 0x04) == 0` -/
def isBcd (regB : UInt8) : Bool := regB &&& 0x04 == 0

/-- `(reg_b & 0x02) == 0` -/
def isTwelveHour (regB : UInt8) : Bool := regB &&& 0x02 == 0

/-- A field other than the hour. -/
def rtcField (bcd : Bool) (v : UInt8) : UInt8 := if bcd then bcdToBin v else v

/-- The hour. -/
def rtcHour (bcd twelve : Bool) (v : UInt8) : UInt8 :=
  let hour := if bcd then bcdToBin (v &&& 0x7F) else v
  if twelve ∧ hour &&& 0x80 ≠ 0 then ((hour &&& 0x7F) + 12) % 24 else hour

def fullYear (year : UInt8) : UInt16 :=
  if year < 70 then 2000 + year.toUInt16 else 1900 + year.toUInt16

/-- `rtc_read_time`: what `*out` holds then, or `none` as long as the update runs. -/
def rtcReadTime (polls : List UInt8) (cmosRead : UInt8 → UInt8) (out : Option RtcTime) :
    Option (Option RtcTime) :=
  match out with
  | none => some none
  | some _ =>
    if updateEnds polls then
      let sec := cmosRead 0x00
      let min := cmosRead 0x02
      let hour := cmosRead 0x04
      let day := cmosRead 0x07
      let month := cmosRead 0x08
      let year := cmosRead 0x09
      let bcd := isBcd (cmosRead 0x0B)
      let twelve := isTwelveHour (cmosRead 0x0B)
      some (some
        { second := rtcField bcd sec
          minute := rtcField bcd min
          hour := rtcHour bcd twelve hour
          day := rtcField bcd day
          month := rtcField bcd month
          year := fullYear (rtcField bcd year) })
    else none

/-! ## What the registers hold -/

/-- A number of two digits in BCD or in binary. -/
def rtcEncode (bcd : Bool) (v : ℕ) : UInt8 :=
  if bcd then UInt8.ofNat (v / 10 * 16 + v % 10) else UInt8.ofNat v

/-- The hour: in a 12-hour format from 1 to 12, with the PM flag in bit 7. -/
def rtcEncodeHour (bcd twelve : Bool) (h : ℕ) : UInt8 :=
  if twelve then
    rtcEncode bcd (if h % 12 = 0 then 12 else h % 12) ||| (if 12 ≤ h then 0x80 else 0)
  else rtcEncode bcd h

/-- The registers show an instant in one of the four formats, and status register B says in which. -/
structure RtcEncodes (bcd twelve : Bool) (cmosRead : UInt8 → UInt8) (t : RtcTime) : Prop where
  bcd_eq : isBcd (cmosRead 0x0B) = bcd
  twelve_eq : isTwelveHour (cmosRead 0x0B) = twelve
  second : cmosRead 0x00 = rtcEncode bcd t.second.toNat
  minute : cmosRead 0x02 = rtcEncode bcd t.minute.toNat
  hour : cmosRead 0x04 = rtcEncodeHour bcd twelve t.hour.toNat
  day : cmosRead 0x07 = rtcEncode bcd t.day.toNat
  month : cmosRead 0x08 = rtcEncode bcd t.month.toNat
  year : cmosRead 0x09 = rtcEncode bcd (t.year.toNat % 100)

/-- The hours that come through: all in the 24-hour formats, the morning and noon in 12-hour BCD, and all
but midnight and noon in 12-hour binary. -/
def HourReadable : (bcd twelve : Bool) → ℕ → Prop
  | _, false, _ => True
  | true, true, h => 1 ≤ h ∧ h ≤ 12
  | false, true, h => h ≠ 0 ∧ h ≠ 12

instance : ∀ (bcd twelve : Bool) (h : ℕ), Decidable (HourReadable bcd twelve h)
  | true, false, _ => isTrue trivial
  | false, false, _ => isTrue trivial
  | true, true, _ => inferInstanceAs (Decidable (_ ∧ _))
  | false, true, _ => inferInstanceAs (Decidable (_ ∧ _))

lemma updateEnds_iff (polls : List UInt8) :
    updateEnds polls = true ↔ ∃ regA ∈ polls, regA &&& 0x80 = 0 := by
  induction polls with
  | nil => simp [updateEnds]
  | cons regA polls ih =>
    by_cases h : regA &&& 0x80 = 0
    · simp [updateEnds, h]
    · simp [updateEnds, h, ih]

/-- **A field of two digits comes back in both formats.** -/
lemma rtcField_encode (bcd : Bool) {v : ℕ} (hv : v < 100) :
    rtcField bcd (rtcEncode bcd v) = UInt8.ofNat v := by
  have hbcd : ∀ v < 100, bcdToBin (UInt8.ofNat (v / 10 * 16 + v % 10)) = UInt8.ofNat v := by
    decide +kernel
  cases bcd with
  | false => rfl
  | true => exact hbcd v hv

/-- **The century.** -/
lemma fullYear_encode {y : ℕ} (hy : 1970 ≤ y) (hy' : y ≤ 2069) :
    fullYear (UInt8.ofNat (y % 100)) = UInt16.ofNat y := by
  interval_cases y <;> rfl

/-- **The hour**, through the day in each of the four formats. -/
lemma rtcHour_encode_iff : ∀ (bcd twelve : Bool), ∀ h < 24,
    rtcHour bcd twelve (rtcEncodeHour bcd twelve h) = UInt8.ofNat h ↔ HourReadable bcd twelve h := by
  decide +kernel

lemma RtcTime.eq_iff {t t' : RtcTime} :
    t = t' ↔ t.year = t'.year ∧ t.month = t'.month ∧ t.day = t'.day ∧ t.hour = t'.hour ∧
      t.minute = t'.minute ∧ t.second = t'.second := by
  cases t
  cases t'
  simp

/-- **When the clock is read right.**  From the registers of an instant between 1970 and 2069
`rtc_read_time` returns that instant if and only if its hour is one that comes through in the format of
the registers. -/
theorem rtcReadTime_exact_iff (bcd twelve : Bool) (t : RtcTime) (ht : t.Valid)
    (hyear : t.year.toNat ≤ 2069) (cmosRead : UInt8 → UInt8) (henc : RtcEncodes bcd twelve cmosRead t)
    (polls : List UInt8) (hpolls : ∃ regA ∈ polls, regA &&& 0x80 = 0) (out : RtcTime) :
    rtcReadTime polls cmosRead (some out) = some (some t) ↔ HourReadable bcd twelve t.hour.toNat := by
  have hday : t.day.toNat < 100 := by
    have hlen : monthLength t.year.toNat t.month.toNat ≤ 31 := by
      unfold monthLength
      split_ifs <;> omega
    have := ht.date.day_le
    omega
  have hmonth : t.month.toNat < 100 := by
    have := ht.date.month_le
    omega
  have hminute : t.minute.toNat < 100 := ht.minute_lt.trans (by decide)
  have hsecond : t.second.toNat < 100 := ht.second_lt.trans (by decide)
  rw [rtcReadTime, if_pos ((updateEnds_iff polls).mpr hpolls)]
  simp only [Option.some.injEq, RtcTime.eq_iff]
  rw [henc.bcd_eq, henc.twelve_eq, henc.second, henc.minute, henc.day, henc.month, henc.year,
    henc.hour, rtcField_encode _ hsecond, rtcField_encode _ hminute, rtcField_encode _ hday,
    rtcField_encode _ hmonth, rtcField_encode _ (Nat.mod_lt _ (by decide)),
    fullYear_encode ht.year_ge hyear, ← rtcHour_encode_iff _ _ _ ht.hour_lt]
  simp

/-- The registers of an instant, with `regB` for status register B. -/
def rtcRegisters (regB : UInt8) (t : RtcTime) (reg : UInt8) : UInt8 :=
  if reg = 0x00 then rtcEncode (isBcd regB) t.second.toNat
  else if reg = 0x02 then rtcEncode (isBcd regB) t.minute.toNat
  else if reg = 0x04 then rtcEncodeHour (isBcd regB) (isTwelveHour regB) t.hour.toNat
  else if reg = 0x07 then rtcEncode (isBcd regB) t.day.toNat
  else if reg = 0x08 then rtcEncode (isBcd regB) t.month.toNat
  else if reg = 0x09 then rtcEncode (isBcd regB) (t.year.toNat % 100)
  else if reg = 0x0B then regB
  else 0

lemma encodes_rtcRegisters (regB : UInt8) (t : RtcTime) :
    RtcEncodes (isBcd regB) (isTwelveHour regB) (rtcRegisters regB t) t := by
  refine ⟨?_, ?_, ?_, ?_, ?_, ?_, ?_, ?_⟩ <;> simp [rtcRegisters]

/-- In 12-hour binary, half past three in the afternoon is read right. -/
theorem rtcReadTime_exact_afternoon :
    rtcReadTime [0x80, 0x00] (rtcRegisters 0x04 ⟨2024, 2, 29, 15, 30, 0⟩) (some ⟨0, 0, 0, 0, 0, 0⟩) =
      some (some ⟨2024, 2, 29, 15, 30, 0⟩) :=
  (rtcReadTime_exact_iff false true ⟨2024, 2, 29, 15, 30, 0⟩
    ⟨by decide, by decide, by decide, by decide, by decide⟩ (by decide) _
    (encodes_rtcRegisters 0x04 _) [0x80, 0x00] (by decide) _).mpr (by decide)

/-- In 12-hour BCD the same instant is read as half past three in the morning. -/
theorem rtcReadTime_afternoon_lost :
    RtcEncodes true true (rtcRegisters 0x00 ⟨2024, 2, 29, 15, 30, 0⟩) ⟨2024, 2, 29, 15, 30, 0⟩ ∧
      rtcReadTime [0x00] (rtcRegisters 0x00 ⟨2024, 2, 29, 15, 30, 0⟩) (some ⟨0, 0, 0, 0, 0, 0⟩) =
        some (some ⟨2024, 2, 29, 3, 30, 0⟩) :=
  ⟨encodes_rtcRegisters 0x00 _, by decide +kernel⟩

end MyOs
