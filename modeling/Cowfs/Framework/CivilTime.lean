import Cowfs.Framework.Numerals

/-!
# Calendar time

`localtime` breaks a number of seconds since the beginning of 1970 (UTC) down into a date and a
time of day, in the time zone the user has chosen, and `strftime` prints them.  A time zone is
what it adds to UTC at each instant, less than 25 hours back and less than 26 forth.

The date is that of the Gregorian calendar.  Its years are counted from March on, so that the
leap day is the last of a year, and days from the first of March of the year 0, which is 719468
days before the beginning of 1970; 400 years have 146097 days.

The facts at the end are those a reader of printed times needs: which years can occur, which
year it was when the counting begins, and that `strtoull` gets the year out of a printed time
and nothing else.
-/

namespace Cowfs

/-- `struct tm` -/
structure Tm where
  tmSec : ℤ
  tmMin : ℤ
  tmHour : ℤ
  tmMday : ℤ
  /-- Months since January. -/
  tmMon : ℤ
  /-- Years since 1900. -/
  tmYear : ℤ
  deriving DecidableEq, Repr

/-- Seconds east of UTC at each instant. -/
structure Zone where
  offset : ℤ → ℤ
  bounded : ∀ t, -90000 < offset t ∧ offset t < 93600

/-- UTC -/
def Zone.utc : Zone := ⟨fun _ => 0, fun _ => by norm_num⟩

/-! ## Dates -/

namespace Civil

/-- The day of the era of 400 years. -/
def dayOfEra (days : ℤ) : ℤ := (days + 719468) % 146097

/-- The year of the era, from March on. -/
def yearOfEra (days : ℤ) : ℤ :=
  (dayOfEra days - dayOfEra days / 1460 + dayOfEra days / 36524 - dayOfEra days / 146096) / 365

/-- The day of the year, from the first of March on. -/
def dayOfYear (days : ℤ) : ℤ :=
  dayOfEra days - (365 * yearOfEra days + yearOfEra days / 4 - yearOfEra days / 100)

/-- The month, March being 0. -/
def monthFromMarch (days : ℤ) : ℤ := (5 * dayOfYear days + 2) / 153

/-- The day of the month. -/
def dayOfMonth (days : ℤ) : ℤ := dayOfYear days - (153 * monthFromMarch days + 2) / 5 + 1

/-- The month, January being 0. -/
def month (days : ℤ) : ℤ :=
  if monthFromMarch days < 10 then monthFromMarch days + 2 else monthFromMarch days - 10

/-- The year the day `days` days after the beginning of 1970 belongs to. -/
def year (days : ℤ) : ℤ :=
  yearOfEra days + (days + 719468) / 146097 * 400 + if monthFromMarch days < 10 then 0 else 1

end Civil

open Civil

/-! ## The library functions -/

/-- `localtime` -/
def localtime (zone : Zone) (t : ℤ) : Tm :=
  let days := (t + zone.offset t) / 86400
  let secs := (t + zone.offset t) % 86400
  { tmSec := secs % 60
    tmMin := secs / 60 % 60
    tmHour := secs / 3600
    tmMday := dayOfMonth days
    tmMon := month days
    tmYear := year days - 1900 }

/-- A number in decimal, with its sign. -/
def decimalInt (n : ℤ) : CStr := if n < 0 then '-' :: decimal n.natAbs else decimal n.toNat

/-- A number in at least two digits. -/
def twoDigits (n : ℤ) : CStr := if n < 10 then '0' :: decimal n.toNat else decimal n.toNat

/-- `strftime` with the format `"%Y-%m-%d %H:%M:%S"`, into a buffer that is large enough. -/
def strftime (tm : Tm) : CStr :=
  decimalInt (tm.tmYear + 1900) ++ '-' :: (twoDigits (tm.tmMon + 1) ++
    '-' :: (twoDigits tm.tmMday ++ ' ' :: (twoDigits tm.tmHour ++
      ':' :: (twoDigits tm.tmMin ++ ':' :: twoDigits tm.tmSec))))

-- the first and the last second of a leap day, in UTC
example : strftime (localtime Zone.utc 1709164800) =
    ['2', '0', '2', '4', '-', '0', '2', '-', '2', '9', ' ', '0', '0', ':', '0', '0', ':', '0',
      '0'] := by decide +kernel

example : strftime (localtime Zone.utc 1709251199) =
    ['2', '0', '2', '4', '-', '0', '2', '-', '2', '9', ' ', '2', '3', ':', '5', '9', ':', '5',
      '9'] := by decide +kernel

/-! ## Years -/

lemma yearOfEra_bounds (days : ℤ) : 0 ≤ yearOfEra days ∧ yearOfEra days ≤ 400 := by
  have hpos : 0 ≤ dayOfEra days := Int.emod_nonneg _ (by norm_num)
  have hlt : dayOfEra days < 146097 := Int.emod_lt_of_pos _ (by norm_num)
  unfold yearOfEra
  omega

/-- The year is one of its era, or the next one after the last of March years. -/
lemma year_bounds (days : ℤ) :
    (days + 719468) / 146097 * 400 ≤ year days ∧
      year days ≤ (days + 719468) / 146097 * 400 + 401 := by
  have hyear := yearOfEra_bounds days
  unfold year
  split_ifs <;> omega

/-- The years of the times a 64-bit number of nanoseconds can denote. -/
lemma localtime_year_bounds (zone : Zone) {t : ℤ} (h : 0 ≤ t ∧ t ≤ 2 ^ 64 / 1000000000) :
    0 < (localtime zone t).tmYear + 1900 ∧ (localtime zone t).tmYear + 1900 < 1000000000 := by
  have hzone := zone.bounded t
  have hdays : -2 ≤ (t + zone.offset t) / 86400 ∧ (t + zone.offset t) / 86400 ≤ 300000 := by
    omega
  have hyear := year_bounds ((t + zone.offset t) / 86400)
  simp only [localtime]
  omega

/-- When the counting begins it is 1970, and still 1969 west of Greenwich. -/
lemma localtime_year_zero (zone : Zone) :
    (localtime zone 0).tmYear + 1900 = if zone.offset 0 < 0 then 1969 else 1970 := by
  have hzone := zone.bounded 0
  have hdays : (0 + zone.offset 0) / 86400 = -2 ∨ (0 + zone.offset 0) / 86400 = -1 ∨
      (0 + zone.offset 0) / 86400 = 0 ∨ (0 + zone.offset 0) / 86400 = 1 := by omega
  simp only [localtime, sub_add_cancel]
  rcases hdays with h | h | h | h <;> rw [h]
  · rw [if_pos (by omega)]
    decide
  · rw [if_pos (by omega)]
    decide
  · rw [if_neg (by omega)]
    decide
  · rw [if_neg (by omega)]
    decide

/-- From a printed time `strtoull` reads the year. -/
lemma strtoull_strftime {tm : Tm} (hlow : 0 < tm.tmYear + 1900)
    (hhigh : tm.tmYear + 1900 < 2 ^ 64) :
    strtoull (strftime tm) = UInt64.ofNat (tm.tmYear + 1900).toNat := by
  have hdecimal : decimalInt (tm.tmYear + 1900) = decimal (tm.tmYear + 1900).toNat :=
    if_neg (by omega)
  rw [strftime, hdecimal]
  exact strtoull_decimal (by omega) rfl

end Cowfs
