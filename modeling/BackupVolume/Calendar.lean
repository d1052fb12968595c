import BackupVolume.Text.Padding

/-! # Calendar dates

Seconds since the start of 1970 as a date and a time of day in the Gregorian calendar, for years
from -262143 to 262142.
-/
namespace BackupVolume.Calendar

structure Date where
  year : Int
  month : Nat
  day : Nat
  deriving DecidableEq

/-- The date a number of days after the first of March of the year 0. Years start in March here,
so that the leap day is the last one: an era has 400 years and 146097 days. -/
def dateAfter (days : Int) : Date :=
  let era := days.fdiv 146097
  let d := (days.fmod 146097).toNat
  let year := (d - d / 1460 + d / 36524 - d / 146096) / 365
  let dayOfYear := d - (365 * year + year / 4 - year / 100)
  let m := (5 * dayOfYear + 2) / 153
  let day := dayOfYear - (153 * m + 2) / 5 + 1
  let month := if m < 10 then m + 3 else m - 9
  ⟨year + era * 400 + if month ≤ 2 then 1 else 0, month, day⟩

/-- The days from the first of March of the year 0 to the first of January 1970. -/
def epoch : Int := 719468

/-- Years have at least four digits; others than four, and the past before the year 0, a sign. -/
def yearText (y : Int) : String :=
  if 0 ≤ y && y ≤ 9999 then Text.zeroPadded 4 y.toNat
  else if 0 ≤ y then "+" ++ toString y
  else "-" ++ Text.zeroPadded 4 y.natAbs

def timestamp? (seconds : Int) : Option String :=
  let date := dateAfter (seconds.fdiv 86400 + epoch)
  let time := (seconds.fmod 86400).toNat
  let two (n : Nat) : String := Text.zeroPadded 2 n
  if -262143 ≤ date.year && date.year ≤ 262142 then
    some (yearText date.year ++ "-" ++ two date.month ++ "-" ++ two date.day ++ " "
      ++ two (time / 3600) ++ ":" ++ two (time / 60 % 60) ++ ":" ++ two (time % 60))
  else none

end BackupVolume.Calendar
