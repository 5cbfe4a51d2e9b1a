import MorphEngine.Text

/-!
Days since the start of 1970 as dates of the calendar, and the text of dates and of times of day.
The calendar goes on without end in both directions, the year before the first being zero.
-/

namespace MorphEngine.Calendar

/-- A date of the calendar. -/
structure Date where
  year : Int
  month : Nat
  day : Nat
deriving DecidableEq

/-- The date that many days after the first of January 1970. Years are counted from March, so that
the leap day comes last, and days in cycles of 400 years. -/
def dateOfDays (days : Int) : Date :=
  let shifted := days + 719468
  let cycle := shifted.fdiv 146097
  let dayOfCycle := (shifted - cycle * 146097).toNat
  let yearOfCycle :=
    (dayOfCycle - dayOfCycle / 1460 + dayOfCycle / 36524 - dayOfCycle / 146096) / 365
  let dayOfYear := dayOfCycle - (365 * yearOfCycle + yearOfCycle / 4 - yearOfCycle / 100)
  let monthFromMarch := (5 * dayOfYear + 2) / 153
  let day := dayOfYear - (153 * monthFromMarch + 2) / 5 + 1
  let month := if monthFromMarch < 10 then monthFromMarch + 3 else monthFromMarch - 9
  ⟨cycle * 400 + yearOfCycle + (if month ≤ 2 then 1 else 0), month, day⟩

/-- The days from the first of January 1970 to a date. -/
def Date.toDays (d : Date) : Int :=
  let year := if d.month ≤ 2 then d.year - 1 else d.year
  let cycle := year.fdiv 400
  let yearOfCycle := (year - cycle * 400).toNat
  let dayOfYear := (153 * ((d.month + 9) % 12) + 2) / 5 + d.day - 1
  let dayOfCycle := yearOfCycle * 365 + yearOfCycle / 4 - yearOfCycle / 100 + dayOfYear
  cycle * 146097 + dayOfCycle - 719468

/-- A number with zeros in front up to `width` places. -/
def padded (width n : Nat) : Text :=
  let ds := Nat.toDigits 10 n
  Text.ofChars (List.replicate (width - ds.length) '0' ++ ds)

/-- A year in four places at least, behind a sign when it is negative. -/
def yearText (year : Int) : Text :=
  let sign : Text := if year < 0 then "-" else ""
  sign ++ padded (if year < 0 then 3 else 4) year.natAbs

def Date.monthText (d : Date) : Text := yearText d.year ++ "-" ++ padded 2 d.month

def Date.text (d : Date) : Text := d.monthText ++ "-" ++ padded 2 d.day

/-- Hours, minutes and seconds of a second of the day. -/
def timeText (second : Nat) : Text :=
  let minute := second / 60
  padded 2 (minute / 60) ++ ":" ++ padded 2 (minute % 60) ++ ":" ++ padded 2 (second % 60)

end MorphEngine.Calendar
