import MorphEngine.Calendar
import MorphEngine.ElementType

/-!
Points in time and spans of time, as array elements hold them: whole numbers of some unit, points
being counted from the start of 1970. A point is written down to its unit; a span is written as a
number of units. The least number of eight bytes stands for a time that is missing, which has no
order. Two times meet in the coarsest unit that both can be counted in. Years and months have no
fixed length, so that spans of them meet no others; points in time that are counted in them are
moments as all are.
-/

namespace MorphEngine

/-- A unit of time, and how many of it make one step. -/
structure TimeUnit where
  count : Nat
  name : Text
deriving DecidableEq

/-- Why two units have no common one. -/
inductive UnitClash where
  /-- Spans of months and spans of a fixed length. -/
  | uneven
  /-- One is too many times the other. -/
  | overflowing

namespace TimeUnit

/-- The unit in the brackets of a code, where a number may stand in front of its name. -/
def ofCode (code : Text) : TimeUnit :=
  let inner := code.trim fun c => c = Text.ofChar '[' || c = Text.ofChar ']'
  let isDigit (c : CodePoint) : Bool := Text.ofChar '0' ≤ c && c ≤ Text.ofChar '9'
  let digits := inner.points.takeWhile isDigit
  let count := digits.foldl (fun n c => 10 * n + (c.val - 48)) 0
  ⟨if digits.isEmpty then 1 else count, ⟨inner.points.dropWhile isDigit⟩⟩

/-- What several of a unit are called. -/
def plurals : List (Text × Text) :=
  [("Y", "years"), ("M", "months"), ("W", "weeks"), ("D", "days"), ("h", "hours"),
    ("m", "minutes"), ("s", "seconds"), ("ms", "milliseconds"), ("us", "microseconds"),
    ("ns", "nanoseconds"), ("ps", "picoseconds"), ("fs", "femtoseconds"), ("as", "attoseconds")]

def plural (u : TimeUnit) : Text := (plurals.lookup u.name).getD "generic time units"

/-- The decimal places of a second that a unit goes down to. -/
def places : List (Text × Nat) :=
  [("s", 0), ("ms", 3), ("us", 6), ("ns", 9), ("ps", 12), ("fs", 15), ("as", 18)]

/-- The units of a fixed length, and how many of the shortest unit they last. -/
def lengths : List (Text × Nat) :=
  let second := Nat.pow 10 18
  let long : List (Text × Nat) :=
    [("W", 604800 * second), ("D", 86400 * second), ("h", 3600 * second), ("m", 60 * second)]
  long ++ places.map fun p => (p.1, Nat.pow 10 (18 - p.2))

/-- A number of units in the shortest one. -/
def length? (u : TimeUnit) (n : Int) : Option Int :=
  (lengths.lookup u.name).map fun k => n * u.count * k

/-- A number of units in months. -/
def months? (u : TimeUnit) (n : Int) : Option Int :=
  if u.name = "Y" then some (12 * n * u.count)
  else if u.name = "M" then some (n * u.count)
  else none

/-- A unit with so many steps, when it can have as many. -/
def ofCount (name : Text) (count : Nat) : Except UnitClash TimeUnit :=
  if count < 0x80000000 then .ok ⟨count, name⟩ else .error .overflowing

/-- The common unit of units that have a fixed length each, given for one step. -/
def commonFixed (u v : TimeUnit) (k l : Nat) : Except UnitClash TimeUnit :=
  if 0x100000000000000 ≤ max (k / l) (l / k) then .error .overflowing
  else if k < l then ofCount u.name (u.count.gcd (v.count * (l / k)))
  else ofCount v.name ((u.count * (k / l)).gcd v.count)

/-- The coarsest unit that times of two units can be counted in. A unit without a name takes the
other one. Points in time can be counted in any finer unit. -/
def common (isPoint other : Bool) (u v : TimeUnit) : Except UnitClash TimeUnit :=
  let finer (isPoint : Bool) (w : TimeUnit) : Except UnitClash TimeUnit :=
    if isPoint then ofCount w.name (u.count.gcd v.count) else .error .uneven
  if u.name.isEmpty then .ok v
  else if v.name.isEmpty then .ok u
  else if u.name = v.name then ofCount u.name (u.count.gcd v.count)
  else if u.name = "Y" ∧ v.name = "M" then ofCount "M" ((12 * u.count).gcd v.count)
  else if u.name = "M" ∧ v.name = "Y" then ofCount "M" (u.count.gcd (12 * v.count))
  else
    match lengths.lookup u.name, lengths.lookup v.name with
    | some k, some l => commonFixed u v k l
    | none, _ => finer isPoint v
    | _, none => finer other u

/-- A number of units in another unit, which is no coarser. -/
def convert (u v : TimeUnit) (n : Int) : Int :=
  match u.months? n, v.months? 1, u.length? n, v.length? 1 with
  | some a, some b, _, _ => a.fdiv b
  | _, _, some a, some b => a.fdiv b
  | some a, _, _, some b =>
    let start : Calendar.Date := ⟨1970 + a.fdiv 12, (a.fmod 12).toNat + 1, 1⟩
    (start.toDays * 86400 * Nat.pow 10 18 : Int).fdiv b
  | _, _, _, _ => n

/-- The unit as it stands behind a number, the number of them included when there are several. -/
def text (u : TimeUnit) : Text := if u.count = 1 then u.name else Text.ofNat u.count ++ u.name

/-- The unit in brackets, as in the code of an element type. -/
def code (u : TimeUnit) : Text := if u.name.isEmpty then .empty else "[" ++ u.text ++ "]"

end TimeUnit

namespace Moment

/-- The number for a time that is missing. -/
def missing : Int := -0x8000000000000000

/-- A number of units in another unit; a missing time stays missing. -/
def counted (u v : TimeUnit) (n : Int) : Int := if n = missing then missing else u.convert v n

/-- How two points in time, or two spans, compare; missing ones do not. -/
def order? (isPoint : Bool) (u v : TimeUnit) (m n : Int) :
    Except UnitClash (Option Ordering) := do
  let w ← u.common isPoint isPoint v
  if m = missing ∨ n = missing then return none
  else return some (compare (u.convert w m) (v.convert w n))

/-- Whether two numbers of units are the same point in time or, otherwise, the same span. -/
def same (isPoint : Bool) (u v : TimeUnit) (m n : Int) : Bool :=
  match order? isPoint u v m n with
  | .ok (some .eq) => true
  | _ => false

/-- The date and the time of day down to the first `length` characters of the latter. -/
def dateAndTime (seconds : Int) (length : Nat) : Text :=
  (Calendar.dateOfDays (seconds.fdiv 86400)).text ++ "T" ++
    (Calendar.timeText (seconds.fmod 86400).toNat).take length

/-- A point in time, written down to its unit. -/
def pointText (u : TimeUnit) (n : Int) : Text :=
  if n = missing then "NaT"
  else
    let n := n * u.count
    if u.name = "Y" then Calendar.yearText (1970 + n)
    else if u.name = "M" then
      Calendar.Date.monthText ⟨1970 + n.fdiv 12, (n.fmod 12).toNat + 1, 1⟩
    else if u.name = "W" then (Calendar.dateOfDays (7 * n)).text
    else if u.name = "D" then (Calendar.dateOfDays n).text
    else if u.name = "h" then dateAndTime (n * 3600) 2
    else if u.name = "m" then dateAndTime (n * 60) 5
    else
      match TimeUnit.places.lookup u.name with
      | none => Text.ofInt n
      | some 0 => dateAndTime n 8
      | some k =>
        let parts : Int := Nat.pow 10 k
        dateAndTime (n.fdiv parts) 8 ++ "." ++ Calendar.padded k (n.fmod parts).toNat

/-- A span of time as a number of units. -/
def spanText (u : TimeUnit) (n : Int) : Text :=
  if n = missing then "NaT" else Text.ofInt (n * u.count) ++ " " ++ u.plural

/-- A point in time between parentheses: the unit is added when the text does not tell it. -/
def pointContent (u : TimeUnit) (n : Int) : Text :=
  let quoted : Text := "'" ++ pointText u n ++ "'"
  if u.name.isEmpty || u.count = 1 && u.name ≠ "h" then quoted
  else quoted ++ ",'" ++ u.text ++ "'"

/-- A span of time between parentheses. -/
def spanContent (u : TimeUnit) (n : Int) : Text :=
  let number : Text := if n = missing then "'NaT'" else Text.ofInt n
  if u.name.isEmpty then number else number ++ ",'" ++ u.text ++ "'"

/-- What a time is outside of arrays. Where calendars do not reach, or not down to the unit, it
stays a number of units. -/
inductive Item where
  | missing
  | count (n : Int)
  | span (days : Int) (seconds micros : Nat)
  | date (d : Calendar.Date)
  | instant (d : Calendar.Date) (seconds micros : Nat)

/-- A number of units in days, seconds and microseconds, when all units have one length. -/
def dayParts? (u : TimeUnit) (n : Int) : Option (Int × Nat × Nat) := do
  let micros := (← u.length? n).fdiv (Nat.pow 10 12)
  let rest := (micros.fmod 86400000000).toNat
  return (micros.fdiv 86400000000, rest / 1000000, rest % 1000000)

/-- Whether a unit is too short for calendars. -/
def isTiny (u : TimeUnit) : Bool := (TimeUnit.places.lookup u.name).any (6 < ·)

/-- The most days of a span outside of arrays. -/
def mostDays : Nat := 999999999

def spanItem (u : TimeUnit) (n : Int) : Item :=
  if n = missing then .missing
  else
    match dayParts? u n with
    | some (days, seconds, micros) =>
      if isTiny u || mostDays < days.natAbs then .count n else .span days seconds micros
    | none => .count n

def pointItem (u : TimeUnit) (n : Int) : Item :=
  let dated (d : Calendar.Date) (item : Item) : Item :=
    if isTiny u || d.year < 1 || 9999 < d.year then .count n else item
  if n = missing ∨ u.name.isEmpty then .missing
  else
    match u.months? n, dayParts? u n with
    | some months, _ =>
      let d : Calendar.Date := ⟨1970 + months.fdiv 12, (months.fmod 12).toNat + 1, 1⟩
      dated d (.date d)
    | none, some (days, seconds, micros) =>
      let d := Calendar.dateOfDays days
      dated d (if u.name = "W" ∨ u.name = "D" then .date d else .instant d seconds micros)
    | none, none => .count n

end Moment

end MorphEngine
