import MorphEngine.Calendar
import MorphEngine.Value.Conversion

/-!
Times as text. Seconds since the start of 1970 are rounded to whole microseconds, a half going to
the even neighbour, and written as a date and a time of day in universal time. Years from 1 to 9999
have such a text.
-/

namespace MorphEngine.Timestamp

/-- Years are counted from 1900 in words of 32 bits, and read back in such words. -/
def wordSize : Nat := 0x100000000

/-- Whole seconds and microseconds as text. -/
def shown (seconds : Int) (micros : Nat) : Except Fault Text :=
  let days := seconds.fdiv 86400
  let second := (seconds - days * 86400).toNat
  let date := Calendar.dateOfDays days
  if Int.bmod (date.year - 1900) wordSize ≠ date.year - 1900 then
    .error (.plain (.other "OSError") "[Errno 75] Value too large for defined data type")
  else if date.year < 1 ∨ 9999 < date.year then
    let year := Text.ofInt (Int.bmod date.year wordSize)
    .error (.plain .value ("year " ++ year ++ " is out of range"))
  else
    let fraction : Text := if micros = 0 then "" else "." ++ Calendar.padded 6 micros
    .ok (date.text ++ "T" ++ Calendar.timeText second ++ fraction ++ "+00:00")

def outOfRange : Fault := .plain .overflow "timestamp out of range for platform time_t"

/-- The whole number closest to a double, a half going to the even neighbour. -/
def roundEven (x : Float) : Nat :=
  match Real.parts x with
  | .finite _ m e =>
    if 0 ≤ e then m * Nat.pow 2 e.toNat else Real.roundEven m (Nat.pow 2 (-e).toNat)
  | _ => 0

/-- Seconds and microseconds of a double; the fraction is scaled as a double before it is rounded.
-/
def split (negative : Bool) (m : Nat) (e : Int) : Int × Nat :=
  let (num, den) := Real.fraction m e
  let whole : Int := if negative then -(num / den : Nat) else (num / den : Nat)
  let micros := roundEven (Real.nearest false (num % den) den * 1000000.0)
  if negative then
    if micros = 0 then (whole, 0) else (whole - 1, 1000000 - micros)
  else if 1000000 ≤ micros then (whole + 1, micros - 1000000)
  else (whole, micros)

def isInRange (seconds : Int) : Bool :=
  decide (-0x8000000000000000 ≤ seconds ∧ seconds < 0x8000000000000000)

def ofFloat (x : Float) : Except Fault Text :=
  match Real.parts x with
  | .nan => .error (.plain .value "Invalid value NaN (not a number)")
  | .infinite _ => .error outOfRange
  | .finite negative m e =>
    let (seconds, micros) := split negative m e
    if isInRange seconds then shown seconds micros else .error outOfRange

def ofInt (n : Int) : Except Fault Text := if isInRange n then shown n 0 else .error outOfRange

/-- The text of a time given as a value. -/
def ofValue (v : Value) : Except Fault Text :=
  match v.bare with
  | .real x => ofFloat x
  | .scalar ⟨.floating 8 _, bs⟩ => ofFloat ((Scalar.toFloat? bs).getD Real.nan)
  | v => do ofInt (← v.toIndex)

end MorphEngine.Timestamp
