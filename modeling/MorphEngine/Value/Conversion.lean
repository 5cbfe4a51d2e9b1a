import MorphEngine.Fault
import MorphEngine.Text.Numeral
import MorphEngine.Value.Item

/-!
Conversion of values to numbers. Numbers and numerals convert; a numeral may be a text or a byte
string. Doubles lose their fraction on the way to whole numbers, and whole numbers beyond the range
of doubles do not convert to doubles.
-/

namespace MorphEngine.Value

/-- The text of a numeral, where bytes outside ASCII stand for no digit. -/
def numeral? (v : Value) : Option Text :=
  match v.text?, v.byteString? with
  | some t, _ => some t
  | Option.none, some bs =>
    some ⟨bs.map fun b => CodePoint.ofNat (if b < 128 then b.toNat else 0xFFFD)⟩
  | Option.none, Option.none => Option.none

/-- What is converted in place of a value: what a scalar holds, of a complex one the real part, and
the element of an array without dimensions. Texts and byte strings are converted themselves. -/
def convertible (v : Value) : Except Fault Value :=
  match v.bare, v.numeral?, v.complex? with
  | v, some _, _ => .ok v
  | .scalar _, _, some (x, _) => .ok (ofNumber x)
  | .scalar ⟨.record fields, bs⟩, _, _ => .ok (.tuple ((fieldScalars fields bs).map .scalar))
  | .scalar s, _, _ => .ok ((item? s).getD (.scalar s))
  | .array type [] bs _, _, _ =>
    let s := Scalar.little ⟨type, bs⟩
    .ok ((item? s).getD (.scalar s))
  | .objectArray [] [v], _, _ => .ok v
  | .array _ _ _ _, _, _ | .objectArray _ _, _, _ =>
    .error (.typeError "only 0-dimensional arrays can be converted to Python scalars")
  | v, _, _ => .ok v

/-- The double that a value converts to. -/
def toFloat (v : Value) : Except Fault Float := do
  let v ← v.convertible
  match v.number?, v.numeral? with
  | some n, _ =>
    match n.toFloat? with
    | some x => return x
    | Option.none => throw .overflowingInt
  | Option.none, some t =>
    match t.toFloat? with
    | some x => return x
    | Option.none =>
      throw (.plain .value ("could not convert string to float: " ++ (← v.shownOrFault)))
  | Option.none, Option.none =>
    throw (.typeError ("float() argument must be a string or a real number, not '" ++
      v.longTypeName ++ "'"))

/-- The whole number that a double loses its fraction to. -/
def wholePart (x : Float) : Except Fault Int :=
  match Real.truncate? x with
  | some n => .ok n
  | Option.none =>
    if Real.isNaN x then .error (.plain .value "cannot convert float NaN to integer")
    else .error (.plain .overflow "cannot convert float infinity to integer")

/-- How much of what was given a message about a numeral shows. -/
def numeralExcerpt : Nat := 200

/-- The fault of a numeral that is none in the given base. The message shows its beginning; all byte
strings are shown alike. -/
def invalidLiteral (base : Nat) (v : Value) : Except Fault Int := do
  let v : Value := v.byteString?.elim v fun bs => .bytes (bs.take numeralExcerpt)
  throw (.plain .value ("invalid literal for int() with base " ++ Text.ofNat base ++ ": " ++
    (← v.shownOrFault).take numeralExcerpt))

/-- The whole number that a numeral in a base stands for. -/
def readNumeral (base : Nat) (v : Value) (t : Text) : Except Fault Int :=
  match t.readWhole base with
  | .ok n => .ok n
  | .error .malformed => invalidLiteral base v
  | .error (.tooLong digits) =>
    .error (.plain .value ("Exceeds the limit (4300 digits) for integer string conversion: " ++
      "value has " ++ Text.ofNat digits ++
      " digits; use sys.set_int_max_str_digits() to increase the limit"))

/-- The whole number that a value converts to. -/
def toInt (v : Value) : Except Fault Int := do
  let v ← v.convertible
  match v.number?, v.numeral? with
  | some (.int n), _ => return n
  | some (.real x), _ => wholePart x
  | Option.none, some t => readNumeral 10 v t
  | Option.none, Option.none =>
    throw (.typeError ("int() argument must be a string, a bytes-like object or a real number, " ++
      "not '" ++ v.longTypeName ++ "'"))

/-- The whole number that a value counts or points with. -/
def toIndex (v : Value) : Except Fault Int :=
  let element? : Option Value :=
    match v.bare with
    | .array type [] bs _ => some (.scalar (Scalar.little ⟨type, bs⟩))
    | .array _ _ _ _ | .objectArray _ _ => some .none
    | _ => Option.none
  match v.index?, element? with
  | some n, _ => .ok n
  | Option.none, some element =>
    match element.index? with
    | some n => .ok n
    | Option.none =>
      .error (.typeError "only integer scalar arrays can be converted to a scalar index")
  | Option.none, Option.none =>
    .error (.typeError ("'" ++ v.longTypeName ++ "' object cannot be interpreted as an integer"))

/-- The whole number that a numeral stands for in the base that another value gives. -/
def toIntInBase (v base : Value) : Except Fault Int := do
  let b ← base.toIndex
  if b ≠ 0 ∧ (b < 2 ∨ 36 < b) then
    throw (.plain .value "int() base must be >= 2 and <= 36, or 0")
  match v.numeral? with
  | Option.none => throw (.typeError "int() can't convert non-string with explicit base")
  | some t => readNumeral b.toNat v t

end MorphEngine.Value
