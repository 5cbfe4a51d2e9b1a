import MorphEngine.Scalar.Arithmetic
import MorphEngine.Value.Conversion
import MorphEngine.Value.Product

/-!
Calls that work on numbers: magnitude, digits in a base, quotient and rest, powers, rounding, and
the making of doubles and complex numbers. Whole numbers are treated exactly; a double among the
arguments makes doubles of all of them.
-/

namespace MorphEngine.Builtin

def divisionByZero (message : Text) : Fault := .plain (.other "ZeroDivisionError") message

def noMagnitude (v : Value) : Fault :=
  .typeError ("bad operand type for abs(): '" ++ v.longTypeName ++ "'")

/-- The whole part of a square root, by steps that halve the distance at least; `fuel` bounds them.
-/
def rootBelow (n : Nat) : Nat → Nat → Nat
  | 0, x => x
  | fuel + 1, x =>
    let y := (x + n / x) / 2
    if x ≤ y then x else rootBelow n fuel y

/-- The whole part of the square root of a number. -/
def wholeRoot (n : Nat) : Nat :=
  if n = 0 then 0 else rootBelow n (n.log2 + 2) (Nat.pow 2 (n.log2 / 2 + 1))

/-- The length of the hypotenuse over two finite lengths, rounded once: the root of the sum of
squares is taken with sixty-four binary places more than needed, and one more that says whether it
is inexact. -/
def hypotenuse (m n : Nat) (d e : Int) : Float :=
  let low := min d e
  let a := m * Nat.pow 2 (d - low).toNat
  let b := n * Nat.pow 2 (e - low).toNat
  let square := (a * a + b * b) * Nat.pow 4 64
  let root := wholeRoot square
  let root := if root * root = square then 2 * root else 2 * root + 1
  let (num, den) := Real.fraction root (low - 65)
  Real.nearest false num den

/-- The magnitude of a complex number. -/
def magnitude (re im : Float) : Except Fault Value :=
  match Real.parts re, Real.parts im with
  | .infinite _, _ | _, .infinite _ => .ok (.real (Real.infinity false))
  | .finite _ m d, .finite _ n e =>
    let x := hypotenuse m n d e
    if Real.isFinite x then .ok (.real x)
    else .error (.plain .overflow "absolute value too large")
  | _, _ => .ok (.real Real.nan)

/-- The fault of elements that have no magnitude. -/
def noElementMagnitude (t : ElementType) : Fault :=
  .plain (.other "UFuncTypeError")
    ("ufunc 'absolute' did not contain a loop with signature matching types " ++
      Value.Elements.classLook ⟨some t, [], .blanks []⟩ ++ " -> None")

/-- The magnitude of an element, which is one too. That of a complex one has the precision of its
parts, and one beyond it is infinite. -/
def absoluteElement (s : Scalar) : Except Fault Scalar :=
  match s.type, s.amount? with
  | .flag, _ | .unsigned _ _, _ => .ok s
  | .signed n _, some (.whole k) => .ok ⟨s.type, Scalar.ofInt n k.natAbs⟩
  | .floating n _, some (.real x) => .ok ⟨s.type, Scalar.ofParts n false x.magnitude⟩
  | .complex n _, some (.complex re im) =>
    let t : ElementType := .floating (n / 2) false
    let x :=
      match magnitude (Real.ofParts re) (Real.ofParts im) with
      | .ok (.real x) => Real.parts x
      | _ => .infinite false
    .ok ⟨t, Scalar.bytesOf t false ((Amount.real x).fit t)⟩
  | .duration _ _, _ =>
    let n := Scalar.toInt s.bytes
    .ok (if n = Moment.missing then s else ⟨s.type, Scalar.ofInt 8 n.natAbs⟩)
  | t, _ => .error (noElementMagnitude t)

/-- The magnitude of a number, or of all elements. -/
def absolute (v : Value) : Except Fault Value :=
  match v.bare, v.number?, v.complex? with
  | .scalar s, _, _ =>
    if v.numeral?.isSome then .error (noMagnitude v) else (absoluteElement s).map .scalar
  | .array t shape bs _, _, _ => do
    let elements := Extent.runs (Extent.count shape) t.size bs
    let results ← elements.mapM fun bs => absoluteElement (Scalar.little ⟨t, bs⟩)
    let type ← (absoluteElement ⟨t.little, List.replicate t.size 0⟩).map (·.type)
    return Value.ofElements type shape (results.map (·.bytes))
  | _, some (.int n), _ => .ok (.int n.natAbs)
  | _, some (.real x), _ => .ok (.real x.abs)
  | _, Option.none, some (.real re, .real im) => magnitude re im
  | _, _, _ => .error (noMagnitude v)

/-- A whole number in a base, behind the mark for the base. -/
def inBase (base : Nat) (mark : Text) (v : Value) : Except Fault Value := do
  let n ← v.toIndex
  let sign : Text := if n < 0 then "-" else ""
  return .text (sign ++ "0" ++ mark ++ Text.ofChars (Nat.toDigits base n.natAbs))

/-- The character with a number. -/
def character (v : Value) : Except Fault Value := do
  let n ← v.toIndex
  if n < -0x80000000 ∨ 0x80000000 ≤ n then
    throw (.plain .overflow "Python int too large to convert to C int")
  if n < 0 ∨ 0x110000 ≤ n then throw (.plain .value "chr() arg not in range(0x110000)")
  return .text ⟨[CodePoint.ofNat n.toNat]⟩

/-- The rest of a division of finite doubles toward zero, which is exact and has the sign of the
first. -/
def restOf (x y : Float) : Float :=
  match Real.parts x, Real.parts y with
  | .finite negative m d, .finite _ n e =>
    let (a, b) := Real.fraction m d
    let (p, q) := Real.fraction n e
    if p = 0 then Real.nan else Real.nearest negative (a * q % (p * b)) (b * q)
  | .finite _ _ _, .infinite _ => x
  | _, _ => Real.nan

def isNegative (x : Float) : Bool := x.toBits ≥ 0x8000000000000000

/-- A zero with the sign of a double. -/
def zeroLike (x : Float) : Float := if isNegative x then -0.0 else 0.0

/-- Quotient and rest of doubles; the rest has the sign of the divisor. -/
def divideReals (x y : Float) : Float × Float :=
  let rest := restOf x y
  let quotient := (x - rest) / y
  let (quotient, rest) :=
    if rest == 0.0 then (quotient, zeroLike y)
    else if (y < 0.0) != (rest < 0.0) then (quotient - 1.0, rest + y)
    else (quotient, rest)
  if quotient == 0.0 then (zeroLike (x / y), rest)
  else
    let floor := quotient.floor
    (if quotient - floor > 0.5 then floor + 1.0 else floor, rest)

/-- Quotient and rest, the quotient rounded down. -/
def divide (v w : Value) : Except Fault Value :=
  match v.number?, w.number? with
  | some (.int a), some (.int b) =>
    if b = 0 then .error (divisionByZero "integer division or modulo by zero")
    else .ok (.tuple [.int (a.fdiv b), .int (a.fmod b)])
  | some a, some b =>
    match a.toFloat?, b.toFloat? with
    | some x, some y =>
      if y == 0.0 then .error (divisionByZero "float divmod()")
      else
        let (quotient, rest) := divideReals x y
        .ok (.tuple [.real quotient, .real rest])
    | _, _ => .error .overflowingInt
  | _, _ => .error (.unsupportedOperands "divmod()" v w)

/-- The most binary digits that a power can have. -/
def powerLimit : Nat := 0x1000000

/-- A negative double to the power of a fraction, which is complex. -/
def raiseNegative (x y : Float) : Value :=
  let length := Float.pow x.abs y
  let phase := Float.atan2 0.0 x * y
  .complex (length * phase.cos) (length * phase.sin)

/-- A double to the power of another one. -/
def raiseReal (x y : Float) : Except Fault Value :=
  if x == 0.0 && y < 0.0 then
    .error (divisionByZero "0.0 cannot be raised to a negative power")
  else if x < 0.0 && Real.isFinite x && Real.isFinite y && y.floor != y then
    .ok (raiseNegative x y)
  else
    let z := Float.pow x y
    if Real.isFinite x && Real.isFinite y && !Real.isFinite z && !Real.isNaN z then
      .error (.plain .overflow "(34, 'Numerical result out of range')")
    else .ok (.real z)

/-- A number to the power of another one. -/
def raise (v w : Value) : Except Fault Value :=
  match v.number?, w.number? with
  | some (.int a), some (.int b) =>
    if 0 ≤ b then
      if 2 ≤ a.natAbs ∧ powerLimit < (a.natAbs.log2 + 1) * b.toNat then
        .error (.plain (.other "MemoryError") "")
      else if a.natAbs < 2 then
        .ok (.int (if b = 0 ∨ a = 1 then 1 else if a = 0 then 0 else if b % 2 = 0 then 1 else -1))
      else .ok (.int (Int.pow a b.toNat))
    else
      match (Number.int a).toFloat?, (Number.int b).toFloat? with
      | some x, some y => raiseReal x y
      | _, _ => .error .overflowingInt
  | some a, some b =>
    match a.toFloat?, b.toFloat? with
    | some x, some y => raiseReal x y
    | _, _ => .error .overflowingInt
  | _, _ => .error (.unsupportedOperands "** or pow()" v w)

/-- A whole number rounded to a multiple of a power of ten, a half going to the even multiple. -/
def roundTens (n : Int) (places : Nat) : Int :=
  let unit := Nat.pow 10 places
  let size : Int := (Real.roundEven n.natAbs unit * unit : Nat)
  if n < 0 then -size else size

/-- A double rounded to decimal places, those in front of the point counting as negative. -/
def roundPlaces (x : Float) (places : Int) : Except Fault Value :=
  match Real.parts x with
  | .finite negative m e =>
    if 323 < places then .ok (.real x)
    else if places < -308 then .ok (.real (zeroLike x))
    else
      let (num, den) := Real.fraction m e
      let (num, den) := Real.scaled num den places
      let y := Real.ofDecimal negative (Real.roundEven num den) (-places)
      if Real.isFinite y then .ok (.real y)
      else .error (.plain .overflow "rounded value too large to represent")
  | _ => .ok (.real x)

/-- The whole number closest to a double, a half going to the even one. -/
def roundWhole (x : Float) : Except Fault Value :=
  match Real.parts x with
  | .finite negative m e =>
    let (num, den) := Real.fraction m e
    let n : Int := Real.roundEven num den
    .ok (.int (if negative then -n else n))
  | _ => (Value.wholePart x).map .int

/-- A number rounded to whole, or to so many places when they are given. -/
def roundTo (v : Value) (places : Value) : Except Fault Value := do
  match v.number?, places with
  | some (.int n), .none => return .int n
  | some (.real x), .none => roundWhole x
  | some (.int n), p =>
    let p ← p.toIndex
    return .int (if p < 0 then (if p < -0x10000 then 0 else roundTens n (-p).toNat) else n)
  | some (.real x), p => do roundPlaces x (← p.toIndex)
  | none, _ =>
    throw (.typeError ("type " ++ v.longTypeName ++ " doesn't define __round__ method"))

/-- The fault of making a complex number from a value that is no number. -/
def noPart (ordinal expected : Text) (v : Value) : Fault :=
  .typeError ("complex() " ++ ordinal ++ " argument must be " ++ expected ++ ", not '" ++
    v.longTypeName ++ "'")

/-- The parts of a number as doubles. -/
def partsOf (z : Number × Number) : Except Fault (Float × Float) :=
  match z.1.toFloat?, z.2.toFloat? with
  | some re, some im => .ok (re, im)
  | _, _ => .error .overflowingInt

/-- The complex number that a value converts to. -/
def toComplex (v : Value) : Except Fault Value :=
  match v.text?, v.complex? with
  | some t, _ =>
    match t.realBody, t.toComplex? with
    | _, some (re, im) => .ok (.complex re im)
    | some _, none => .error (.plain .value "complex() arg is a malformed string")
    | none, none => do
      throw (.plain .value ("could not convert string to complex: " ++ (← v.shownOrFault)))
  | none, some z => do
    let (re, im) ← partsOf z
    return .complex re im
  | none, none => .error (noPart "first" "a string or a number" v)

/-- The complex number of a first value and of a second one times the imaginary unit. -/
def joinParts (v w : Value) : Except Fault Value := do
  if v.isText then throw (.typeError "complex() can't take second arg if first is a string")
  if w.isText then throw (.typeError "complex() second arg can't be a string")
  match v.complex?, w.complex? with
  | none, _ => throw (noPart "first" "a string or a number" v)
  | _, none => throw (noPart "second" "a number" w)
  | some z, some u =>
    let (a, b) ← partsOf z
    let (c, d) ← partsOf u
    let re := if u.2 matches .real _ then a - d else a
    let im := if z.2 matches .real _ then c + b else c
    return .complex re im

end MorphEngine.Builtin
