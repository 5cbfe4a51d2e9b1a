import MorphEngine.Real.Binary

/-!
The shortest decimal of a binary number: the fewest digits that read back as the same number at its
precision, and of those the closest. Numbers of several precisions are covered: two, four and eight
bytes, and the extended one of ten.
-/

namespace MorphEngine.Real

/-- A binary format: the least mantissa of a normal number, and the least and greatest exponents;
also how many digits may stand in front of the point when numbers of the format are written in full.
-/
structure Precision where
  leastNormal : Nat
  leastExponent : Int
  greatestExponent : Int
  wholePlaces : Int

namespace Precision

def double : Precision := ⟨Real.leastNormal, -1074, 971, 16⟩

def single : Precision := ⟨0x800000, -149, 104, 6⟩

def half : Precision := ⟨0x400, -24, 5, 3⟩

def extended : Precision := ⟨0x8000000000000000, -16445, 16320, 16⟩

/-- The precision of a float of so many bytes. -/
def ofSize (size : Nat) : Precision :=
  if size = 2 then half else if size = 4 then single else if size = 8 then double else extended

/-- A number that has the precision, as `mantissa * 2 ^ exponent` of its format. -/
def fit (p : Precision) (mantissa : Nat) (exponent : Int) : Nat × Int :=
  let excess : Int := mantissa.log2 - p.leastNormal.log2
  let places := (max excess (p.leastExponent - exponent)).toNat
  (mantissa / Nat.pow 2 places, exponent + places)

end Precision

/-- The decimal `digits * 10 ^ exponent`. -/
structure Decimal where
  digits : Nat
  exponent : Int
deriving DecidableEq

/-- `num / den` times ten to a power, as a fraction. -/
def scaled (num den : Nat) (e : Int) : Nat × Nat :=
  if 0 ≤ e then (num * Nat.pow 10 e.toNat, den) else (num, den * Nat.pow 10 (-e).toNat)

/-- `m` times two to a power, as a fraction. -/
def fraction (m : Nat) (e : Int) : Nat × Nat :=
  if 0 ≤ e then (m * Nat.pow 2 e.toNat, 1) else (m, Nat.pow 2 (-e).toNat)

/-- The least of `k`, `k + 1`, … with `value < 10 ^ k`, tried at most `fuel` times. -/
def tensAbove (value : Nat × Nat) : Nat → Int → Int
  | 0, k => k
  | fuel + 1, k =>
    let (num, den) := scaled value.1 value.2 (-k)
    if num < den then k else tensAbove value fuel (k + 1)

/-- The numbers that read back as one double; the ends belong to it when `closed`. -/
structure Interval where
  low : Nat × Nat
  high : Nat × Nat
  closed : Bool

def Interval.holds (i : Interval) (p : Nat × Nat) : Bool :=
  let order (x y : Nat × Nat) : Bool :=
    if i.closed then x.1 * y.2 ≤ y.1 * x.2 else x.1 * y.2 < y.1 * x.2
  order i.low p && order p i.high

/-- The neighbour of `value` among the multiples of `10 ^ exponent` that lies in the interval; of
two the closer one, and on a tie the even one. -/
def onGrid (value : Nat × Nat) (i : Interval) (exponent : Int) : Option Decimal :=
  let (num, den) := scaled value.1 value.2 (-exponent)
  let down := num / den
  let up := down + 1
  let inside (d : Nat) : Bool := i.holds (scaled d 1 exponent)
  match 0 < down && inside down, inside up with
  | true, true =>
    let twice := 2 * (num % den)
    some ⟨if twice < den then down else if den < twice then up else down + down % 2, exponent⟩
  | true, false => some ⟨down, exponent⟩
  | false, true => some ⟨up, exponent⟩
  | false, false => none

/-- The first decimal found when the grid below `10 ^ point` is refined one place at a time. -/
def refine (value : Nat × Nat) (i : Interval) : Nat → Int → Option Decimal
  | 0, _ => none
  | fuel + 1, exponent =>
    match onGrid value i exponent with
    | some d => some d
    | none => refine value i fuel (exponent - 1)

/-- The least `k` with `value < 10 ^ k`, for a positive value. -/
def decimalPoint (value : Nat × Nat) : Int :=
  tensAbove value 5 (logTwo value.1 value.2 * 30103 / 100000 - 1)

/-- The shortest decimal of `mantissa * 2 ^ exponent`, for a positive mantissa. Below a power of two
the neighbouring number is twice as close. -/
def shortest (p : Precision) (mantissa : Nat) (exponent : Int) : Decimal :=
  let value := fraction mantissa exponent
  let low :=
    if mantissa = p.leastNormal ∧ p.leastExponent < exponent then
      fraction (4 * mantissa - 1) (exponent - 2)
    else fraction (2 * mantissa - 1) (exponent - 1)
  let interval : Interval :=
    ⟨low, fraction (2 * mantissa + 1) (exponent - 1), mantissa % 2 = 0⟩
  (refine value interval 22 (decimalPoint value - 1)).getD ⟨0, 0⟩

end MorphEngine.Real
