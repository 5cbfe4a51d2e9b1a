import MorphEngine.Real.Hexadecimal
import MorphEngine.Real.Shortest

/-!
Binary numbers as decimal text. A style says how many digits are written and whether a power of ten
takes the place of zeros; digits that are left out are rounded away exactly, a half going to the
even digit. What stands in front of the point is kept apart from the rest, so that it can be
grouped.
-/

namespace MorphEngine.Real

/-- Decimal digits without zeros at the end, and how many of them stand in front of the point. -/
structure Digits where
  digits : List Char
  point : Int
deriving DecidableEq

def dropZeros (ds : List Char) : List Char := (ds.reverse.dropWhile (· = '0')).reverse

/-- The digits followed by zeros up to a number of places. -/
def fillZeros (places : Nat) (ds : List Char) : List Char :=
  ds ++ List.replicate (places - ds.length) '0'

namespace Digits

def zero : Digits := ⟨[], 1⟩

def ofDecimal (d : Decimal) : Digits :=
  let all := Nat.toDigits 10 d.digits
  ⟨dropZeros all, all.length + d.exponent⟩

/-- The digits of a fraction, rounded to a number of places after the point. -/
def rounded (value : Nat × Nat) (places : Int) : Digits :=
  let (num, den) := scaled value.1 value.2 places
  ofDecimal ⟨roundEven num den, -places⟩

/-- The first digits of a positive fraction, so many of them. -/
def leading (value : Nat × Nat) (count : Nat) : Digits :=
  rounded value (count - decimalPoint value)

/-- What stands in front of the point. -/
def whole (d : Digits) : List Char :=
  if d.point ≤ 0 then ['0'] else fillZeros d.point.toNat (d.digits.take d.point.toNat)

/-- What stands behind the point, with zeros up to a number of places. -/
def fraction (places : Nat) (d : Digits) : List Char :=
  fillZeros places (List.replicate (-d.point).toNat '0' ++ d.digits.drop d.point.toNat)

end Digits

/-- How much of a number is written. -/
inductive Extent where
  /-- The fewest digits that read back. -/
  | shortest
  /-- A number of places behind the point, and never a power of ten. -/
  | fixed (places : Nat)
  /-- A digit in front of the point and some places behind it, and always a power of ten. -/
  | scientific (places : Nat)
  /-- A number of digits, and a power of ten when the point does not lie among them. -/
  | general (count : Nat)
deriving DecidableEq

structure Style where
  extent : Extent
  /-- Whether a number without a power of ten has a place behind the point at least. -/
  keepsPlace : Bool
  /-- Whether a point and zeros stay that change nothing. -/
  keepsAll : Bool
deriving DecidableEq

/-- A number in writing: its sign, what stands in front of the point, and all that follows. -/
structure Written where
  negative : Bool
  whole : List Char
  rest : List Char

namespace Written

def chars (w : Written) : List Char := signText w.negative ++ w.whole ++ w.rest

/-- Whether the written digits are those of zero, which a number close to it can have too. -/
def isZero (w : Written) : Bool :=
  !w.whole.isEmpty && (w.whole ++ w.rest).all fun c => !c.isDigit || c == '0'

end Written

/-- The digits that an extent asks for, of `mantissa * 2 ^ exponent`. -/
def Extent.digits (x : Extent) (p : Precision) (mantissa : Nat) (exponent : Int) : Digits :=
  if mantissa = 0 then .zero
  else
    let value := Real.fraction mantissa exponent
    match x with
    | .shortest =>
      let (m, e) := p.fit mantissa exponent
      .ofDecimal (Real.shortest p m e)
    | .fixed places => .rounded value places
    | .scientific places => .leading value (places + 1)
    | .general count => .leading value count

namespace Style

/-- Every digit that is needed, and a place behind the point. -/
def usual : Style := ⟨.shortest, true, false⟩

/-- Whether a number is written with a power of ten, given where its point is. -/
def isExponential (s : Style) (p : Precision) (point : Int) : Bool :=
  match s.extent with
  | .shortest => point ≤ -4 || p.wholePlaces < point
  | .fixed _ => false
  | .scientific _ => true
  | .general count => point ≤ -4 || count < point + if s.keepsPlace then 1 else 0

/-- The least number of places behind a point. -/
def leastPlaces (s : Style) (exponential : Bool) (point : Int) : Nat :=
  let places : Nat :=
    match s.extent with
    | .shortest => 0
    | .fixed places | .scientific places => places
    | .general count => if s.keepsAll then (count - point).toNat else 0
  if s.keepsPlace && !exponential then max places 1 else places

/-- A power of ten behind the digits, with two digits at least. -/
def powerText (e : Int) : List Char :=
  let places := Nat.toDigits 10 e.natAbs
  'e' :: (if e < 0 then '-' else '+') :: (List.replicate (2 - places.length) '0' ++ places)

def write (s : Style) (p : Precision) : Parts → Written
  | .nan => ⟨false, [], "nan".toList⟩
  | .infinite negative => ⟨negative, [], "inf".toList⟩
  | .finite negative mantissa exponent =>
    let d := s.extent.digits p mantissa exponent
    let exponential := s.isExponential p d.point
    let shifted : Digits := if exponential then { d with point := 1 } else d
    let fraction := shifted.fraction (s.leastPlaces exponential shifted.point)
    ⟨negative, shifted.whole,
      (if fraction.isEmpty && !s.keepsAll then [] else '.' :: fraction) ++
        if exponential then powerText (d.point - 1) else []⟩

end Style

def decimalChars (p : Precision) (keepsPlace : Bool) (x : Parts) : List Char :=
  (Style.write ⟨.shortest, keepsPlace, false⟩ p x).chars

def decimalText (x : Float) : Text := Text.ofChars (decimalChars .double true (parts x))

/-- Whether a number is zero without a sign. -/
def Parts.isPlainZero : Parts → Bool
  | .finite false 0 _ => true
  | _ => false

/-- A complex number as `a+bj`, or `bj` when the real part is plain zero. -/
def complexChars (p : Precision) (re im : Parts) : List Char :=
  let imaginary := decimalChars p false im
  if re.isPlainZero then imaginary ++ ['j']
  else
    let signed := if imaginary.head? = some '-' then imaginary else '+' :: imaginary
    decimalChars p false re ++ signed ++ ['j']

/-- A complex number as running text: a sum stands in parentheses. -/
def complexText (p : Precision) (re im : Parts) : Text :=
  let cs := complexChars p re im
  Text.ofChars (if re.isPlainZero then cs else '(' :: cs ++ [')'])

end MorphEngine.Real
