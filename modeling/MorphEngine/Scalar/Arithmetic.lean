import MorphEngine.ElementType
import MorphEngine.Real.Rounding

/-!
Arithmetic on the numbers that array elements are. Two element types join in the smallest type that
holds the numbers of both, whole numbers of eight bytes going to doubles when they meet floats.
Whole numbers wrap around at the ends of their type, floats are rounded to their precision once for
each operation, and truth values are joined as such.
-/

namespace MorphEngine

namespace ElementType

/-- The size of floats that hold the whole numbers of a size, or come as close as doubles do. -/
def floatSizeFor (n : Nat) : Nat := if n ≤ 1 then 2 else if n = 2 then 4 else 8

/-- The size of floats for the numbers of a type. -/
def floatSize? : ElementType → Option Nat
  | .flag => some 2
  | .signed n _ | .unsigned n _ => some (floatSizeFor n)
  | .floating n _ => some n
  | .complex n _ => some (n / 2)
  | _ => none

def isComplex : ElementType → Bool
  | .complex _ _ => true
  | _ => false

/-- Whether elements of the type are whole numbers or truth values. -/
def isWhole : ElementType → Bool
  | .flag | .signed _ _ | .unsigned _ _ => true
  | _ => false

/-- The complex type with parts of a size, which is that of a single float at least. -/
def complexOf (part : Nat) : ElementType := .complex (2 * max part 4) false

/-- The type for the numbers of two types; nothing when one of them holds no numbers. -/
def join? (t u : ElementType) : Option ElementType := do
  let n := max (← t.floatSize?) (← u.floatSize?)
  return match t.little, u.little with
    | .flag, u => u
    | t, .flag => t
    | .signed n _, .signed m _ => .signed (max n m) false
    | .unsigned n _, .unsigned m _ => .unsigned (max n m) false
    | .signed n _, .unsigned m _ | .unsigned m _, .signed n _ =>
      if m < n then .signed n false
      else if m = 8 then .floating 8 false
      else .signed (2 * m) false
    | t, u => if t.isComplex || u.isComplex then complexOf n else .floating n false

end ElementType

/-- A number exactly. -/
inductive Amount where
  | whole (n : Int)
  | real (x : Real.Parts)
  | complex (re im : Real.Parts)

namespace Amount

def realPart : Amount → Real.Parts
  | .whole n => .ofInt n
  | .real x | .complex x _ => x

def imaginaryPart : Amount → Real.Parts
  | .complex _ y => y
  | _ => .zero

def isNaN (a : Amount) : Bool := a.realPart = .nan || a.imaginaryPart = .nan

/-- The number as elements of a type hold it. Whole numbers go to small floats through doubles. -/
def fit (t : ElementType) (a : Amount) : Amount :=
  match t with
  | .floating n _ =>
    let x :=
      match a with
      | .whole _ => Real.Precision.double.round a.realPart
      | a => a.realPart
    .real ((Real.Precision.ofSize n).round x)
  | .complex n _ =>
    let p := Real.Precision.ofSize (n / 2)
    .complex (p.round a.realPart) (p.round a.imaginaryPart)
  | _ => a

/-- How two numbers compare; nothing when they are not ordered. Complex numbers go by their real
parts first. -/
def order? : Amount → Amount → Option Ordering
  | .whole m, .whole n => some (compare m n)
  | a, b => do
    let first ← a.realPart.order? b.realPart
    return first.then (← a.imaginaryPart.order? b.imaginaryPart)

end Amount

inductive Operator where
  | plus
  | minus
  | times
deriving DecidableEq

namespace Operator

def symbol : Operator → Text
  | plus => "+"
  | minus => "-"
  | times => "*"

def onWhole : Operator → Int → Int → Int
  | plus => (· + ·)
  | minus => (· - ·)
  | times => (· * ·)

def onParts : Operator → Real.Parts → Real.Parts → Real.Parts
  | plus => .add
  | minus => .subtract
  | times => .multiply

/-- The result on complex numbers with parts of a precision, every step rounded. -/
def onComplex (op : Operator) (p : Real.Precision) (a b : Amount) : Amount :=
  let step (op : Operator) (x y : Real.Parts) := p.round (op.onParts x y)
  let (a, b, c, d) := (a.realPart, a.imaginaryPart, b.realPart, b.imaginaryPart)
  match op with
  | times => .complex (step minus (step times a c) (step times b d))
      (step plus (step times a d) (step times b c))
  | op => .complex (step op a c) (step op b d)

/-- The result in a type, for numbers that fit it. -/
def apply (op : Operator) (t : ElementType) (a b : Amount) : Amount :=
  match t, a, b with
  | .complex n _, a, b => op.onComplex (.ofSize (n / 2)) a b
  | .floating n _, a, b =>
    .real ((Real.Precision.ofSize n).round (op.onParts a.realPart b.realPart))
  | _, .whole m, .whole n => .whole (op.onWhole m n)
  | _, a, _ => a

end Operator

namespace Scalar

/-- The first `size` digits of a number to the base 256, least significant first. -/
def ofNat : Nat → Nat → List UInt8
  | 0, _ => []
  | size + 1, n => UInt8.ofNat n :: ofNat size (n / 256)

/-- A whole number in so many bytes; what does not fit wraps around. -/
def ofInt (size : Nat) (n : Int) : List UInt8 :=
  ofNat size (n % (Nat.pow 256 size : Nat)).toNat

/-- A float in so many bytes; the extended format keeps the first digit of its mantissa. -/
def ofParts (size : Nat) (nanSign : Bool) (x : Real.Parts) : List UInt8 :=
  let p := Real.Precision.ofSize size
  let (negative, field, mantissa) := p.fields nanSign x
  if size = 16 then
    ofNat 8 mantissa ++ ofNat 2 (field + if negative then 0x8000 else 0) ++ List.replicate 6 0
  else
    let sign := if negative then Nat.pow 256 size / 2 else 0
    ofNat size (sign + field * p.leastNormal + mantissa % p.leastNormal)

/-- The bytes of a number that fits a type. -/
def bytesOf (t : ElementType) (nanSign : Bool) (a : Amount) : List UInt8 :=
  match t, a with
  | .flag, .whole n => [if n = 0 then 0 else 1]
  | .signed size _, .whole n | .unsigned size _, .whole n => ofInt size n
  | .floating size _, a => ofParts size nanSign a.realPart
  | .complex size _, a =>
    ofParts (size / 2) nanSign a.realPart ++ ofParts (size / 2) nanSign a.imaginaryPart
  | t, _ => List.replicate t.size 0

/-- The number that a scalar with its least significant byte first holds. -/
def amount? (s : Scalar) : Option Amount :=
  match s.type with
  | .flag => some (.whole (if s.bytes = [0] then 0 else 1))
  | .signed _ _ => some (.whole (toInt s.bytes))
  | .unsigned _ _ => some (.whole (toNat s.bytes))
  | .floating _ _ => (parts? s.bytes).map .real
  | .complex n _ => do
    return .complex (← parts? (s.bytes.take (n / 2))) (← parts? (s.bytes.drop (n / 2)))
  | _ => none

/-- The result of an operation on two numbers in a type. What is not a number has a sign only when
neither of the two is that already. -/
def combined (op : Operator) (t : ElementType) (a b : Amount) : List UInt8 :=
  bytesOf t (!a.isNaN && !b.isNaN) (op.apply t (a.fit t) (b.fit t))

end Scalar

end MorphEngine
