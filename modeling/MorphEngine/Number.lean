import MorphEngine.Text.Numeral
import MorphEngine.Real.Written

/-!
Real numbers as a program writes them: whole numbers of any size, exact, and doubles. Comparisons
are exact across the two. Arithmetic stays exact until a double takes part; then a whole number
beyond the range of doubles cannot be used.
-/

namespace MorphEngine

inductive Number where
  | int (n : Int)
  | real (x : Float)

namespace Number

/-- The exact value of a number, where it has one: a fraction with a positive denominator, or an
infinity. -/
inductive Exact where
  | fraction (num : Int) (den : Nat)
  | infinite (negative : Bool)

def toExact? : Number → Option Exact
  | .int n => some (.fraction n 1)
  | .real x =>
    match Real.parts x with
    | .nan => none
    | .infinite negative => some (.infinite negative)
    | .finite negative m e =>
      let (num, den) := Real.fraction m e
      some (.fraction (if negative then -(num : Int) else num) den)

def Exact.order : Exact → Exact → Ordering
  | .fraction a b, .fraction c d => compare (a * d) (c * b)
  | .fraction _ _, .infinite negative => if negative then .gt else .lt
  | .infinite negative, .fraction _ _ => if negative then .lt else .gt
  | .infinite a, .infinite b => if a = b then .eq else if a then .lt else .gt

/-- How two numbers compare; nothing when either is not-a-number. -/
def order? (a b : Number) : Option Ordering := do
  return (← a.toExact?).order (← b.toExact?)

def lt (a b : Number) : Bool := order? a b == some .lt

def le (a b : Number) : Bool := lt a b || order? a b == some .eq

def eq (a b : Number) : Bool := order? a b == some .eq

def zero : Number := .int 0

def isZero (a : Number) : Bool := eq a zero

/-- The double closest to the number, unless a whole number lies beyond all doubles. -/
def toFloat? : Number → Option Float
  | .int n =>
    let x := Real.ofInt n
    if Real.isFinite x then some x else none
  | .real x => some x

def lift? (f : Int → Int → Int) (g : Float → Float → Float) : Number → Number → Option Number
  | .int a, .int b => some (.int (f a b))
  | a, b => do return .real (g (← a.toFloat?) (← b.toFloat?))

def add? : Number → Number → Option Number := lift? (· + ·) (· + ·)

def sub? : Number → Number → Option Number := lift? (· - ·) (· - ·)

def mul? : Number → Number → Option Number := lift? (· * ·) (· * ·)

/-- The first of the smallest numbers. -/
def least : Number → List Number → Number
  | n, [] => n
  | n, m :: rest => least (if m.lt n then m else n) rest

/-- Whether a whole number has too many digits to be written. -/
def isUnwritable (n : Int) : Bool := Nat.pow 10 Text.digitLimit ≤ n.natAbs

/-- The quotient of two counts as a double. -/
def ratio (a b : Nat) : Float := Real.nearest false a b

end Number

end MorphEngine
