import MorphEngine.Real.Shortest

/-!
Arithmetic on binary numbers of any precision. Sums and products of numbers taken apart are exact;
rounding takes the closest number of a precision, a tie to the even one, and what lies too far out
to an infinity. A sum of zero has a sign only when both terms have it.
-/

namespace MorphEngine.Real

namespace Parts

def zero : Parts := .finite false 0 0

def ofInt (n : Int) : Parts := .finite (n < 0) n.natAbs 0

def negate : Parts → Parts
  | .nan => .nan
  | .infinite s => .infinite !s
  | .finite s m e => .finite (!s) m e

def magnitude : Parts → Parts
  | .nan => .nan
  | .infinite _ => .infinite false
  | .finite _ m e => .finite false m e

/-- A finite number counted in a power of two that is no greater than its own. -/
def counted (negative : Bool) (m : Nat) (e low : Int) : Int :=
  let n : Int := (m * Nat.pow 2 (e - low).toNat : Nat)
  if negative then -n else n

def add : Parts → Parts → Parts
  | .finite s m e, .finite t n f =>
    let low := min e f
    let sum := counted s m e low + counted t n f low
    .finite (if sum = 0 then s && t else sum < 0) sum.natAbs low
  | .infinite s, .infinite t => if s = t then .infinite s else .nan
  | .infinite s, .finite _ _ _ | .finite _ _ _, .infinite s => .infinite s
  | .nan, _ | _, .nan => .nan

def subtract (x y : Parts) : Parts := add x y.negate

def multiply : Parts → Parts → Parts
  | .finite s m e, .finite t n f => .finite (s != t) (m * n) (e + f)
  | .infinite s, .infinite t => .infinite (s != t)
  | .infinite s, .finite t n _ | .finite t n _, .infinite s =>
    if n = 0 then .nan else .infinite (s != t)
  | .nan, _ | _, .nan => .nan

/-- How two numbers compare; nothing when either is not-a-number. -/
def order? : Parts → Parts → Option Ordering
  | .finite s m e, .finite t n f =>
    let low := min e f
    some (compare (counted s m e low) (counted t n f low))
  | .infinite s, .infinite t => some (if s = t then .eq else if s then .lt else .gt)
  | .infinite s, .finite _ _ _ => some (if s then .lt else .gt)
  | .finite _ _ _, .infinite s => some (if s then .gt else .lt)
  | .nan, _ | _, .nan => none

end Parts

namespace Precision

/-- The number of the precision that is closest. A mantissa that rounds up to twice the least normal
one goes to the next exponent. -/
def round (p : Precision) : Parts → Parts
  | .finite s m e =>
    if m = 0 then .finite s 0 p.leastExponent
    else
      let exponent := max (m.log2 + e - p.leastNormal.log2) p.leastExponent
      let mantissa :=
        if exponent ≤ e then m * Nat.pow 2 (e - exponent).toNat
        else roundEven m (Nat.pow 2 (exponent - e).toNat)
      let (mantissa, exponent) :=
        if mantissa = 2 * p.leastNormal then (p.leastNormal, exponent + 1)
        else (mantissa, exponent)
      if p.greatestExponent < exponent then .infinite s else .finite s mantissa exponent
  | x => x

/-- The exponent field of a number of the precision, zero for those below the normal ones. -/
def field (p : Precision) (mantissa : Nat) (exponent : Int) : Nat :=
  if mantissa < p.leastNormal then 0 else (exponent - p.leastExponent + 1).toNat

/-- The exponent field of what is not finite. -/
def lastField (p : Precision) : Nat := (p.greatestExponent - p.leastExponent + 2).toNat

/-- The sign, the exponent field and the mantissa of a number of the precision. What is not a number
has the sign that is given. -/
def fields (p : Precision) (nanSign : Bool) : Parts → Bool × Nat × Nat
  | .nan => (nanSign, p.lastField, p.leastNormal + p.leastNormal / 2)
  | .infinite s => (s, p.lastField, p.leastNormal)
  | .finite s m e => (s, p.field m e, m)

end Precision

end MorphEngine.Real
