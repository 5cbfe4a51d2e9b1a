/-!
Doubles as exact numbers: every finite double is a whole number times a power of two, and `nearest`
rounds a fraction to the closest double, a tie to the even one and what lies too far out to an
infinity. All conversions from and to decimal, hexadecimal and whole numbers go through these two.
-/

namespace MorphEngine.Real

/-- A double taken apart: a finite one is `± mantissa * 2 ^ exponent`. -/
inductive Parts where
  | nan
  | infinite (negative : Bool)
  | finite (negative : Bool) (mantissa : Nat) (exponent : Int)
deriving DecidableEq

/-- The least mantissa of a normal double: the 52nd power of two. -/
def leastNormal : Nat := 0x10000000000000

def parts (x : Float) : Parts :=
  let bits := x.toBits.toNat
  let negative := decide (0x8000000000000000 ≤ bits)
  let exponent : Nat := bits / leastNormal % 2048
  let fraction : Nat := bits % leastNormal
  if exponent = 2047 then
    if fraction = 0 then .infinite negative else .nan
  else if exponent = 0 then .finite negative fraction (-1074)
  else .finite negative (leastNormal + fraction) ((exponent : Int) - 1075)

def isNaN (x : Float) : Bool := parts x == .nan

def isFinite (x : Float) : Bool :=
  match parts x with
  | .finite .. => true
  | _ => false

def ofBits (negative : Bool) (magnitude : Nat) : Float :=
  Float.ofBits (UInt64.ofNat (magnitude + if negative then 0x8000000000000000 else 0))

def nan : Float := Float.ofBits 0x7ff8000000000000

def infinity (negative : Bool) : Float := ofBits negative 0x7ff0000000000000

/-- The greatest `k` with `2 ^ k ≤ num / den`. -/
def logTwo (num den : Nat) : Int :=
  let k : Int := num.log2 - den.log2
  let reached :=
    if 0 ≤ k then decide (den * Nat.pow 2 k.toNat ≤ num)
    else decide (den ≤ num * Nat.pow 2 (-k).toNat)
  if reached then k else k - 1

/-- The whole number closest to `num / den`, a half going to the even neighbour. -/
def roundEven (num den : Nat) : Nat :=
  let q := num / den
  let r := num % den
  if 2 * r < den then q
  else if den < 2 * r then q + 1
  else q + q % 2

/-- The double closest to `± num / den`. A mantissa that rounds up to the next power of two carries
into the exponent, because the two fields are added as one number. -/
def nearest (negative : Bool) (num den : Nat) : Float :=
  if num = 0 ∨ den = 0 then ofBits negative 0
  else
    let exponent := max (logTwo num den - 52) (-1074)
    if 971 < exponent then infinity negative
    else
      let mantissa :=
        if 0 ≤ exponent then roundEven num (den * Nat.pow 2 exponent.toNat)
        else roundEven (num * Nat.pow 2 (-exponent).toNat) den
      if mantissa < leastNormal then ofBits negative mantissa
      else ofBits negative ((exponent + 1075).toNat * leastNormal + (mantissa - leastNormal))

/-- The double closest to a whole number; an infinity when there is none. -/
def ofInt (n : Int) : Float := nearest (n < 0) n.natAbs 1

/-- The double closest to `± digits * 10 ^ exponent`. Exponents beyond the range of doubles are
answered without computing the power. -/
def ofDecimal (negative : Bool) (digits : Nat) (exponent : Int) : Float :=
  if digits = 0 then ofBits negative 0
  else
    let places : Int := (digits.log2 : Int) / 3 + 1
    if 400 < exponent then infinity negative
    else if places + exponent < -400 then ofBits negative 0
    else if 0 ≤ exponent then nearest negative (digits * Nat.pow 10 exponent.toNat) 1
    else nearest negative digits (Nat.pow 10 (-exponent).toNat)

/-- The double closest to a number taken apart. -/
def ofParts : Parts → Float
  | .nan => nan
  | .infinite negative => infinity negative
  | .finite negative m e =>
    if 0 ≤ e then nearest negative (m * Nat.pow 2 e.toNat) 1
    else nearest negative m (Nat.pow 2 (-e).toNat)

/-- Whether a double has no fraction and which whole number it is. -/
def wholeNumber? (x : Float) : Option Int :=
  match parts x with
  | .finite negative m e =>
    let sign : Int := if negative then -1 else 1
    if 0 ≤ e then some (sign * (m * Nat.pow 2 e.toNat : Nat))
    else if m % Nat.pow 2 (-e).toNat = 0 then some (sign * (m / Nat.pow 2 (-e).toNat : Nat))
    else none
  | _ => none

/-- The whole number next to a finite double on the side of zero. -/
def truncate? (x : Float) : Option Int :=
  match parts x with
  | .finite negative m e =>
    let sign : Int := if negative then -1 else 1
    some (sign * (if 0 ≤ e then m * Nat.pow 2 e.toNat else m / Nat.pow 2 (-e).toNat : Nat))
  | _ => none

end MorphEngine.Real
