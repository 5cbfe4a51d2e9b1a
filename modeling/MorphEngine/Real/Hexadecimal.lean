import MorphEngine.Text
import MorphEngine.Real.Binary

/-!
The hexadecimal text of a double: thirteen hexadecimal places of the mantissa and a signed power of
two. Writing loses nothing, signed zeros included; reading also takes fewer places.
-/

namespace MorphEngine.Real

def signText (negative : Bool) : List Char := if negative then ['-'] else []

def exponentText (e : Int) : List Char :=
  (if e < 0 then '-' else '+') :: Nat.toDigits 10 e.natAbs

def hexText (x : Float) : Text :=
  Text.ofChars <|
    match parts x with
    | .nan => "nan".toList
    | .infinite negative => signText negative ++ "inf".toList
    | .finite negative m e =>
      signText negative ++
        if m = 0 then "0x0.0p+0".toList
        else if m < leastNormal then "0x0.".toList ++ Text.hexDigits 13 m ++ "p-1022".toList
        else
          "0x1.".toList ++ Text.hexDigits 13 (m - leastNormal) ++ 'p' :: exponentText (e + 52)

def hexDigit? (c : Char) : Option Nat :=
  if '0' ≤ c ∧ c ≤ '9' then some (c.toNat - '0'.toNat)
  else if 'a' ≤ c ∧ c ≤ 'f' then some (c.toNat - 'a'.toNat + 10)
  else if 'A' ≤ c ∧ c ≤ 'F' then some (c.toNat - 'A'.toNat + 10)
  else none

def readHex (cs : List Char) : Option Nat :=
  cs.foldlM (fun n c => (hexDigit? c).map (16 * n + ·)) 0

def readDecimal (cs : List Char) : Option Nat :=
  cs.foldlM (fun n c => if c.isDigit then some (10 * n + (c.toNat - '0'.toNat)) else none) 0

def readExponent : List Char → Option Int
  | '+' :: cs => (readDecimal cs).map fun (n : Nat) => (n : Int)
  | '-' :: cs => (readDecimal cs).map fun (n : Nat) => -(n : Int)
  | cs => (readDecimal cs).map fun (n : Nat) => (n : Int)

def splitSign : List Char → Bool × List Char
  | '-' :: cs => (true, cs)
  | '+' :: cs => (false, cs)
  | cs => (false, cs)

def ofHexText? (s : List Char) : Option Float := do
  let (negative, s) := splitSign s
  if s = "nan".toList then return nan
  if s = "inf".toList then return infinity negative
  let s := if s.take 2 = "0x".toList then s.drop 2 else s
  let whole := s.takeWhile fun c => c ≠ '.' ∧ c ≠ 'p'
  let rest := s.drop whole.length
  let fraction := if rest.take 1 = ['.'] then (rest.drop 1).takeWhile (· ≠ 'p') else []
  let power := (s.dropWhile (· ≠ 'p')).drop 1
  let digits ← readHex (whole ++ fraction)
  let exponent ← readExponent power
  let shift := exponent - 4 * fraction.length
  return if 0 ≤ shift then nearest negative (digits * Nat.pow 2 shift.toNat) 1
    else nearest negative digits (Nat.pow 2 (-shift).toNat)

end MorphEngine.Real
