import MorphEngine.Value.Equality

/-!
Hashes of numbers and of tuples of them. Numbers that are the same have the same hash: it is the
rest of a division by a prime, where a fraction is divided in the field of that prime. The prime is
one less than a power of two, so that powers of two are taken by the rest of their exponents.
-/

namespace MorphEngine.Hash

/-- The number of binary digits of the prime, all of them one. -/
def primeBits : Nat := 61

def prime : Nat := Nat.pow 2 primeBits - 1

/-- A hash is never minus one, which stands for the lack of a hash. -/
def settled (n : Int) : Int := if n = -1 then -2 else n

/-- A number of sixty-four bits with a sign. -/
def signed (n : Nat) : Int := Int.bmod n 0x10000000000000000

def ofInt (n : Int) : Int :=
  let rest : Int := (n.natAbs % prime : Nat)
  settled (if n < 0 then -rest else rest)

/-- The hash of a double; one that is not a number has none. -/
def ofReal? (x : Float) : Option Int :=
  match Real.parts x with
  | .finite negative m e =>
    let rest : Int := (m * Nat.pow 2 (e % primeBits).toNat % prime : Nat)
    some (settled (if negative then -rest else rest))
  | .infinite negative => some (if negative then -314159 else 314159)
  | _ => none

def ofNumber? : Number → Option Int
  | .int n => some (ofInt n)
  | .real x => ofReal? x

/-- The factor of the imaginary part of a complex number. -/
def imaginaryFactor : Int := 1000003

def ofComplex? (re im : Number) : Option Int := do
  let total := (← ofNumber? re) + imaginaryFactor * (← ofNumber? im)
  return settled (Int.bmod total 0x10000000000000000)

/-- One step of mixing the hash of a member into that of a tuple. -/
def mix (total : UInt64) (h : Int) : UInt64 :=
  let total := total + (Int.emod h 0x10000000000000000).toNat.toUInt64 * 14029467366897019727
  (total <<< 31 ||| total >>> 33) * 11400714785074694791

/-- The hash of a tuple, given those of its members. -/
def ofTuple (hs : List Int) : Int :=
  let total := hs.foldl mix 2870177450012600261
  let total := total + (hs.length.toUInt64 ^^^ (2870177450012600261 ^^^ 3527539))
  if total = 0xFFFFFFFFFFFFFFFF then 1546275796 else signed total.toNat

mutual

/-- The hash of a number or of a tuple; other values have none that is the same every time. -/
def ofValue? : Value → Option Int
  | .tuple xs => (ofAll? xs).map ofTuple
  | .pair a b => do return ofTuple [← ofValue? a, ← ofValue? b]
  | .text t => if t.isEmpty then some 0 else none
  | .bytes bs => if bs.isEmpty then some 0 else none
  | v => v.complex?.bind fun (re, im) => ofComplex? re im

def ofAll? : List Value → Option (List Int)
  | [] => some []
  | x :: xs => do return (← ofValue? x) :: (← ofAll? xs)

end

end MorphEngine.Hash
