import MorphEngine.Real.Rounding
import MorphEngine.Real.Written
import MorphEngine.Text.Grid

/-!
Columns of floats. All floats of a column are written alike, with their points below each other and
with eight places behind the point at most. They take a power of ten when some of them are very
large, very small, or of very different sizes.
-/

namespace MorphEngine.Real

/-- A float in writing: what stands in front of the point with its sign, what stands behind it, and
the power of ten. -/
structure FloatWord where
  whole : Text
  fraction : Text
  power : Int

/-- How the floats of a column are written: whether with a power of ten, and the widths of what
stands in front of the point, behind it, and in the power. -/
structure FloatColumn where
  size : Nat
  plusSign : Bool
  exponential : Bool
  left : Nat
  right : Nat
  powerWidth : Nat

namespace FloatColumn

/-- The greatest number of places behind the point. -/
def places : Nat := 8

/-- The number of decimal places that a float of so many bytes has for certain. -/
def certainPlaces (size : Nat) : Nat :=
  if size = 2 then 3 else if size = 4 then 6 else if size = 8 then 15 else 18

/-- The least magnitude that is written without a power of ten, as near to one in ten thousand as
floats of a size come. -/
def leastPlain (size : Nat) : Parts := (Precision.ofSize size).round (parts 0.0001)

/-- Whether floats with the given magnitudes, none of them zero, take a power of ten. -/
def needsPower (size : Nat) (magnitudes : List Parts) : Bool :=
  let greatest : Parts := .finite false (Nat.pow 10 (min places (certainPlaces size))) 0
  let isBelow (x y : Parts) : Bool := x.order? y == some .lt
  magnitudes.any fun x =>
    !isBelow x greatest || isBelow x (leastPlain size) ||
      magnitudes.any fun y => isBelow (y.multiply (.finite false 1000 0)) x

/-- The sign of a number in writing. -/
def signText (plusSign negative : Bool) : Text :=
  if negative then "-" else if plusSign then "+" else ""

/-- The digits of a number: the fewest that read back, or as many as are asked for. -/
def digits (size : Nat) (exponential : Bool) (m : Nat) (e : Int) : Digits :=
  let p := Precision.ofSize size
  let least := Extent.shortest.digits p m e
  let behind : Int := least.digits.length - if exponential then 1 else least.point
  if m = 0 ∨ behind ≤ places then least
  else
    let value := Real.fraction m e
    if exponential then .leading value (places + 1) else .rounded value places

/-- A finite float in writing. -/
def word (c : FloatColumn) (negative : Bool) (m : Nat) (e : Int) : FloatWord :=
  let d := digits c.size c.exponential m e
  let shifted : Digits := if c.exponential then { d with point := 1 } else d
  ⟨signText c.plusSign negative ++ Text.ofChars shifted.whole, Text.ofChars (shifted.fraction 0),
    d.point - 1⟩

def finiteWords (c : FloatColumn) (xs : List Parts) : List FloatWord :=
  xs.filterMap fun x =>
    match x with
    | .finite s m e => some (c.word s m e)
    | _ => none

/-- The digits of a power of ten, two at least. -/
def powerDigits (n : Int) : Text :=
  let ds := Nat.toDigits 10 n.natAbs
  Text.ofChars (List.replicate (2 - ds.length) '0' ++ ds)

def greatest (ns : List Nat) : Nat := ns.foldl max 0

/-- The column for some floats. What is not finite needs room on the left when there is too little
behind the point. -/
def ofParts (size : Nat) (plusSign : Bool) (xs : List Parts) : FloatColumn :=
  let magnitudes := xs.filterMap fun x =>
    match x with
    | .finite _ m e => if m = 0 then none else some (.finite false m e)
    | _ => none
  let exponential := needsPower size magnitudes
  let bare : FloatColumn := ⟨size, plusSign, exponential, 0, 0, 0⟩
  let words := bare.finiteWords xs
  let left := greatest (words.map (·.whole.length))
  let right := greatest (words.map (·.fraction.length))
  let powerWidth := greatest (words.map fun w => (powerDigits w.power).length)
  let behind := if exponential then powerWidth + 3 + right else right + 1
  let hasMinus := plusSign || xs.any (· = .infinite true)
  let others := if xs.length = words.length then 0 else max 3 (if hasMinus then 4 else 3) - behind
  { bare with left := max left others, right, powerWidth }

/-- A float in its column. -/
def text (c : FloatColumn) (x : Parts) : Text :=
  let width := c.left + 1 + c.right + if c.exponential then c.powerWidth + 2 else 0
  match x with
  | .nan => Text.padLeft width (signText c.plusSign false ++ "nan")
  | .infinite s => Text.padLeft width (signText c.plusSign s ++ "inf")
  | .finite s m e =>
    let w := c.word s m e
    let whole := Text.padLeft c.left w.whole ++ "."
    if c.exponential then
      let zeros := Text.ofChars (List.replicate (c.right - w.fraction.length) '0')
      let power := powerDigits w.power
      let sign : Text := if w.power < 0 then "e-" else "e+"
      whole ++ w.fraction ++ zeros ++ sign ++
        Text.ofChars (List.replicate (c.powerWidth - power.length) '0') ++ power
    else whole ++ Text.padRight c.right w.fraction

end FloatColumn

end MorphEngine.Real
