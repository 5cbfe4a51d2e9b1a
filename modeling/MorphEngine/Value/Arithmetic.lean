import MorphEngine.Fault
import MorphEngine.Scalar.Arithmetic
import MorphEngine.Value.Extent

/-!
Arithmetic and order of numbers that have element types: scalars and arrays of them. They are
combined element by element, and an element that stands alone goes with all elements of an array.
Plain numbers take the element type of what they meet; a truth value has one of its own. A result
without dimensions is a scalar.
-/

namespace MorphEngine.Value

/-- Numbers that take part in arithmetic: their element type, unless they take that of what they
meet, and their dimensions. -/
structure Operand where
  type : Option ElementType
  shape : List Nat
  amounts : List Amount

/-- The numbers that a value is made of. -/
def operand? (v : Value) : Option Operand :=
  match v.bare with
  | .bool b => some ⟨some .flag, [], [.whole (if b then 1 else 0)]⟩
  | .real x => some ⟨Option.none, [], [.real (Real.parts x)]⟩
  | .complex x y => some ⟨Option.none, [], [.complex (Real.parts x) (Real.parts y)]⟩
  | .scalar s => do
    let s := s.little
    return ⟨some s.type, [], [← s.amount?]⟩
  | .array t shape bs _ => do
    let elements := Extent.runs (Extent.count shape) t.size bs
    return ⟨some t.little, shape, ← elements.mapM fun bs => (Scalar.mk t bs).little.amount?⟩
  | v => v.int?.map fun n => ⟨Option.none, [], [.whole n]⟩

namespace Operand

/-- The type for numbers of a type and a plain number. -/
def adopt (t : ElementType) : Amount → ElementType
  | .whole _ => if t matches .flag then .signed 8 false else t
  | .real _ => if t.isWhole then .floating 8 false else t
  | .complex _ _ =>
    if t.isWhole then .complex 16 false else .complexOf ((t.floatSize?).getD 8)

/-- The type in which two operands meet. -/
def meet? (a b : Operand) : Option ElementType :=
  match a.type, b.type with
  | some t, some u => t.join? u
  | some t, Option.none => b.amounts.head?.map (adopt t)
  | Option.none, some u => a.amounts.head?.map (adopt u)
  | Option.none, Option.none => Option.none

/-- The fault of a whole number that is not among those of a type. -/
def outside (t : ElementType) (n : Int) : Fault :=
  if t.size < 8 ∧ -0x8000000000000000 ≤ n ∧ n < 0x8000000000000000 ∨ t.size = 8 ∧ n < 0 then
    .plain .overflow ("Python integer " ++ Text.ofInt n ++ " out of bounds for " ++ scalarName t)
  else .plain .overflow "Python int too large to convert to C long"

/-- Whether a whole number is one of those of a type. -/
def holds (t : ElementType) (n : Int) : Bool :=
  match t with
  | .signed size _ => -(Nat.pow 256 size / 2 : Nat) ≤ n && n < (Nat.pow 256 size / 2 : Nat)
  | .unsigned size _ => 0 ≤ n && n < (Nat.pow 256 size : Nat)
  | .floating _ _ | .complex _ _ => ((Number.int n).toFloat?).isSome
  | _ => true

/-- Fails when a plain number does not go into the type that it takes. -/
def check (t : ElementType) (a : Operand) : Except Fault Unit :=
  match a.type, a.amounts with
  | Option.none, [.whole n] =>
    if holds t n then .ok ()
    else if t.isWhole then .error (outside t n)
    else .error .overflowingInt
  | _, _ => .ok ()

/-- The dimensions of what two operands give together, counted from the last. A dimension of one
goes with any other. -/
def commonShape? : List Nat → List Nat → Option (List Nat)
  | [], shape | shape, [] => some shape
  | n :: ns, m :: ms => do
    let rest ← commonShape? ns ms
    if n = m ∨ m = 1 then return n :: rest
    else if n = 1 then return m :: rest
    else Option.none

/-- Items with their dimensions stretched to others of the same number. -/
def stretched {α : Type} : List Nat → List Nat → List α → List α
  | n :: ns, m :: ms, xs =>
    let rows := ((Extent.runs n (Extent.count ns) xs).map (stretched ns ms)).flatten
    if n = m then rows else (List.replicate m rows).flatten
  | _, _, xs => xs

/-- Items with their dimensions stretched to those of a result. -/
def spread {α : Type} (shape : List Nat) (dimensions : List Nat) (xs : List α) : List α :=
  stretched (List.replicate (shape.length - dimensions.length) 1 ++ dimensions) shape xs

/-- Dimensions as a message shows them. -/
def shapeText (shape : List Nat) : Text :=
  match shape with
  | [n] => "(" ++ Text.ofNat n ++ ",)"
  | shape => "(" ++ Text.join "," (shape.map Text.ofNat) ++ ")"

/-- The pairs that items of two dimensions make together, and the dimensions of the result. -/
def paired {α β : Type} (shape other : List Nat) (xs : List α) (ys : List β) :
    Except Fault (List Nat × List (α × β)) :=
  match commonShape? shape.reverse other.reverse with
  | some common =>
    let common := common.reverse
    .ok (common, (spread common shape xs).zip (spread common other ys))
  | Option.none =>
    .error (.plain .value ("operands could not be broadcast together with shapes " ++
      shapeText shape ++ " " ++ shapeText other ++ " "))

/-- The pairs of numbers that two operands bring together, and the dimensions of the result. -/
def pairs (a b : Operand) : Except Fault (List Nat × List (Amount × Amount)) :=
  paired a.shape b.shape a.amounts b.amounts

end Operand

/-- Elements as a value: a scalar when there are no dimensions. -/
def ofElements (t : ElementType) (shape : List Nat) (elements : List (List UInt8)) : Value :=
  if shape.isEmpty then .scalar ⟨t, elements.flatten⟩
  else .array t shape elements.flatten .byRows

/-- Truth values as elements. -/
def ofFlags (shape : List Nat) (flags : List Bool) : Value :=
  ofElements .flag shape (flags.map fun b => [if b then 1 else 0])

def flagDifference : Fault :=
  .typeError ("numpy boolean subtract, the \x60-\x60 operator, is not supported, " ++
    "use the bitwise_xor, the \x60^\x60 operator, or the logical_xor function instead.")

/-- The result of an operation on operands that meet in a type. -/
def combineIn (op : Operator) (t : ElementType) (a b : Operand) : Except Fault Value := do
  a.check t
  b.check t
  let (shape, pairs) ← a.pairs b
  if op = .minus ∧ (t matches .flag) then throw flagDifference
  return ofElements t shape (pairs.map fun p => Scalar.combined op t p.1 p.2)

/-- How the numbers of two operands compare in the type in which they meet; whole numbers compare as
they are. -/
def orderings (a b : Operand) : Except Fault (List Nat × List (Option Ordering)) := do
  let t := (a.meet? b).getD (.floating 8 false)
  let order? (x y : Amount) : Option Ordering :=
    match x, y with
    | .whole _, .whole _ => x.order? y
    | x, y => (x.fit t).order? (y.fit t)
  let (shape, pairs) ← a.pairs b
  return (shape, pairs.map fun p => order? p.1 p.2)

end MorphEngine.Value
