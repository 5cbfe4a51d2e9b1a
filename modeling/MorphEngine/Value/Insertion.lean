import MorphEngine.Fault
import MorphEngine.Value.Item

/-!
Values as they are put into messages. A value stands there as running text; a scalar that is a
number stands there as a plain number, floats of any size as doubles.
-/

namespace MorphEngine.Value

/-- What stands for a scalar in a message. -/
def insertedScalar (s : Scalar) : Value :=
  match s.type, item? s, (Value.scalar s).complex? with
  | .flag, some v, _ | .signed _ _, some v, _ | .unsigned _ _, some v, _ => v
  | .floating _ _, _, some (.real x, _) => .real x
  | .complex _ _, _, some (.real x, .real y) => .complex x y
  | .text _ _, _, _ => .scalar s
  | _, _, _ => .text (scalarText s)

/-- What stands for a value in a message. Arrays without dimensions stand for their only element. -/
def insertedAs (v : Value) : Value :=
  match v.bare with
  | .scalar s | .objectArray [] [.scalar s] => insertedScalar s
  | .array type [] bs _ => insertedScalar (Scalar.little ⟨type, bs⟩)
  | v => v

/-- A value as it is put into a message. -/
def insertedOrFault (v : Value) : Except Fault Text := v.insertedAs.plainOrFault

end MorphEngine.Value
