import MorphEngine.Value.Arithmetic
import MorphEngine.Value.Relation

/-!
A measure as it was given: a real number or a span of time. How it compares with zero is judged
exactly; what is not a number and a span that is missing compare in no way.
-/

namespace MorphEngine

structure Quantity where
  given : Value
  measures : given.isMeasure = true

namespace Quantity

def ofInt (n : Int) : Quantity := ⟨.int n, rfl⟩

/-- The quantity that a value is, if it is a measure. -/
def ofValue? (v : Value) : Option Quantity :=
  if h : v.isMeasure = true then some ⟨v, h⟩ else none

/-- How a quantity compares with zero. -/
def order? (q : Quantity) : Option Ordering :=
  match q.given.time?, q.given.operand?.map (·.amounts) with
  | some (_, _, n), _ => if n = Moment.missing then none else some (compare n 0)
  | none, some [a] => a.order? (.whole 0)
  | _, _ => none

/-- Whether a quantity and zero are in a relation. -/
def meetsZero (r : Relation) (q : Quantity) : Bool := r.admits q.order?

end Quantity

end MorphEngine
