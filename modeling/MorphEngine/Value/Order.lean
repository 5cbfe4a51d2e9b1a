import MorphEngine.NaturalSort
import MorphEngine.Value.Comparison

/-!
The order of values and sorting. Numbers are ordered among themselves, and so are texts, byte
strings, lists, tuples and sets; other pairs of values have no order. Lists and tuples go by their
first members that differ. Comparing walks down into values, and goes no deeper than a limit.
-/

namespace MorphEngine.Value

/-- How two sets compare: the smaller one has all its members in the larger one. -/
def setOrder? (xs ys : List Value) : Option Ordering :=
  if !eachIn xs ys then (if eachIn ys xs then some .gt else Option.none)
  else if xs.length < ys.length then some .lt
  else some .eq

/-- The fault of asking for the order of two values that have none. The mapping without entries asks
as a table, and is asked by a table in turn. -/
def unordered (r : Relation) (v w : Value) : Fault :=
  match v, w with
  | .emptyContext, .emptyContext => .incomparable r.reverse.symbol (.table []) (.table [])
  | .emptyContext, w => .incomparable r.symbol (.table []) w
  | v, .emptyContext => .incomparable r.reverse.symbol (.table []) v
  | v, w => .incomparable r.symbol v w

/-- The answer to how values without elements and without an order of members compare. -/
def compareAtoms (r : Relation) (v w : Value) : Except Fault Bool :=
  match v.number?, w.number?, v.text?, w.text?, v.byteString?, w.byteString? with
  | some a, some b, _, _, _, _ => .ok (r.admits (a.order? b))
  | _, _, some s, some t, _, _ => .ok (r.admits (some (textOrder s t)))
  | _, _, _, _, some s, some t => .ok (r.admits (some (byteOrder s t)))
  | _, _, _, _, _, _ =>
    match v.setMembers?, w.setMembers? with
    | some xs, some ys => .ok (r.admits (setOrder? xs ys))
    | _, _ => .error (unordered r v w)

/-- The first place where two sequences differ: what each of them has there. -/
def firstDifference (cells : Cells) (fuel : Nat) :
    List Value → List Value → Except Fault (Option Value × Option Value)
  | x :: xs, y :: ys => do
    if ← sameMember cells fuel x y then firstDifference cells fuel xs ys
    else return (some x, some y)
  | xs, ys => .ok (xs.head?, ys.head?)

/-- How two sequences compare of which one is the start of the other, given what each has left. -/
def restOrder (x y : Option Value) : Ordering := compare x.isSome.toNat y.isSome.toNat

/-- The answer to how two values compare, within so many levels. A pair is always asked before a
tuple that is none, the other way round if need be. -/
def compareWithin (cells : Cells) : Nat → Relation → Value → Value → Except Fault Value
  | 0, _, _, _ => .error .tooDeepToCompare
  | fuel + 1, r, v, w =>
    let sequences (r : Relation) (xs ys : List Value) : Except Fault Value := do
      match ← firstDifference cells fuel xs ys with
      | (some x, some y) => compareWithin cells fuel r x y
      | (x, y) => return .bool (r.admits (some (restOrder x y)))
    let holds (r : Relation) (x y : Value) : Except Fault Bool := do
      (← compareWithin cells fuel r x y).truth
    match v.resolve cells, w.resolve cells with
    | .list xs, .list ys => sequences r xs ys
    | .tuple xs, .pair a b => sequences r.reverse [a, b] xs
    | v, w =>
      match v.tupleItems?, w.tupleItems? with
      | some xs, some ys => sequences r xs ys
      | _, _ => (compareElements? cells holds r v w).getD ((compareAtoms r v w).map .bool)

/-- The answer to how two values compare, element by element when one of them has elements. -/
def relate (cells : Cells) (r : Relation) (v w : Value) : Except Fault Value :=
  compareWithin cells nestingLimit r v w

/-- Whether two values compare in a way. -/
def relates (cells : Cells) (r : Relation) (v w : Value) : Except Fault Bool := do
  (← relate cells r v w).truth

/-- Whether a value comes before another one. -/
def less (cells : Cells) (v w : Value) : Except Fault Bool := relates cells .less v w

/-- Whether a value comes after another one. -/
def greater (cells : Cells) (v w : Value) : Except Fault Bool := relates cells .greater v w

/-- The values in ascending order. -/
def sorted (cells : Cells) (xs : List Value) : Except Fault (List Value) :=
  NaturalSort.sort (less cells) xs

end MorphEngine.Value
