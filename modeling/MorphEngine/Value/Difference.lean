import MorphEngine.Value.Combination

/-!
Differences of values. Numbers are subtracted as numbers, exactly where both are whole; a complex
number makes the difference complex; what has an element type is subtracted element by element; from
a set the members of another set are taken away. Other pairs of values have no difference.
-/

namespace MorphEngine.Value

/-- The difference of two complex numbers, whole numbers beyond all doubles left out. -/
def complexDifference? (v w : Number × Number) : Option Value := do
  return .complex ((← v.1.toFloat?) - (← w.1.toFloat?)) ((← v.2.toFloat?) - (← w.2.toFloat?))

/-- What is left of a set without the members of another one, as a set of the same kind. -/
def setDifference? (v w : Value) : Option Value :=
  match v, w.setMembers? with
  | .set xs, some ys => some (.set (xs.filter fun x => !ys.any (·.same x)))
  | .frozenSet xs, some ys => some (.frozenSet (xs.filter fun x => !ys.any (·.same x)))
  | _, _ => Option.none

/-- The difference of two values without elements. -/
def plainDifference (v w : Value) : Except Fault Value :=
  match v.number?, w.number?, v.complex?, w.complex? with
  | some a, some b, _, _ =>
    match a.sub? b with
    | some n => .ok (.ofNumber n)
    | Option.none => .error .overflowingInt
  | _, _, some a, some b =>
    match complexDifference? a b with
    | some z => .ok z
    | Option.none => .error .overflowingInt
  | _, _, _, _ =>
    match setDifference? v w with
    | some s => .ok s
    | Option.none => .error (.unsupportedOperands "-" v w)

/-- The difference of two values. -/
def minus : Value → Value → Except Fault Value := combineWithin .minus plainDifference nestingLimit

end MorphEngine.Value
