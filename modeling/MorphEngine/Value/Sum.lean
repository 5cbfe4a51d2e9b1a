import MorphEngine.Value.Combination

/-!
Sums of values. Numbers are added as numbers, exactly where both are whole; a complex number makes
the sum complex; what has an element type is added element by element; texts, byte strings, lists
and tuples are joined with their own kind. Everything else has no sum, and the fault says which side
refused.
-/

namespace MorphEngine.Value

def unjoinable (kind : Text) (w : Value) : Fault :=
  .typeError ("can only concatenate " ++ kind ++ " (not \"" ++ w.longTypeName ++ "\") to " ++ kind)

/-- A text, byte string, list or tuple with another one after it. -/
def joined (v w : Value) : Except Fault Value :=
  match v, v.text?, v.byteString?, v.tupleItems? with
  | _, some s, _, _ =>
    match w.text? with
    | some t => .ok (.text (s ++ t))
    | Option.none => .error (unjoinable "str" w)
  | .buffer bs, _, _, _ =>
    match w.byteString? with
    | some cs => .ok (.buffer (bs ++ cs))
    | Option.none => .error (.typeError ("can't concat " ++ w.longTypeName ++ " to bytearray"))
  | _, _, some bs, _ =>
    match w.byteString? with
    | some cs => .ok (.bytes (bs ++ cs))
    | Option.none => .error (.typeError ("can't concat " ++ w.longTypeName ++ " to bytes"))
  | _, _, _, some xs =>
    match w.tupleItems? with
    | some ys => .ok (.tuple (xs ++ ys))
    | Option.none => .error (unjoinable "tuple" w)
  | .list xs, _, _, _ =>
    match w with
    | .list ys => .ok (.list (xs ++ ys))
    | w => .error (unjoinable "list" w)
  | v, _, _, _ => .error (.unsupportedOperands "+" v w)

/-- The sum of two complex numbers, whole numbers beyond all doubles left out. -/
def complexSum? (v w : Number × Number) : Option Value := do
  return .complex ((← v.1.toFloat?) + (← w.1.toFloat?)) ((← v.2.toFloat?) + (← w.2.toFloat?))

/-- The sum of two values without elements. -/
def plainSum (v w : Value) : Except Fault Value :=
  match v.number?, w.number?, v.complex?, w.complex? with
  | some a, some b, _, _ =>
    match a.add? b with
    | some n => .ok (.ofNumber n)
    | Option.none => .error .overflowingInt
  | _, _, some a, some b =>
    match complexSum? a b with
    | some z => .ok z
    | Option.none => .error .overflowingInt
  | _, _, _, _ => v.joined w

/-- The sum of two values. -/
def plus : Value → Value → Except Fault Value := combineWithin .plus plainSum nestingLimit

end MorphEngine.Value
