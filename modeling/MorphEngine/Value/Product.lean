import MorphEngine.Value.Combination

/-!
Products of a number with a value. Numbers are multiplied as numbers, exactly where both are whole;
a complex number makes the product complex; what has an element type is multiplied element by
element. A whole number repeats texts, byte strings, lists and tuples, and counts as zero then when
it is negative. Everything else has no product.
-/

namespace MorphEngine.Value

/-- How many members a repeated value can have. -/
def repetitionLimit : Nat := 0x100000000

/-- Whether a whole number is small enough to count members, forwards or backwards. -/
def isIndex (n : Int) : Bool := -0x8000000000000000 ≤ n && n < 0x8000000000000000

/-- What a message calls a number that is not. -/
def tooLargeIndex (given : Value) : Text :=
  "cannot fit '" ++ given.longTypeName ++ "' into an index-sized integer"

/-- A list several times over, or the fault of there being no room for that. -/
def repeated {α : Type} (n : Int) (xs : List α) : Except Fault (List α) :=
  if xs.isEmpty then .ok []
  else if n.toNat * xs.length < repetitionLimit then .ok (List.replicate n.toNat xs).flatten
  else .error (.plain (.other "MemoryError") "")

/-- The product of two complex numbers, whole numbers beyond all doubles left out. -/
def complexProduct? (v w : Number × Number) : Option Value := do
  let a ← v.1.toFloat?
  let b ← v.2.toFloat?
  let c ← w.1.toFloat?
  let d ← w.2.toFloat?
  return .complex (a * c - b * d) (a * d + b * c)

/-- The value `n` times over, where `given` is the number as it was given. -/
def repetition (given : Value) (n : Int) (w : Value) : Except Fault Value :=
  let several {α : Type} (xs : List α) (make : List α → Value) : Except Fault Value :=
    if isIndex n then (repeated n xs).map make
    else .error (.plain .overflow (tooLargeIndex given))
  match w, w.text?, w.byteString?, w.tupleItems? with
  | _, some t, _, _ => several t.points fun ps => .text ⟨ps⟩
  | .buffer bs, _, _, _ => several bs .buffer
  | _, _, some bs, _ => several bs .bytes
  | _, _, _, some xs => several xs .tuple
  | .list xs, _, _, _ => several xs .list
  | w, _, _, _ => .error (.unsupportedOperands "*" given w)

/-- The product of a number and a value, both without elements. -/
def plainProduct (v w : Value) : Except Fault Value :=
  match v.number?, w.number?, v.complex?, w.complex? with
  | some a, some b, _, _ =>
    match a.mul? b with
    | some n => .ok (.ofNumber n)
    | Option.none => .error .overflowingInt
  | _, _, some a, some b =>
    match complexProduct? a b with
    | some z => .ok z
    | Option.none => .error .overflowingInt
  | some (.int n), _, _, _ => repetition v n w
  | _, _, _, _ => .error (.unsupportedOperands "*" v w)

/-- The product of a number and a value. -/
def times : Value → Value → Except Fault Value := combineWithin .times plainProduct nestingLimit

end MorphEngine.Value
