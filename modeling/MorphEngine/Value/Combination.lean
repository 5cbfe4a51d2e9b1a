import MorphEngine.Value.ElementOrder

/-!
Sums, differences and products of values, one of which has elements. Numbers are combined as
numbers; texts and byte strings are joined; times are moved, measured and multiplied in the unit
that they have in common, wrapping around at the ends of eight bytes, where a missing time makes the
result missing. Arrays of objects leave the work to the objects.
-/

namespace MorphEngine.Value

/-- What a message calls an operation on elements. -/
def callName : Operator → Text
  | .plus => "add"
  | .minus => "subtract"
  | .times => "multiply"

namespace Elements

/-- The fault of an operation that times do not have with what they meet. -/
def unusable (op : Operator) (a b : Elements) : Fault :=
  .plain (.other "UFuncTypeError") ("ufunc '" ++ callName op ++
    "' cannot use operands with types " ++ a.typeLook ++ " and " ++ b.typeLook)

/-- A whole number in eight bytes, wrapped around. -/
def wrapped (n : Int) : Int := Scalar.toInt (Scalar.ofInt 8 n)

/-- A number of units from two of them; what is missing stays so. -/
def onCounts (f : Int → Int → Int) (m n : Int) : Int :=
  if m = Moment.missing ∨ n = Moment.missing then Moment.missing else wrapped (f m n)

/-- A number of units times a number, the fraction of units cut off. A product beyond eight bytes is
missing. -/
def scaledCount (n : Int) (factor : Amount) : Int :=
  match factor with
  | .whole k => if n = Moment.missing then n else wrapped (n * k)
  | factor =>
    let double (x : Real.Parts) : Real.Parts := Real.Precision.double.round x
    let product := double ((double (.ofInt n)).multiply (double factor.realPart))
    match Real.truncate? (Real.ofParts product) with
    | some k => if n ≠ Moment.missing ∧ wrapped k = k then k else Moment.missing
    | Option.none => Moment.missing

/-- Times as a value. -/
def timesValue (isPoint : Bool) (u : TimeUnit) (shape : List Nat) (counts : List Int) : Value :=
  let type : ElementType := if isPoint then .instant u.code false else .duration u.code false
  ofElements type shape (counts.map (Scalar.ofInt 8))

/-- The result of a test of counts in a unit on all pairs of elements. -/
def combineCounts {α : Type} (isPoint : Bool) (u : TimeUnit) (f : Int → α → Int) (a b : Elements)
    (ms : List Int) (xs : List α) : Except Fault Value := do
  let (shape, pairs) ← Operand.paired a.shape b.shape ms xs
  return timesValue isPoint u shape (pairs.map fun p => f p.1 p.2)

/-- Times combined with times. -/
def combineTimes (op : Operator) (a b : Elements) (isPoint other : Bool) (u v : TimeUnit)
    (ms ns : List Int) : Except Fault Value := do
  let kind : Option Bool :=
    match op, isPoint, other with
    | .plus, true, true | .minus, false, true | .times, _, _ => Option.none
    | .plus, _, _ => some (isPoint || other)
    | .minus, _, _ => some (isPoint && !other)
  match kind with
  | Option.none => throw (unusable op a b)
  | some kind =>
    let w ← (u.common isPoint other v).mapError (clashing u v)
    combineCounts kind w (onCounts op.onWhole) a b (ms.map (Moment.counted u w))
      (ns.map (Moment.counted v w))

/-- The whole numbers among which counts of units can be. -/
def counting? (items : List Amount) : Option (List Int) := do
  let ns ← counts? items
  guard (ns.all fun n => -0x8000000000000000 ≤ n && n < 0x10000000000000000)
  return ns

/-- Times combined with numbers: whole numbers count units, and spans can be multiplied. -/
def combineTimesAndNumbers (op : Operator) (a b : Elements) (isPoint : Bool) (u : TimeUnit)
    (ms : List Int) (xs : List Amount) : Except Fault Value :=
  let isComplex := xs.any fun x => x matches .complex _ _
  match op, counting? xs with
  | .times, _ =>
    if isPoint || isComplex then .error (unusable op a b)
    else combineCounts false u scaledCount a b ms xs
  | op, some ns => combineCounts isPoint u (onCounts op.onWhole) a b ms (ns.map wrapped)
  | _, Option.none => .error (unusable op a b)

/-- Numbers combined with times: a point in time cannot be taken from a number. -/
def combineNumbersAndTimes (op : Operator) (a b : Elements) (isPoint : Bool) (u : TimeUnit)
    (xs : List Amount) (ns : List Int) : Except Fault Value :=
  let isComplex := xs.any fun x => x matches .complex _ _
  match op, counting? xs with
  | .times, _ =>
    if isPoint || isComplex then .error (unusable op a b)
    else combineCounts false u scaledCount b a ns xs
  | op, some ms =>
    if op = .minus ∧ isPoint then .error (unusable op a b)
    else combineCounts isPoint u (onCounts op.onWhole) a b (ms.map wrapped) ns
  | _, Option.none => .error (unusable op a b)

/-- A text in so many characters, four bytes each, and zeros behind it. -/
def textBytes (length : Nat) (t : Text) : List UInt8 :=
  (t.points.flatMap fun c => Scalar.ofNat 4 c.val) ++ List.replicate (4 * (length - t.length)) 0

/-- Texts, or byte strings, one behind the other; the results are as long as the longest can be. -/
def combineTexts {α : Type} (type : ElementType) (bytes : α → List UInt8) (join : α → α → α)
    (a b : Elements) (xs ys : List α) : Except Fault Value := do
  let (shape, pairs) ← Operand.paired a.shape b.shape xs ys
  return ofElements type shape (pairs.map fun p => bytes (join p.1 p.2))

def combine (op : Operator) (onObjects : Value → Value → Except Fault Value) (a b : Elements) :
    Except Fault Value :=
  let refused : Except Fault Value := .error (noLoop (callName op) a.typeLook b.typeLook)
  match a.content, b.content with
  | .times isPoint u ms, .times other v ns => combineTimes op a b isPoint other u v ms ns
  | .times isPoint u ms, .numbers xs => combineTimesAndNumbers op a b isPoint u ms xs
  | .numbers xs, .times isPoint u ns => combineNumbersAndTimes op a b isPoint u xs ns
  | .times _ _ _, _ | _, .times _ _ _ => .error (unusable op a b)
  | .objects _, _ | _, .objects _ => do
    let (shape, pairs) ← Operand.paired a.shape b.shape a.content.values b.content.values
    match shape, ← pairs.mapM fun p => onObjects p.1 p.2 with
    | [], [v] => return v
    | shape, vs => return .objectArray shape vs
  | .numbers xs, .numbers ys =>
    let x : Operand := ⟨a.type, a.shape, xs⟩
    let y : Operand := ⟨b.type, b.shape, ys⟩
    (x.meet? y).elim refused fun t => combineIn op t x y
  | .texts xs, .texts ys =>
    let length := ((a.type.elim 0 ElementType.size) + (b.type.elim 0 ElementType.size)) / 4
    if op = .plus then combineTexts (.text length false) (textBytes length) (· ++ ·) a b xs ys
    else refused
  | .strings xs, .strings ys =>
    let length := (a.type.elim 0 ElementType.size) + (b.type.elim 0 ElementType.size)
    let bytes (bs : List UInt8) := bs ++ List.replicate (length - bs.length) 0
    if op = .plus then combineTexts (.bytes length) bytes (· ++ ·) a b xs ys else refused
  | _, _ => refused

end Elements

/-- The result of an operation on two values, when one of them answers by its elements. A text or
byte string in front of a scalar is not joined with it. -/
def combine? (op : Operator) (onObjects : Value → Value → Except Fault Value) (v w : Value) :
    Option (Except Fault Value) :=
  let isFirst := v.isText || v.byteString?.isSome
  if op = .plus && isFirst && (w.bare matches .scalar _) then Option.none
  else if v.answersByElements w || w.answersByElements v then
    some do (← v.elements []).combine op onObjects (← w.elements [])
  else Option.none

/-- An operation that goes by elements where there are some, and by `plain` where there are none.
Objects in arrays may be arrays again, so many times. -/
def combineWithin (op : Operator) (plain : Value → Value → Except Fault Value) :
    Nat → Value → Value → Except Fault Value
  | 0, v, w => plain v w
  | fuel + 1, v, w => (combine? op (combineWithin op plain fuel) v w).getD (plain v w)

end MorphEngine.Value
