import MorphEngine.Value.Equality

/-!
What scalars hold, as values that have nothing to do with arrays: numbers, texts, byte strings,
dates and spans of time. The fields of a record are held one by one.
-/

namespace MorphEngine.Value

/-- What a time is outside of arrays. -/
def timeItem (isPoint : Bool) (u : TimeUnit) (n : Int) : Moment.Item :=
  if isPoint then Moment.pointItem u n else Moment.spanItem u n

/-- What a time is outside of arrays, as a value. -/
def ofTime (isPoint : Bool) (u : TimeUnit) (n : Int) : Value :=
  let known (name : Text) : Value :=
    .thing ⟨"datetime", name⟩ (if isPoint then Moment.pointText u n else Moment.spanText u n)
  match timeItem isPoint u n with
  | .missing => .none
  | .count n => .int n
  | .span _ _ _ => known "timedelta"
  | .date _ => known "date"
  | .instant _ _ _ => known "datetime"

/-- What a scalar holds that is no record. Extended floats have no other form. -/
def item? (s : Scalar) : Option Value :=
  match s.type, (Value.scalar s).time? with
  | _, some (isPoint, u, n) => some (ofTime isPoint u n)
  | .flag, _ => some (.bool (s.bytes != [0]))
  | .signed _ _, _ => some (.int (Scalar.toInt s.bytes))
  | .unsigned _ _, _ => some (.int (Scalar.toNat s.bytes))
  | .floating _ _, _ => (Scalar.toFloat? s.bytes).map .real
  | .complex n _, _ => do
    let re ← Scalar.toFloat? (s.bytes.take (n / 2))
    let im ← Scalar.toFloat? (s.bytes.drop (n / 2))
    return .complex re im
  | .blank _, _ => some (.bytes s.bytes)
  | .text _ _, _ => some (.text (Scalar.toText s.bytes))
  | .bytes _, _ => some (.bytes (Scalar.dropZeroBytes s.bytes))
  | _, _ => Option.none

/-- The fields of a record as scalars. -/
def fieldScalars : List ElementType → List UInt8 → List Scalar
  | [], _ => []
  | t :: rest, bs => Scalar.little ⟨t, bs.take t.size⟩ :: fieldScalars rest (bs.drop t.size)

end MorphEngine.Value
