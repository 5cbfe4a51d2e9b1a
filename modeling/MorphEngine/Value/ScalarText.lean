import MorphEngine.Scalar.Moment
import MorphEngine.Text.Quoted
import MorphEngine.Value.Extent

/-!
Scalars as text. Running text is that of the number, text or time that a scalar holds; a shown
scalar has it between parentheses behind the name of its class. Numbers are written with the fewest
digits that read back at their own precision.
-/

namespace MorphEngine.Value

/-- The parts of a complex scalar of so many bytes. -/
def complexParts? (n : Nat) (bs : List UInt8) : Option (Real.Parts × Real.Parts) := do
  return (← Scalar.parts? (bs.take (n / 2)), ← Scalar.parts? (bs.drop (n / 2)))

/-- Bytes in quotes, each of them by its number. -/
def rawBytes (bs : List UInt8) : Text :=
  Text.ofChars ("b'".toList ++ bs.flatMap (fun b => Text.escapeNumber b.toNat) ++ ['\''])

/-- A scalar that is no record as running text. -/
def simpleText (s : Scalar) : Text :=
  let raw : Text := Text.quotedBytes s.bytes
  match s.type with
  | .flag => if s.bytes = [0] then "False" else "True"
  | .bytes _ => Text.quotedBytes (Scalar.dropZeroBytes s.bytes)
  | .text _ _ => Scalar.toText s.bytes
  | .blank _ | .record _ => rawBytes s.bytes
  | .signed _ _ => Text.ofInt (Scalar.toInt s.bytes)
  | .unsigned _ _ => Text.ofNat (Scalar.toNat s.bytes)
  | .floating n _ =>
    (Scalar.parts? s.bytes).elim raw fun x =>
      Text.ofChars (Real.decimalChars (.ofSize n) true x)
  | .complex n _ =>
    (complexParts? n s.bytes).elim raw fun z =>
      Real.complexText (.ofSize (n / 2)) z.1 z.2
  | .instant unit _ => Moment.pointText (.ofCode unit) (Scalar.toInt s.bytes)
  | .duration unit _ => Moment.spanText (.ofCode unit) (Scalar.toInt s.bytes)

/-- Texts between parentheses; one alone has a comma behind it. -/
def tupled : List Text → Text
  | [t] => "(" ++ t ++ ",)"
  | ts => "(" ++ Text.join ", " ts ++ ")"

mutual

/-- An element as it stands in a record: texts are quoted. -/
def fieldText : ElementType → List UInt8 → Text
  | .record fields, bs => tupled (fieldTexts fields bs)
  | .text n big, bs => Text.quoted (Scalar.toText (Scalar.mk (.text n big) bs).little.bytes)
  | t, bs => simpleText (Scalar.mk t bs).little

def fieldTexts : List ElementType → List UInt8 → List Text
  | [], _ => []
  | t :: rest, bs => fieldText t (bs.take t.size) :: fieldTexts rest (bs.drop t.size)

end

/-- A scalar as running text. -/
def scalarText (s : Scalar) : Text :=
  match s.type with
  | .record fields => tupled (fieldTexts fields s.bytes)
  | _ => simpleText s

/-- The text inside the parentheses of a shown scalar. -/
def scalarContent (s : Scalar) : Text :=
  let quote (n : Nat) (t : Text) : Text := if n = 16 then "'" ++ t ++ "'" else t
  match s.type, complexParts? s.bytes.length s.bytes with
  | .text _ _, _ => Text.quoted (Scalar.toText s.bytes)
  | .floating n _, _ => quote n (scalarText s)
  | .complex n _, some (re, im) =>
    quote (n / 2) (Text.ofChars (Real.complexChars (.ofSize (n / 2)) re im))
  | .instant unit _, _ => Moment.pointContent (.ofCode unit) (Scalar.toInt s.bytes)
  | .duration unit _, _ => Moment.spanContent (.ofCode unit) (Scalar.toInt s.bytes)
  | .record fields, _ => scalarText s ++ ", dtype=" ++ Extent.typeLook (.record fields)
  | _, _ => scalarText s

def shownScalar (s : Scalar) : Text :=
  match s.type with
  | .flag => "np." ++ scalarText s ++ "_"
  | t => "np." ++ scalarName t ++ "(" ++ scalarContent s ++ ")"

end MorphEngine.Value
