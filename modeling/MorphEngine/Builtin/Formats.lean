import MorphEngine.Builtin.Strings
import MorphEngine.Text.Layout
import MorphEngine.Value.Insertion

/-!
Values as running text in a layout. Texts and numbers can be laid out, each number in several ways
of writing that go by letters; scalars are laid out as the numbers and texts that they hold. All
other values know the empty layout alone, which asks for nothing.
-/

namespace MorphEngine.Builtin

open Layout (Flaw)

/-! ### Ways of writing -/

/-- The base that a code names for whole numbers, with the mark for the base. -/
def basesByCode : List (CodePoint × Nat × String) :=
  [(Text.ofChar 'b', 2, "0b"), (Text.ofChar 'o', 8, "0o"), (Text.ofChar 'x', 16, "0x"),
    (Text.ofChar 'X', 16, "0X"), (Text.ofChar 'd', 10, ""), (Text.ofChar 'n', 10, "")]

/-- Whether a code asks for capital letters. -/
def asksForCapitals (code : Option CodePoint) : Bool := code.any (Layout.isCode "EFGX")

/-- Digits and other marks, in capital letters where the code asks for them. -/
def inCase (code : Option CodePoint) (cs : List Char) : List CodePoint :=
  cs.map fun c => Text.ofChar (if asksForCapitals code then c.toUpper else c)

/-- A whole number in the base that a code names, ten without a code. -/
def inBaseOfCode (l : Layout) (n : Int) : Except Fault (List CodePoint) :=
  let (base, mark) := (l.code.bind fun c => basesByCode.lookup c).getD (10, "")
  if base = 10 ∧ Number.isUnwritable n then .error .tooManyDigits
  else
    .ok (l.numeral ⟨n < 0, if l.alternate then Text.points mark else [],
      inCase l.code (Nat.toDigits base n.natAbs), []⟩)

/-- The character with a number, in a field for numbers. -/
def asCharacter (l : Layout) (n : Int) : Except Fault (List CodePoint) :=
  if n < -0x8000000000000000 ∨ 0x8000000000000000 ≤ n then
    .error (.plain .overflow "Python int too large to convert to C long")
  else if n < 0 ∨ 0x110000 ≤ n then .error (.plain .overflow "%c arg not in range(0x110000)")
  else .ok (l.numeral ⟨false, [], [], [CodePoint.ofNat n.toNat]⟩)

/-- The style that a code and a precision name for doubles. A precision without a code counts
digits. -/
def styleOf (l : Layout) (keepsPlace : Bool) : Real.Style :=
  let places := l.precision.getD 6
  let extent : Real.Extent :=
    match l.code, l.precision with
    | none, none => .shortest
    | none, some n => .general (max n 1)
    | some c, _ =>
      if Layout.isCode "eE" c then .scientific places
      else if Layout.isCode "fF%" c then .fixed places
      else .general (max places 1)
  ⟨extent, keepsPlace && l.code.isNone, l.alternate⟩

/-- A double in the style of a layout. -/
def numeralOf (l : Layout) (keepsPlace : Bool) (x : Float) : Layout.Numeral :=
  let isPercentage := l.code.any (Layout.isCode "%")
  let parts := Real.parts (if isPercentage then x * 100.0 else x)
  let w := (styleOf l keepsPlace).write .double parts
  ⟨w.negative && !(l.unsignedZero && w.isZero), [], Text.points (Text.ofChars w.whole),
    inCase l.code w.rest ++ if isPercentage then [Text.ofChar '%'] else []⟩

/-! ### Values -/

/-- Fails when the field of a layout is too wide to be filled. -/
def checkWidth (l : Layout) : Except Fault Unit :=
  if l.width < Value.repetitionLimit then .ok () else .error (.plain (.other "MemoryError") "")

/-- The precisions that a double can be written with stay below this. -/
def precisionLimit : Nat := 0x80000000

def checkPrecision (l : Layout) : Except Flaw Unit :=
  if (l.precision.getD 0) < precisionLimit then .ok () else .error .precisionTooBig

/-- Fails when a layout has a code that is not among some. -/
def checkCode (codes : String) (l : Layout) : Except Flaw Unit :=
  match l.code with
  | none => .ok ()
  | some c => if Layout.isCode codes c then .ok () else .error (.unknownCode c)

/-- A layout as it is written, with the class of the value that reads it. -/
structure Reading where
  written : Text
  kind : Text

namespace Reading

def check {α : Type} (r : Reading) (result : Except Flaw α) : Except Fault α :=
  result.mapError fun f => .plain .value (f.message r.written r.kind)

def layout (r : Reading) (code : Option CodePoint) (align : Alignment) : Except Fault Layout :=
  r.check (Layout.read code align r.written.points)

def text (r : Reading) (t : Text) : Except Fault Text := do
  let l ← r.layout (some (Text.ofChar 's')) .left
  r.check (checkCode "s" l)
  r.check l.checkForText
  checkWidth l
  return l.text t

/-- A double in a layout that has been read. -/
def realIn (r : Reading) (l : Layout) (x : Float) : Except Fault Text := do
  r.check (checkPrecision l)
  checkWidth l
  return ⟨l.numeral (numeralOf l true x)⟩

def real (r : Reading) (x : Float) : Except Fault Text := do
  let l ← r.layout none .right
  r.check (checkCode "eEfFgGn%" l)
  r.realIn l x

def whole (r : Reading) (n : Int) : Except Fault Text := do
  let l ← r.layout none .right
  r.check (checkCode "bcdoxXneEfFgG%" l)
  if l.code.any (Layout.isCode "eEfFgG%") then
    match (Number.int n).toFloat? with
    | some x => r.realIn l x
    | none => throw .overflowingInt
  else
    r.check (Layout.refuse .whole
      [(l.precision.isSome, .precision), (l.unsignedZero, .unsignedZero)])
    if l.code.any (Layout.isCode "c") then
      r.check (Layout.refuse .character [(l.sign.isSome, .sign), (l.alternate, .alternate)])
      checkWidth l
      return ⟨← asCharacter l n⟩
    else
      checkWidth l
      return ⟨← inBaseOfCode l n⟩

/-- A complex number, both parts in the same style and the field around them. The parts have no
fields of their own, and without a code a sum stands in parentheses. -/
def complex (r : Reading) (re im : Float) : Except Fault Text := do
  let l ← r.layout none .right
  r.check (checkCode "eEfFgGn" l)
  r.check (checkPrecision l)
  r.check (Layout.refuse .complex
    [(l.fill = Text.ofChar '0', .zeroFill), (l.align = .inside, .insideFlag)])
  checkWidth l
  let bare : Layout := { l with fill := Text.ofChar ' ', align := .left, width := 0 }
  let isAlone := l.code.isNone && (Real.parts re).isPlainZero
  let imaginary := if isAlone then bare else { bare with sign := some .plus }
  let body :=
    (if isAlone then [] else bare.numeral (numeralOf l false re)) ++
      imaginary.numeral (numeralOf l false im) ++ [Text.ofChar 'j']
  let enclosed : Text := if l.code.isNone && !isAlone then "(" ++ Text.mk body ++ ")" else ⟨body⟩
  return ⟨l.place [] enclosed.points⟩

end Reading

/-- The fault of a layout that a value does not have. -/
def unsupportedFormat (v : Value) : Fault :=
  .typeError ("unsupported format string passed to " ++ v.longTypeName ++ ".__format__")

/-- A value as running text in a layout. Members of enumerations that are no numbers are laid out as
their running texts. -/
def formatted (v : Value) (written : Text) : Except Fault Text :=
  let v := v.insertedAs
  if written.isEmpty then v.plainOrFault
  else
    let r : Reading := ⟨written, v.longTypeName⟩
    match v, v.int?, v.text? with
    | .member _, none, _ => do Reading.text ⟨written, "str"⟩ (← v.plainOrFault)
    | _, some n, _ => r.whole n
    | _, none, some t => r.text t
    | .real x, _, _ => r.real x
    | .complex re im, _, _ => r.complex re im
    | _, _, _ => .error (unsupportedFormat v)

/-- A value as running text, in the layout that another value is. -/
def formattedAs (v layout : Value) : Except Fault Text :=
  match layout.text? with
  | some written => formatted v written
  | none =>
    .error (.typeError ("format() argument 2 must be str, not " ++ nameInPlaceOfText layout))

end MorphEngine.Builtin
