import MorphEngine.Value.Arithmetic
import MorphEngine.Value.Display
import MorphEngine.Value.Item
import MorphEngine.Value.Members

/-!
What values are made of when they meet an array. Sequences count as arrays of what is in them, as
deep as all members go alike; what has no elements is one by itself. Elements are numbers, texts,
byte strings, times or blanks, and otherwise objects that are left to themselves.
-/

namespace MorphEngine.Value

/-! ### Nested sequences -/

/-- The most dimensions of an array. -/
def mostDimensions : Nat := 64

/-- The members of a value that counts as a sequence. -/
def sequence? (cells : Cells) (v : Value) : Option (List Value) :=
  match (v.resolve cells).bare with
  | .list xs | .tuple xs => some xs
  | .pair a b => some [a, b]
  | .buffer bs => some (bs.map fun b => .scalar ⟨.unsigned 1 false, [b]⟩)
  | .array t (n :: rest) bs order => some (arrayParts t n rest bs order)
  | .objectArray (n :: rest) xs => some (objectArrayParts n rest xs)
  | _ => Option.none

/-- The dimensions that two lists of them start with. -/
def commonStart : List Nat → List Nat → List Nat
  | n :: ns, m :: ms => if n = m then n :: commonStart ns ms else []
  | _, _ => []

/-- The dimensions of nested sequences as far as all members have them, and whether no member goes
deeper. -/
def dimensions (cells : Cells) : Nat → Value → List Nat × Bool
  | 0, v => ([], (v.sequence? cells).isNone)
  | fuel + 1, v =>
    match v.sequence? cells with
    | Option.none => ([], true)
    | some xs =>
      match xs.map (dimensions cells fuel) with
      | [] => ([0], true)
      | first :: rest =>
        let common := rest.foldl (fun start d => commonStart start d.1) first.1
        (xs.length :: common, (first :: rest).all fun d => d.2 && d.1 = common)

/-- What is left of a value under so many dimensions. -/
def itemsUnder (cells : Cells) : Nat → Value → List Value
  | 0, v => [v]
  | depth + 1, v => ((v.sequence? cells).getD [v]).flatMap (itemsUnder cells depth)

/-- The fault of sequences that go on where others end, or deeper than an array can. -/
def ragged (dimensions : List Nat) : Fault :=
  .plain .value ("setting an array element with a sequence. " ++
    if dimensions.length = mostDimensions then
      "The requested array would exceed the maximum number of dimension of " ++
        Text.ofNat mostDimensions ++ "."
    else
      "The requested array has an inhomogeneous shape after " ++ Text.ofNat dimensions.length ++
        " dimensions. The detected shape was " ++ shapeText dimensions ++
        " + inhomogeneous part.")

/-! ### Elements -/

/-- Elements of one kind, row by row. -/
inductive Content where
  | numbers (items : List Amount)
  | texts (items : List Text)
  | strings (items : List (List UInt8))
  | times (isPoint : Bool) (unit : TimeUnit) (items : List Int)
  /-- Records and blanks, which are compared with their own kind only. -/
  | blanks (items : List Value)
  | objects (items : List Value)

/-- Elements with their dimensions. Objects have no element type, and a plain number takes that of
what it meets. -/
structure Elements where
  type : Option ElementType
  shape : List Nat
  content : Content

namespace Content

/-- A number as a value. -/
def ofAmount : Amount → Value
  | .whole n => .int n
  | .real x => .real (Real.ofParts x)
  | .complex x y => .complex (Real.ofParts x) (Real.ofParts y)

/-- The elements one by one. -/
def values : Content → List Value
  | numbers items => items.map ofAmount
  | texts items => items.map .text
  | strings items => items.map .bytes
  | times isPoint u items => items.map (ofTime isPoint u)
  | blanks items | objects items => items

end Content

namespace Elements

/-- The element type of a member that is a number. Whole numbers take eight bytes. -/
def numberType? (v : Value) : Option ElementType :=
  match v.operand? with
  | some ⟨some t, [], _⟩ => some t
  | some ⟨_, _, [.whole n]⟩ =>
    [ElementType.signed 8 false, .unsigned 8 false].find? fun t => Operand.holds t n
  | some ⟨_, _, [.real _]⟩ => some (.floating 8 false)
  | some ⟨_, _, [.complex _ _]⟩ => some (.complex 16 false)
  | _ => Option.none

/-- The elements of a type that holds no numbers. -/
def ofBytes (t : ElementType) (shape : List Nat) (elements : List (List UInt8)) : Elements :=
  let scalars := elements.map fun bs => (Scalar.mk t bs).little
  let counts := scalars.map fun s => Scalar.toInt s.bytes
  let content : Content :=
    match t with
    | .text _ _ => .texts (scalars.map fun s => Scalar.toText s.bytes)
    | .bytes _ => .strings (scalars.map fun s => Scalar.dropZeroBytes s.bytes)
    | .instant unit _ => .times true (.ofCode unit) counts
    | .duration unit _ => .times false (.ofCode unit) counts
    | .record fields =>
      .blanks (elements.map fun bs => .tuple ((fieldScalars fields bs).map .scalar))
    | _ => .blanks (elements.map .bytes)
  ⟨some t, shape, content⟩

def greatest (ns : List Nat) : Nat := ns.foldl max 1

def ofTexts (shape : List Nat) (ts : List Text) : Elements :=
  ⟨some (.text (greatest (ts.map Text.length)) false), shape, .texts ts⟩

def ofStrings (shape : List Nat) (ss : List (List UInt8)) : Elements :=
  ⟨some (.bytes (greatest (ss.map List.length))), shape, .strings ss⟩

/-- Times of one unit. -/
def ofTimes? (shape : List Nat) (ts : List (Bool × TimeUnit × Int)) : Option Elements :=
  match ts with
  | [] => Option.none
  | (isPoint, u, _) :: _ =>
    if ts.all fun t => t.1 = isPoint && t.2.1 = u then
      let type : ElementType :=
        if isPoint then .instant u.code false else .duration u.code false
      some ⟨some type, shape, .times isPoint u (ts.map (·.2.2))⟩
    else Option.none

def ofObjects (shape : List Nat) (items : List Value) : Elements :=
  ⟨Option.none, shape, .objects items⟩

/-- Members as elements of the kind that has room for all of them. -/
def ofMembers (shape : List Nat) (items : List Value) : Elements :=
  let isSimple (v : Value) : Bool :=
    (numberType? v).isSome || v.isText || v.byteString?.isSome
  match items.mapM numberType?, items.mapM text?, items.mapM byteString?, items.mapM time? with
  | some ts, _, _, _ =>
    let t := (ts.foldlM ElementType.join? (ts.headD (.floating 8 false))).getD (.floating 8 false)
    let amounts := (items.filterMap operand?).flatMap (·.amounts)
    ⟨some t, shape, .numbers (amounts.map (Amount.fit t))⟩
  | _, some ts, _, _ => ofTexts shape ts
  | _, _, some ss, _ => ofStrings shape ss
  | _, _, _, some ts => (ofTimes? shape ts).getD (ofObjects shape items)
  | _, _, _, _ =>
    if items.all isSimple then ofTexts shape (items.map fun v => v.plain.getD "")
    else ofObjects shape items

/-- The numbers among the elements, as they take part in arithmetic. -/
def operand? (e : Elements) : Option Operand :=
  match e.content with
  | .numbers items => some ⟨e.type, e.shape, items⟩
  | _ => Option.none

/-- The element type, also of a plain number by itself. -/
def type? (e : Elements) : Option ElementType :=
  match e.type, e.content with
  | some t, _ => some t
  | Option.none, .numbers items => items.head?.bind fun a => numberType? (Content.ofAmount a)
  | Option.none, _ => Option.none

/-- The element type as a message shows it. -/
def typeLook (e : Elements) : Text := "dtype(" ++ (e.type?.map Extent.typeLook).getD "'O'" ++ ")"

/-- What the class of an element type is called. -/
def className : ElementType → Text
  | .flag => "BoolDType"
  | .signed n _ => "Int" ++ Text.ofNat (8 * n) ++ "DType"
  | .unsigned n _ => "UInt" ++ Text.ofNat (8 * n) ++ "DType"
  | .floating n _ => if n = 16 then "LongDoubleDType" else "Float" ++ Text.ofNat (8 * n) ++ "DType"
  | .complex n _ =>
    if n = 32 then "CLongDoubleDType" else "Complex" ++ Text.ofNat (8 * n) ++ "DType"
  | .bytes _ => "BytesDType"
  | .text _ _ => "StrDType"
  | .instant _ _ => "DateTime64DType"
  | .duration _ _ => "TimeDelta64DType"
  | .blank _ | .record _ => "VoidDType"

/-- The class of the elements as a message shows it. -/
def classLook (e : Elements) : Text :=
  let name : Text :=
    match e.type, e.content with
    | some t, _ => className t
    | Option.none, .numbers (.whole _ :: _) => "_PyLongDType"
    | Option.none, .numbers (.real _ :: _) => "_PyFloatDType"
    | Option.none, .numbers (.complex _ _ :: _) => "_PyComplexDType"
    | Option.none, _ => "ObjectDType"
  "<class 'numpy.dtypes." ++ name ++ "'>"

end Elements

/-- What a value is made of when it meets an array. -/
def elements (cells : Cells) (v : Value) : Except Fault Elements :=
  match v.operand?, (v.resolve cells).bare with
  | some a, _ => .ok ⟨a.type, a.shape, .numbers a.amounts⟩
  | _, .objectArray shape xs => .ok (.ofObjects shape xs)
  | _, .array t shape bs _ =>
    .ok (.ofBytes t shape (Extent.runs (Extent.count shape) t.size bs))
  | _, .scalar s => .ok (.ofBytes s.type [] [s.bytes])
  | _, w =>
    match w.dimensions cells mostDimensions with
    | (shape, true) => .ok (.ofMembers shape (w.itemsUnder cells shape.length))
    | (shape, false) => .error (ragged shape)

/-- Whether a value answers by its elements when it meets another one. Texts and byte strings never
do, and wide floats only to numbers. -/
def answersByElements (v other : Value) : Bool :=
  match v.bare with
  | .array _ _ _ _ | .objectArray _ _ => true
  | .scalar ⟨.text _ _, _⟩ | .scalar ⟨.bytes _, _⟩ => false
  | .scalar ⟨.floating 16 _, _⟩ | .scalar ⟨.complex 32 _, _⟩ => other.operand?.isSome
  | .scalar _ => true
  | _ => false

/-- The fault of a question or an operation that elements of two types do not have. -/
def noLoop (callName left right : Text) : Fault :=
  .plain (.other "UFuncTypeError") ("ufunc '" ++ callName ++
    "' did not contain a loop with signature matching types (" ++ left ++ ", " ++ right ++
    ") -> None")

end MorphEngine.Value
