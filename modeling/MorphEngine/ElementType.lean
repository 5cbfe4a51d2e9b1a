import MorphEngine.Real.Binary
import MorphEngine.Text.Numeral

/-!
Element types of numeric arrays: their sizes, their byte order, and their codes such as `<f8`. Types
can also be given by a name or by a single letter. A record of several fields has no code of its
own; it shares that of a blank of the same size.
-/

namespace MorphEngine

inductive ElementType where
  | flag
  | signed (size : Nat) (big : Bool)
  | unsigned (size : Nat) (big : Bool)
  | floating (size : Nat) (big : Bool)
  | complex (size : Nat) (big : Bool)
  | bytes (length : Nat)
  | text (length : Nat) (big : Bool)
  | blank (length : Nat)
  | instant (unit : Text) (big : Bool)
  | duration (unit : Text) (big : Bool)
  | record (fields : List ElementType)

namespace ElementType

mutual

/-- The bytes that one element takes. -/
def size : ElementType → Nat
  | .flag => 1
  | .signed n _ | .unsigned n _ | .floating n _ | .complex n _ | .bytes n | .blank n => n
  | .text n _ => 4 * n
  | .instant _ _ | .duration _ _ => 8
  | .record fields => totalSize fields

def totalSize : List ElementType → Nat
  | [] => 0
  | t :: rest => size t + totalSize rest

end

def orderMark (size : Nat) (big : Bool) : Text := if size ≤ 1 then "|" else if big then ">" else "<"

def code : ElementType → Text
  | .flag => "|b1"
  | .signed n big => orderMark n big ++ "i" ++ Text.ofNat n
  | .unsigned n big => orderMark n big ++ "u" ++ Text.ofNat n
  | .floating n big => orderMark n big ++ "f" ++ Text.ofNat n
  | .complex n big => orderMark n big ++ "c" ++ Text.ofNat n
  | .bytes n => "|S" ++ Text.ofNat n
  | .text n big => orderMark 4 big ++ "U" ++ Text.ofNat n
  | .blank n => "|V" ++ Text.ofNat n
  | .instant unit big => orderMark 8 big ++ "M8" ++ unit
  | .duration unit big => orderMark 8 big ++ "m8" ++ unit
  | .record fields => "|V" ++ Text.ofNat (totalSize fields)

/-- The type with its least significant byte first. -/
def little : ElementType → ElementType
  | .signed n _ => .signed n false
  | .unsigned n _ => .unsigned n false
  | .floating n _ => .floating n false
  | .complex n _ => .complex n false
  | .text n _ => .text n false
  | .instant unit _ => .instant unit false
  | .duration unit _ => .duration unit false
  | t => t

/-- How many bytes are reversed together when the byte order changes. -/
def unitSize : ElementType → Nat
  | .signed n true | .unsigned n true | .floating n true => n
  | .complex n true => n / 2
  | .text _ true => 4
  | .instant _ true | .duration _ true => 8
  | _ => 1

/-- Types that have names of their own; their least significant byte comes first. -/
def named : List (String × ElementType) :=
  [("bool", .flag), ("int8", .signed 1 false), ("int16", .signed 2 false),
    ("int32", .signed 4 false), ("int64", .signed 8 false), ("uint8", .unsigned 1 false),
    ("uint16", .unsigned 2 false), ("uint32", .unsigned 4 false), ("uint64", .unsigned 8 false),
    ("float16", .floating 2 false), ("float32", .floating 4 false), ("float64", .floating 8 false),
    ("float128", .floating 16 false), ("complex64", .complex 8 false),
    ("complex128", .complex 16 false), ("complex256", .complex 32 false),
    ("int", .signed 8 false), ("intp", .signed 8 false), ("int_", .signed 8 false),
    ("uint", .unsigned 8 false), ("uintp", .unsigned 8 false), ("float", .floating 8 false),
    ("complex", .complex 16 false), ("str", .text 0 false), ("bytes", .bytes 0),
    ("void", .blank 0), ("byte", .signed 1 false), ("ubyte", .unsigned 1 false),
    ("short", .signed 2 false), ("ushort", .unsigned 2 false), ("intc", .signed 4 false),
    ("uintc", .unsigned 4 false), ("long", .signed 8 false), ("ulong", .unsigned 8 false),
    ("longlong", .signed 8 false), ("ulonglong", .unsigned 8 false), ("half", .floating 2 false),
    ("single", .floating 4 false), ("double", .floating 8 false),
    ("longdouble", .floating 16 false), ("csingle", .complex 8 false),
    ("cdouble", .complex 16 false), ("clongdouble", .complex 32 false)]

/-- The type that a letter alone stands for. -/
def ofLetter? (big : Bool) (c : Char) : Option ElementType :=
  if c = '?' then some .flag
  else if c = 'b' then some (.signed 1 big)
  else if c = 'B' then some (.unsigned 1 big)
  else if c = 'h' then some (.signed 2 big)
  else if c = 'H' then some (.unsigned 2 big)
  else if c = 'i' then some (.signed 4 big)
  else if c = 'I' then some (.unsigned 4 big)
  else if ['l', 'q', 'p', 'n'].contains c then some (.signed 8 big)
  else if ['L', 'Q', 'P', 'N'].contains c then some (.unsigned 8 big)
  else if c = 'e' then some (.floating 2 big)
  else if c = 'f' then some (.floating 4 big)
  else if c = 'd' then some (.floating 8 big)
  else if c = 'g' then some (.floating 16 big)
  else if c = 'F' then some (.complex 8 big)
  else if c = 'D' then some (.complex 16 big)
  else if c = 'G' then some (.complex 32 big)
  else if c = 'c' then some (.bytes 1)
  else if c = 'S' then some (.bytes 0)
  else if c = 'U' then some (.text 0 big)
  else if c = 'V' then some (.blank 0)
  else none

/-- The type for a letter and a number, which counts bytes or, in texts, characters. -/
def ofSized? (big : Bool) (kind : Char) (n : Nat) : Option ElementType :=
  match kind with
  | 'b' => if n = 1 then some .flag else none
  | 'i' => some (.signed n big)
  | 'u' => some (.unsigned n big)
  | 'f' => some (.floating n big)
  | 'c' => some (.complex n big)
  | 'S' => some (.bytes n)
  | 'U' => some (.text n big)
  | 'V' => some (.blank n)
  | _ => none

/-- The words and codes for times, with what makes a type from a unit. -/
def timeKinds : List (String × (Text → Bool → ElementType)) :=
  [("datetime64", .instant), ("timedelta64", .duration), ("M8", .instant), ("m8", .duration)]

/-- The type of times that a code stands for. -/
def ofTimeCode? (big : Bool) (cs : List Char) : Option ElementType :=
  timeKinds.findSome? fun k =>
    if k.1.toList.isPrefixOf cs then some (k.2 (Text.ofChars (cs.drop k.1.length)) big) else none

/-- The byte order that a code begins with, if any, and the rest of the code. -/
def splitOrder : List Char → Bool × List Char
  | '>' :: r => (true, r)
  | '<' :: r | '=' :: r | '|' :: r => (false, r)
  | r => (false, r)

/-- A type of one field from its name or its code. -/
def ofSimpleCode? (cs : List Char) : Option ElementType :=
  let (big, rest) := splitOrder cs
  match named.lookup (String.ofList cs), rest with
  | some t, _ => some t
  | none, [c] => ofLetter? big c
  | none, kind :: digits =>
    (ofTimeCode? big rest).orElse fun _ =>
      if digits.all Char.isDigit then ofSized? big kind (Text.digitsToNat digits) else none
  | none, [] => none

def splitFields (cs : List Char) : List (List Char) := cs.splitOn ','

/-- A type from its code; several codes with commas between them make a record. -/
def ofCode? (cs : List Char) : Option ElementType :=
  match splitFields cs with
  | [one] => ofSimpleCode? one
  | several => (several.mapM ofSimpleCode?).map .record

end ElementType

/-- One element by itself. -/
structure Scalar where
  type : ElementType
  bytes : List UInt8

namespace Scalar

/-- The bytes with each group of `n` reversed; `fuel` bounds the groups. -/
def reverseGroups (n : Nat) : Nat → List UInt8 → List UInt8
  | 0, bs => bs
  | _, [] => []
  | fuel + 1, bs => (bs.take n).reverse ++ reverseGroups n fuel (bs.drop n)

/-- The scalar with its least significant byte first. -/
def little (s : Scalar) : Scalar :=
  let n := s.type.unitSize
  ⟨s.type.little, if n ≤ 1 then s.bytes else reverseGroups n s.bytes.length s.bytes⟩

/-- The number whose base-256 digits, least significant first, are given. -/
def toNat (bs : List UInt8) : Nat := bs.foldr (fun b n => b.toNat + 256 * n) 0

def toInt (bs : List UInt8) : Int :=
  let n := toNat bs
  if 2 * n < Nat.pow 256 bs.length then n else (n : Int) - (Nat.pow 256 bs.length : Nat)

/-- A float whose mantissa leaves out its first digit, given the widths of its two fields. -/
def shortParts (exponentBits fractionBits : Nat) (n : Nat) : Real.Parts :=
  let negative := decide (n / Nat.pow 2 (exponentBits + fractionBits) % 2 = 1)
  let exponent : Nat := n / Nat.pow 2 fractionBits % Nat.pow 2 exponentBits
  let fraction : Nat := n % Nat.pow 2 fractionBits
  let bias : Int := Nat.pow 2 (exponentBits - 1) - 1
  if exponent = Nat.pow 2 exponentBits - 1 then
    if fraction = 0 then .infinite negative else .nan
  else
    .finite negative (if exponent = 0 then fraction else Nat.pow 2 fractionBits + fraction)
      (max exponent 1 - bias - fractionBits)

/-- A float of ten bytes: a whole mantissa of eight, then its sign and exponent. -/
def extendedParts (bs : List UInt8) : Real.Parts :=
  let mantissa := toNat (bs.take 8)
  let high := toNat ((bs.drop 8).take 2)
  let negative := decide (0x8000 ≤ high)
  let exponent : Nat := high % 0x8000
  if exponent = 0x7FFF then
    if mantissa = 0x8000000000000000 then .infinite negative else .nan
  else .finite negative mantissa (max exponent 1 - 16446)

/-- The float that some bytes hold: two, four, eight, or ten padded to sixteen. -/
def parts? (bs : List UInt8) : Option Real.Parts :=
  match bs.length with
  | 2 => some (shortParts 5 10 (toNat bs))
  | 4 => some (shortParts 8 23 (toNat bs))
  | 8 => some (shortParts 11 52 (toNat bs))
  | 16 => some (extendedParts bs)
  | _ => none

/-- The double that a float of two, four or eight bytes holds. -/
def toFloat? (bs : List UInt8) : Option Float :=
  if bs.length = 16 then none else (parts? bs).map Real.ofParts

def dropZeroBytes (bs : List UInt8) : List UInt8 := (bs.reverse.dropWhile (· = 0)).reverse

/-- The code points of fixed-width text of four bytes each; `fuel` bounds their number. -/
def codePoints : Nat → List UInt8 → List CodePoint
  | 0, _ => []
  | _, [] => []
  | fuel + 1, bs => CodePoint.ofNat (toNat (bs.take 4)) :: codePoints fuel (bs.drop 4)

def toText (bs : List UInt8) : Text :=
  ⟨((codePoints bs.length bs).reverse.dropWhile (·.val = 0)).reverse⟩

end Scalar

end MorphEngine
