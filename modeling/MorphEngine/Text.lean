/-!
Text as a sequence of code points. Surrogates are allowed to stand alone, so a text need not have a
well-formed encoding; where bytes are needed a lone surrogate takes its three-byte form. Texts are
ordered by code point.
-/

namespace MorphEngine

abbrev CodePoint := Fin 0x110000

/-- The code point with a number, counted from the start again behind the last one. -/
def CodePoint.ofNat (n : Nat) : CodePoint := ⟨n % 0x110000, Nat.mod_lt n (by decide)⟩

structure Text where
  points : List CodePoint
deriving DecidableEq, Inhabited

namespace Text

def ofChar (c : Char) : CodePoint :=
  ⟨c.toNat, by
    have h := c.valid
    simp only [UInt32.isValidChar, Nat.isValidChar] at h
    have e : c.toNat = c.val.toNat := rfl
    omega⟩

def ofChars (cs : List Char) : Text := ⟨cs.map ofChar⟩

def ofString (s : String) : Text := ofChars s.toList

instance : Coe String Text := ⟨ofString⟩

def empty : Text := ⟨[]⟩

def isEmpty (t : Text) : Bool := t.points.isEmpty

def length (t : Text) : Nat := t.points.length

def append (s t : Text) : Text := ⟨s.points ++ t.points⟩

instance : Append Text := ⟨append⟩

@[simp] theorem points_append (s t : Text) : (s ++ t).points = s.points ++ t.points := rfl

/-- The texts one after the other, with `sep` between neighbours. -/
def join (sep : Text) : List Text → Text
  | [] => empty
  | [t] => t
  | t :: rest => t ++ sep ++ join sep rest

/-- The order of texts by their first differing code point; a proper beginning comes first. -/
def precedes : List CodePoint → List CodePoint → Bool
  | _, [] => false
  | [], _ :: _ => true
  | a :: s, b :: t => a < b || (a == b && precedes s t)

def lt (s t : Text) : Bool := precedes s.points t.points

def le (s t : Text) : Bool := !lt t s

/-- The texts in ascending order. -/
def sort (ts : List Text) : List Text := ts.mergeSort le

def isSurrogate (c : CodePoint) : Bool := 0xD800 ≤ c.val && c.val ≤ 0xDFFF

/-- One code point in one to four bytes, surrogates included. -/
def encodePoint (c : CodePoint) : List UInt8 :=
  let n := c.val
  if n < 0x80 then [n.toUInt8]
  else if n < 0x800 then [(0xC0 + n / 0x40).toUInt8, (0x80 + n % 0x40).toUInt8]
  else if n < 0x10000 then
    [(0xE0 + n / 0x1000).toUInt8, (0x80 + n / 0x40 % 0x40).toUInt8, (0x80 + n % 0x40).toUInt8]
  else
    [(0xF0 + n / 0x40000).toUInt8, (0x80 + n / 0x1000 % 0x40).toUInt8,
      (0x80 + n / 0x40 % 0x40).toUInt8, (0x80 + n % 0x40).toUInt8]

def bytes (t : Text) : List UInt8 := t.points.flatMap encodePoint

/-- The characters of a text without surrogates, and nothing otherwise. -/
def toChars? (t : Text) : Option (List Char) :=
  t.points.mapM fun c => if isSurrogate c then none else some (Char.ofNat c.val)

def ofNat (n : Nat) : Text := ofString (toString n)

def ofInt (n : Int) : Text := ofString (toString n)

/-- The lower-case hexadecimal digits of `n`, with zeros in front up to `width` places. -/
def hexDigits (width n : Nat) : List Char :=
  let ds := Nat.toDigits 16 n
  List.replicate (width - ds.length) '0' ++ ds

def hexByte (b : UInt8) : List Char := hexDigits 2 b.toNat

def hexBytes (bs : List UInt8) : Text := ofChars (bs.flatMap hexByte)

/-- ASCII letters become capitals; nothing else changes. -/
def upperAscii (t : Text) : Text :=
  ⟨t.points.map fun c => if 97 ≤ c.val ∧ c.val ≤ 122 then CodePoint.ofNat (c.val - 32) else c⟩

def lowerAscii (t : Text) : Text :=
  ⟨t.points.map fun c => if 65 ≤ c.val ∧ c.val ≤ 90 then CodePoint.ofNat (c.val + 32) else c⟩

/-- The first `n` code points. -/
def take (n : Nat) (t : Text) : Text := ⟨t.points.take n⟩

/-- The text without the code points in `p` at either end. -/
def trim (p : CodePoint → Bool) (t : Text) : Text :=
  ⟨((t.points.dropWhile p).reverse.dropWhile p).reverse⟩

end Text

end MorphEngine
