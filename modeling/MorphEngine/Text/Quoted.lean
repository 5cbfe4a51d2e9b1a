import MorphEngine.Text.Printable

/-!
Texts and byte strings in quotes. Single quotes are used unless the text holds one and no double
quote; what cannot be shown as it is takes an escape of two, four or eight hexadecimal places.
-/

namespace MorphEngine.Text

/-- The quote to put around a text, given by its code. -/
def quoteFor (codes : List Nat) : Nat :=
  if codes.contains 39 && !codes.contains 34 then 34 else 39

/-- The escape that bytes and characters share, if there is one, given the quotes to escape. -/
def commonEscape (quotes : List Nat) (n : Nat) : Option (List Char) :=
  if n = 92 then some ['\\', '\\']
  else if quotes.contains n then some ['\\', Char.ofNat n]
  else if n = 10 then some ['\\', 'n']
  else if n = 13 then some ['\\', 'r']
  else if n = 9 then some ['\\', 't']
  else none

def escapeNumber (n : Nat) : List Char :=
  if n < 0x100 then '\\' :: 'x' :: hexDigits 2 n
  else if n < 0x10000 then '\\' :: 'u' :: hexDigits 4 n
  else '\\' :: 'U' :: hexDigits 8 n

def escapePoint (quote : Nat) (c : CodePoint) : Text :=
  match commonEscape [quote] c.val with
  | some cs => ofChars cs
  | none => if isPrintable c then ⟨[c]⟩ else ofChars (escapeNumber c.val)

def quoted (t : Text) : Text :=
  let quote := quoteFor (t.points.map (·.val))
  let mark := ofChars [Char.ofNat quote]
  mark ++ ⟨t.points.flatMap fun c => (escapePoint quote c).points⟩ ++ mark

def escapeByte (quotes : List Nat) (b : UInt8) : List Char :=
  match commonEscape quotes b.toNat with
  | some cs => cs
  | none => if 32 ≤ b.toNat ∧ b.toNat < 127 then [Char.ofNat b.toNat] else escapeNumber b.toNat

def bytesBetween (quote : Nat) (quotes : List Nat) (bs : List UInt8) : Text :=
  ofChars ('b' :: Char.ofNat quote :: bs.flatMap (escapeByte quotes) ++ [Char.ofNat quote])

def quotedBytes (bs : List UInt8) : Text :=
  let quote := quoteFor (bs.map (·.toNat))
  bytesBetween quote [quote] bs

/-- The bytes of a buffer, where a single quote is escaped also between double quotes. -/
def quotedBuffer (bs : List UInt8) : Text := bytesBetween (quoteFor (bs.map (·.toNat))) [39] bs

end MorphEngine.Text
