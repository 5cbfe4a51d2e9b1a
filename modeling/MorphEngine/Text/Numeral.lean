import MorphEngine.Text
import MorphEngine.Real.Hexadecimal

/-!
Numbers written as text. Any decimal digits may be used, blanks may surround the number, and a
single underscore may stand between two digits. Whole numbers of more than 4300 digits are refused,
unless their base is a power of two; doubles also take a fraction, an exponent, and the words for
infinity and not-a-number in any case.
-/

namespace MorphEngine.Text

/-- The code points of the digit zero, one for each set of decimal digits (Unicode 14). -/
def zeroDigits : List Nat :=
  [
    48, 1632, 1776, 1984, 2406, 2534, 2662, 2790, 2918, 3046, 3174, 3302, 3430, 3558, 3664,
    3792, 3872, 4160, 4240, 6112, 6160, 6470, 6608, 6784, 6800, 6992, 7088, 7232, 7248, 42528,
    43216, 43264, 43472, 43504, 43600, 44016, 65296, 66720, 68912, 69734, 69872, 69942, 70096,
    70384, 70736, 70864, 71248, 71360, 71472, 71904, 72016, 72784, 73040, 73120, 92768, 92864,
    93008, 120782, 120792, 120802, 120812, 120822, 123200, 123632, 125264, 130032]

/-- The blanks that may stand at either end of a text. -/
def isBlank (c : CodePoint) : Bool :=
  let n := c.val
  (9 ≤ n && n ≤ 13) || (28 ≤ n && n ≤ 32) || n == 133 || n == 160 || n == 5760 ||
    (8192 ≤ n && n ≤ 8202) || n == 8232 || n == 8233 || n == 8239 || n == 8287 || n == 12288

def strip (t : Text) : Text := trim isBlank t

def digitValue? (c : CodePoint) : Option Nat :=
  (zeroDigits.find? fun z => z ≤ c.val && c.val < z + 10).map (c.val - ·)

/-- A numeral in plain characters: other digits become the ten plain ones and other blanks spaces. A
question mark stands for anything else, which no numeral contains. -/
def plainNumeral (t : Text) : List Char :=
  t.points.map fun c =>
    if c.val < 127 then Char.ofNat c.val
    else if isBlank c then ' '
    else (digitValue? c).elim '?' fun d => Char.ofNat (48 + d)

def isPlainBlank (c : Char) : Bool := c == ' ' || (9 ≤ c.toNat && c.toNat ≤ 13)

def trimPlain (cs : List Char) : List Char :=
  ((cs.dropWhile isPlainBlank).reverse.dropWhile isPlainBlank).reverse

/-- The numeral without its underscores, provided that each stands between two digits. -/
def dropUnderscores (isDigit : Char → Bool) : Option Char → List Char → Option (List Char)
  | _, [] => some []
  | previous, '_' :: c :: rest =>
    if previous.any isDigit && isDigit c then
      (dropUnderscores isDigit (some c) rest).map (c :: ·)
    else none
  | _, ['_'] => none
  | _, c :: rest => (dropUnderscores isDigit (some c) rest).map (c :: ·)

def digitsToNat (cs : List Char) : Nat :=
  cs.foldl (fun n c => 10 * n + (c.toNat - 48)) 0

/-- The most digits that a whole number may have in text. -/
def digitLimit : Nat := 4300

/-- Why a text is no whole number. -/
inductive NumeralFault where
  | malformed
  | tooLong (digits : Nat)

/-- The value of a digit or letter. -/
def digitOf (c : Char) : Nat :=
  if c.isDigit then c.toNat - 48
  else if c.isAlpha then c.toLower.toNat - 87
  else 36

/-- The digits at the front and what comes after them. An underscore among the digits has to stand
between two of them. -/
def leadingDigits? (base : Nat) : List Char → Option (List Nat × List Char)
  | [] => some ([], [])
  | c :: '_' :: rest =>
    if digitOf c < base then do
      let (ds, after) ← leadingDigits? base rest
      if ds.isEmpty then none else some (digitOf c :: ds, after)
    else some ([], c :: '_' :: rest)
  | c :: rest =>
    if digitOf c < base then (leadingDigits? base rest).map fun r => (digitOf c :: r.1, r.2)
    else some ([], c :: rest)

/-- The letters that may follow a zero to say which base a numeral is in. -/
def baseMarks : List (Char × Nat) := [('x', 16), ('o', 8), ('b', 2)]

/-- The base that a numeral names itself, with the digits after the mark. One underscore may follow
the mark. -/
def markedBase? : List Char → Option (Nat × List Char)
  | '0' :: mark :: '_' :: ds => (baseMarks.lookup mark.toLower).map fun base => (base, ds)
  | '0' :: mark :: ds => (baseMarks.lookup mark.toLower).map fun base => (base, ds)
  | _ => none

/-- The base of a numeral and its digits. Base zero leaves the choice to the numeral, which is
decimal without a mark. -/
def digitsInBase (base : Nat) (ds : List Char) : Nat × List Char :=
  match markedBase? ds with
  | some (named, rest) => if base = 0 ∨ base = named then (named, rest) else (base, ds)
  | none => (if base = 0 then 10 else base, ds)

/-- The bases in which a numeral may have any number of digits. -/
def unlimitedBases : List Nat := [2, 4, 8, 16, 32]

/-- The whole number that a text stands for in a base. A numeral that leaves its base open and names
none has no zeros in front. -/
def readWhole (base : Nat) (t : Text) : Except NumeralFault Int :=
  let (negative, cs) := Real.splitSign ((plainNumeral t).dropWhile isPlainBlank)
  let (actual, cs) := digitsInBase base cs
  match leadingDigits? actual cs with
  | none => .error .malformed
  | some (ds, rest) =>
    let isMisleading := base = 0 && actual = 10 && ds.head? = some 0 && ds.any (· ≠ 0)
    if digitLimit < ds.length && !unlimitedBases.contains actual then .error (.tooLong ds.length)
    else if ds.isEmpty || isMisleading || !rest.all isPlainBlank then .error .malformed
    else
      let n : Int := (ds.foldl (fun n d => actual * n + d) 0 : Nat)
      .ok (if negative then -n else n)

def toInt? (t : Text) : Option Int := (readWhole 10 t).toOption

/-- The exponent at the front, if one is there, and what comes after it. -/
def leadingExponent : List Char → Int × List Char
  | [] => (0, [])
  | c :: rest =>
    let (negative, after) := Real.splitSign rest
    let ds := after.takeWhile Char.isDigit
    if (c = 'e' ∨ c = 'E') ∧ !ds.isEmpty then
      let n : Int := digitsToNat ds
      (if negative then -n else n, after.drop ds.length)
    else (0, c :: rest)

/-- The words that stand for doubles without digits, longer ones before their beginnings. -/
def realWords : List (String × (Bool → Float)) :=
  [("infinity", Real.infinity), ("inf", Real.infinity), ("nan", fun _ => Real.nan)]

/-- The double at the front, and what comes after it. -/
def leadingReal? (text : List Char) : Option (Float × List Char) :=
  let (negative, cs) := Real.splitSign text
  let word := realWords.find? fun w => w.1.toList.isPrefixOf (cs.map Char.toLower)
  let whole := cs.takeWhile Char.isDigit
  let (places, rest) :=
    match cs.drop whole.length with
    | '.' :: r => (r.takeWhile Char.isDigit, r.dropWhile Char.isDigit)
    | r => ([], r)
  match word with
  | some (w, value) => some (value negative, cs.drop w.length)
  | none =>
    if whole.isEmpty && places.isEmpty then none
    else
      let (e, rest) := leadingExponent rest
      some (Real.ofDecimal negative (digitsToNat (whole ++ places)) (e - places.length), rest)

/-- The characters of a number of parts, its blanks and underscores removed. -/
def realBody (t : Text) : Option (List Char) :=
  dropUnderscores Char.isDigit none (trimPlain (plainNumeral t))

def toFloat? (t : Text) : Option Float := do
  let (x, rest) ← leadingReal? (← realBody t)
  if rest.isEmpty then some x else none

/-- The two parts of a complex number, the second of which is marked by a letter. -/
def complexParts? (cs : List Char) : Option (Float × Float) :=
  let isMark (c : Char) : Bool := c = 'j' ∨ c = 'J'
  match leadingReal? cs with
  | some (x, []) => some (x, 0.0)
  | some (x, c :: rest) =>
    if isMark c then (if rest.isEmpty then some (0.0, x) else none)
    else if c ≠ '+' ∧ c ≠ '-' then none
    else
      match leadingReal? (c :: rest) with
      | some (y, [mark]) => if isMark mark then some (x, y) else none
      | some _ => none
      | none =>
        match rest with
        | [mark] => if isMark mark then some (x, if c = '-' then -1.0 else 1.0) else none
        | _ => none
  | none =>
    match cs with
    | [mark] => if isMark mark then some (0.0, 1.0) else none
    | [sign, mark] =>
      if isMark mark then
        if sign = '+' then some (0.0, 1.0) else if sign = '-' then some (0.0, -1.0) else none
      else none
    | _ => none

/-- The parts of the complex number that a text stands for, perhaps between parentheses. -/
def toComplex? (t : Text) : Option (Float × Float) := do
  let cs ← realBody t
  match cs with
  | '(' :: rest =>
    match rest.reverse with
    | ')' :: inner => complexParts? (trimPlain inner.reverse)
    | _ => none
  | cs => complexParts? cs

end MorphEngine.Text
