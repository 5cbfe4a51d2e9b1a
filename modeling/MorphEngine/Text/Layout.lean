import MorphEngine.Text.Numeral

/-!
How a text or a number is fitted into a field. A layout is itself written as a short text of nine
parts in a fixed order, each of which can be missing: fill and alignment, sign, the sign of zero,
an alternate form, zeros as fill, width, separator, precision, and a code for the kind of writing.
What is too wide for a field sticks out.
-/

namespace MorphEngine

inductive Alignment where
  | left
  | right
  | middle
  /-- With the fill between the sign and the digits. -/
  | inside
deriving DecidableEq

/-- What stands in front of a number that is not negative. -/
inductive SignRule where
  | nothing
  | plus
  | blank
deriving DecidableEq

/-- What stands between groups of digits. -/
inductive Separator where
  | comma
  | underscore
deriving DecidableEq

def Separator.char : Separator → Char
  | .comma => ','
  | .underscore => '_'

structure Layout where
  fill : CodePoint
  align : Alignment
  sign : Option SignRule
  /-- Whether a zero loses its sign. -/
  unsignedZero : Bool
  alternate : Bool
  width : Nat
  separator : Option Separator
  precision : Option Nat
  code : Option CodePoint

namespace Layout

/-! ### What can be wrong -/

/-- A part of a layout that some kinds of writing do not have. -/
inductive Feature where
  | sign
  | blankSign
  | unsignedZero
  | alternate
  | inside
  | insideFlag
  | precision
  | zeroFill
deriving DecidableEq

/-- What a layout is used for when it has a part that does not belong there. -/
inductive Target where
  | text
  | whole
  | character
  | complex
deriving DecidableEq

inductive Flaw where
  | tooManyDigits
  | bothSeparators
  | missingPrecision
  | unread
  | separated (separator : Separator) (code : CodePoint)
  | unknownCode (code : CodePoint)
  | refused (feature : Feature) (target : Target)
  | precisionTooBig

def Feature.refusal : Feature → Text
  | .sign => "Sign not allowed"
  | .blankSign => "Space not allowed"
  | .unsignedZero => "Negative zero coercion (z) not allowed"
  | .alternate => "Alternate form (#) not allowed"
  | .inside => "'=' alignment not allowed"
  | .insideFlag => "'=' alignment flag is not allowed"
  | .precision => "Precision not allowed"
  | .zeroFill => "Zero padding is not allowed"

def Target.place : Target → Text
  | .text => " in string format specifier"
  | .whole => " in integer format specifier"
  | .character => " with integer format specifier 'c'"
  | .complex => " in complex format specifier"

/-- A code in a message: as it is, or by its number. -/
def codeText (c : CodePoint) : Text :=
  if 32 < c.val ∧ c.val < 128 then ⟨[c]⟩
  else "\\x" ++ Text.ofChars (Nat.toDigits 16 c.val)

/-- The message about a flaw in a layout as it was written, for values of a class. -/
def Flaw.message (written kind : Text) : Flaw → Text
  | .tooManyDigits => "Too many decimal digits in format string"
  | .bothSeparators => "Cannot specify both ',' and '_'."
  | .missingPrecision => "Format specifier missing precision"
  | .unread => "Invalid format specifier '" ++ written ++ "' for object of type '" ++ kind ++ "'"
  | .separated s c =>
    "Cannot specify '" ++ Text.ofChars [s.char] ++ "' with '" ++ codeText c ++ "'."
  | .unknownCode c =>
    "Unknown format code '" ++ codeText c ++ "' for object of type '" ++ kind ++ "'"
  | .refused feature target => feature.refusal ++ target.place
  | .precisionTooBig => "precision too big"

/-! ### Reading -/

def alignments : List (CodePoint × Alignment) :=
  [(Text.ofChar '<', .left), (Text.ofChar '>', .right), (Text.ofChar '^', .middle),
    (Text.ofChar '=', .inside)]

def signRules : List (CodePoint × SignRule) :=
  [(Text.ofChar '-', .nothing), (Text.ofChar '+', .plus), (Text.ofChar ' ', .blank)]

/-- What the code point at the front stands for in a table, and the rest. -/
def takeFrom {α : Type} (table : List (CodePoint × α)) : List CodePoint → Option α × List CodePoint
  | [] => (none, [])
  | c :: rest =>
    match table.lookup c with
    | some a => (some a, rest)
    | none => (none, c :: rest)

/-- Whether a character stands at the front, and the rest. -/
def takeChar (c : Char) (cs : List CodePoint) : Bool × List CodePoint :=
  let (found, rest) := takeFrom [(Text.ofChar c, ())] cs
  (found.isSome, rest)

/-- A fill and an alignment, an alignment alone, or neither. -/
def takeAlignment (cs : List CodePoint) : Option CodePoint × Option Alignment × List CodePoint :=
  match cs with
  | fill :: mark :: rest =>
    match alignments.lookup mark with
    | some a => (some fill, some a, rest)
    | none => (none, takeFrom alignments cs)
  | cs => (none, takeFrom alignments cs)

/-- The numbers that a width or a precision stays below. -/
def numberLimit : Nat := 0x8000000000000000

/-- The number at the front, in digits of any kind, and the rest. -/
def takeNumber (cs : List CodePoint) : Except Flaw (Option Nat × List CodePoint) :=
  let ds := (cs.takeWhile fun c => (Text.digitValue? c).isSome).filterMap Text.digitValue?
  let n := ds.foldl (fun n d => 10 * n + d) 0
  if numberLimit ≤ n then .error .tooManyDigits
  else .ok (if ds.isEmpty then none else some n, cs.drop ds.length)

def isCode (codes : String) (c : CodePoint) : Bool := codes.toList.any fun k => Text.ofChar k = c

/-- Whether digits are written in a base that is a power of two. -/
def isBinary (l : Layout) : Bool := l.code.any (isCode "boxX")

/-- Whether a separator can stand between digits written in the way of a code. -/
def Separator.fits (s : Separator) (code : Option CodePoint) : Bool :=
  match code with
  | none => true
  | some c => isCode "deEfFgG%" c || (s == .underscore && isCode "boxX" c)

/-- Reads a layout, given the code and the alignment that it has when it names none. Numbers are
aligned to the right, and zeros as fill go behind their sign. -/
def read (code : Option CodePoint) (align : Alignment) (cs : List CodePoint) :
    Except Flaw Layout := do
  let (fill, aligned, cs) := takeAlignment cs
  let (sign, cs) := takeFrom signRules cs
  let (unsignedZero, cs) := takeChar 'z' cs
  let (alternate, cs) := takeChar '#' cs
  let (zeros, cs) := if fill.isSome then (false, cs) else takeChar '0' cs
  let (width, cs) ← takeNumber cs
  let (comma, cs) := takeChar ',' cs
  let (underscore, cs) := takeChar '_' cs
  if underscore && (comma || (takeChar ',' cs).1) then throw .bothSeparators
  let (pointed, cs) := takeChar '.' cs
  let (precision, cs) ← if pointed then takeNumber cs else pure (none, cs)
  if pointed && precision.isNone then throw .missingPrecision
  if 1 < cs.length then throw .unread
  let separator : Option Separator :=
    if comma then some .comma else if underscore then some .underscore else none
  let code := cs.head?.or code
  match separator, code with
  | some s, some c => if !Separator.fits s code then throw (.separated s c)
  | _, _ => pure ()
  return {
    fill := fill.getD (Text.ofChar (if zeros then '0' else ' '))
    align := aligned.getD (if zeros && align = .right then .inside else align)
    sign, unsignedZero, alternate, width := width.getD 0, separator, precision, code }

/-! ### Use -/

/-- A body behind its front in the field of the layout. -/
def place (l : Layout) (front body : List CodePoint) : List CodePoint :=
  let gap := l.width - (front.length + body.length)
  let filled (n : Nat) : List CodePoint := List.replicate n l.fill
  match l.align with
  | .left => front ++ body ++ filled gap
  | .right => filled gap ++ front ++ body
  | .middle => filled (gap / 2) ++ front ++ body ++ filled (gap - gap / 2)
  | .inside => front ++ filled gap ++ body

/-- Fails for the first of some parts that a layout has and that do not belong there. -/
def refuse (target : Target) (parts : List (Bool × Feature)) : Except Flaw Unit :=
  match parts.find? (·.1) with
  | some (_, feature) => .error (.refused feature target)
  | none => .ok ()

/-- Fails when the layout has a part that texts do not have. -/
def checkForText (l : Layout) : Except Flaw Unit :=
  refuse .text
    [(l.sign = some .blank, .blankSign), (l.sign.isSome, .sign), (l.unsignedZero, .unsignedZero),
      (l.alternate, .alternate), (l.align = .inside, .inside)]

/-- A text in a field, cut off at the precision. -/
def text (l : Layout) (t : Text) : Text :=
  ⟨l.place [] (l.precision.elim t.points fun n => t.points.take n)⟩

/-- A number as it goes into a field: its sign, a mark in front of its digits, the digits that can
be grouped, and the rest. -/
structure Numeral where
  negative : Bool
  mark : List CodePoint
  whole : List CodePoint
  rest : List CodePoint

/-- How many digits take a number of places, or one more, when they are grouped: a separator never
comes first. -/
def digitsIn (size places : Nat) : Nat := places - (places - 1) / (size + 1)

/-- Digits in groups of a size, counted from the right. -/
def grouped (separator : CodePoint) (size : Nat) (ds : List CodePoint) : List CodePoint :=
  ds.zipIdx.flatMap fun d =>
    if d.2 ≠ 0 ∧ (ds.length - d.2) % size = 0 then [separator, d.1] else [d.1]

/-- What stands in front of the digits of a number. -/
def front (l : Layout) (n : Numeral) : List CodePoint :=
  let sign : List Char :=
    match n.negative, l.sign with
    | true, _ => ['-']
    | false, some .plus => ['+']
    | false, some .blank => [' ']
    | false, _ => []
  sign.map Text.ofChar ++ n.mark

/-- A number in a field. Zeros between its sign and its digits count as digits. -/
def numeral (l : Layout) (n : Numeral) : List CodePoint :=
  let front := l.front n
  let zero := Text.ofChar '0'
  let least :=
    if l.fill = zero ∧ l.align = .inside then l.width - (front.length + n.rest.length) else 0
  let size := if l.isBinary then 4 else 3
  let least := if l.separator.isSome then digitsIn size least else least
  let ds := List.replicate (least - n.whole.length) zero ++ n.whole
  let ds := l.separator.elim ds fun s => grouped (Text.ofChar s.char) size ds
  l.place front ((if n.whole.isEmpty then [] else ds) ++ n.rest)

end Layout

end MorphEngine
