import MorphEngine.Text

/-!
Words laid out in rows by dimensions. The innermost rows are broken into lines that are not too
long; the rows of an outer dimension begin on lines of their own, with empty lines between larger
blocks. Every dimension is enclosed in brackets, and what stands in brackets is indented by them. A
dimension of too many places shows its first and last ones.
-/

namespace MorphEngine.Text

def blanks (n : Nat) : Text := ofChars (List.replicate n ' ')

/-- The text without blanks at its end. -/
def trimEnd (t : Text) : Text := ⟨(t.points.reverse.dropWhile (· = ofChar ' ')).reverse⟩

/-- The text after blanks up to a width. -/
def padLeft (width : Nat) (t : Text) : Text := blanks (width - t.length) ++ t

def padRight (width : Nat) (t : Text) : Text := t ++ blanks (width - t.length)

def newline : CodePoint := ofChar '\n'

def lines (t : Text) : List Text := (t.points.splitOn newline).map Text.mk

/-- How words are laid out: what stands between them, how long a line may be, and how far lines are
indented that do not begin with the first bracket. -/
structure Grid where
  separator : Text
  width : Nat
  indent : Nat

namespace Grid

/-- The lines that are done, each with its end, and the line that is being written. -/
structure Page where
  done : Text
  line : Text

/-- The line done, and another one begun. -/
def Page.turn (p : Page) (next : Text) : Page :=
  ⟨p.done ++ p.line.trimEnd ++ ⟨[newline]⟩, next⟩

/-- The page with a word on it. A word goes to a new line when that helps; a word of several lines
is indented as far as it begins, and filled up to its width. -/
def Page.write (p : Page) (width indent : Nat) (word : Text) : Page :=
  let ls := word.lines
  let longest := (ls.map length).foldl max 0
  let turns := width < p.line.length + longest && indent < p.line.length
  let p := if turns then p.turn (blanks indent) else p
  let margin := blanks p.line.length
  match ls with
  | [] | [_] => { p with line := p.line ++ word }
  | first :: rest =>
    let p := rest.foldl (fun p l => p.turn (margin ++ l)) { p with line := p.line ++ first }
    { p with line := p.line ++ blanks (longest - (ls.getLastD .empty).length) }

/-- The words of a row on lines that are indented; the first line has its indent too. -/
def row (separator : Text) (width indent : Nat) : Page → List Text → Text
  | p, [] => p.done ++ p.line
  | p, [w] =>
    let p := p.write width indent w
    p.done ++ p.line
  | p, w :: rest =>
    let p := p.write width indent w
    row separator width indent { p with line := p.line ++ separator } rest

/-- How many first and last places are shown of a dimension that is cut short. -/
def edge : Nat := 3

/-- The places of a dimension that are shown, with nothing for those left out. -/
def shownPlaces (isCut : Bool) (n : Nat) : List (Option Nat) :=
  if isCut && 2 * edge < n then
    (List.range edge).map some ++ [none] ++ (List.range edge).map fun i => some (n - edge + i)
  else (List.range n).map some

/-- What stands for the places that are left out. -/
def ellipsis : Text := "..."

/-- The words by dimensions, each of them in brackets. `words` gives the word at a place that is
counted row by row. -/
def block (g : Grid) (isCut : Bool) (words : Nat → Text) : List Nat → Nat → Nat → Nat → Text
  | [], place, _, _ => words place
  | [n], place, indent, width =>
    let ws := (shownPlaces isCut n).map fun i => i.elim ellipsis fun i => words (place + i)
    let text := row g.separator (width - 1) indent ⟨.empty, blanks indent⟩ ws
    "[" ++ ⟨text.points.drop indent⟩ ++ "]"
  | n :: rest, place, indent, width =>
    let size := rest.foldl (· * ·) 1
    let rows := (shownPlaces isCut n).map fun i =>
      blanks indent ++ i.elim ellipsis fun i =>
        block g isCut words rest (place + size * i) (indent + 1) (width - 1)
    let text := join (g.separator.trimEnd ++ ⟨List.replicate rest.length newline⟩) rows
    "[" ++ ⟨text.points.drop indent⟩ ++ "]"

/-- The words laid out, behind what the indent is for. -/
def layOut (g : Grid) (isCut : Bool) (shape : List Nat) (words : Nat → Text) : Text :=
  g.block isCut words shape 0 (g.indent + 1) g.width

end Grid

end MorphEngine.Text
