import MorphEngine.Real.Column
import MorphEngine.Value.ScalarText

/-!
Arrays as text. All elements are written alike, so that they stand in columns, whole numbers to the
right. A shown array tells its element type unless that is the usual one for such elements, and its
dimensions when they are not to be seen.
-/

namespace MorphEngine.Value

/-! ### Columns of elements -/

/-- Complex numbers, the columns of their parts side by side. The unit stands right behind the
digits. -/
def complexWords (size : Nat) (zs : List (Real.Parts × Real.Parts)) : List Text :=
  let re := Real.FloatColumn.ofParts size false (zs.map (·.1))
  let im := Real.FloatColumn.ofParts size true (zs.map (·.2))
  zs.map fun z =>
    let t := im.text z.2
    let digits := t.trimEnd
    re.text z.1 ++ digits ++ "j" ++ Text.blanks (t.length - digits.length)

/-- Texts to the right of a column. -/
def rightAligned (ts : List Text) : List Text :=
  ts.map (Text.padLeft (Real.FloatColumn.greatest (ts.map Text.length)))

/-- Times in quotes, and those that are missing. -/
def timeWords (text : Int → Text) (ns : List Int) : List Text :=
  rightAligned (ns.map fun n => if n = Moment.missing then "'NaT'" else text n)

mutual

/-- The elements of a type as they stand in an array, given by their bytes. -/
def elementWords (isAlone : Bool) : ElementType → List (List UInt8) → List Text
  | .record fields, elements =>
    fieldColumns isAlone fields elements (elements.map fun _ => []) |>.map tupled
  | t, elements =>
    let scalars := elements.map fun bs => (Scalar.mk t bs).little
    match t with
    | .flag =>
      scalars.map fun s => if s.bytes = [0] then "False" else if isAlone then "True" else " True"
    | .signed _ _ | .unsigned _ _ => rightAligned (scalars.map simpleText)
    | .floating n _ =>
      let xs := scalars.filterMap fun s => Scalar.parts? s.bytes
      xs.map (Real.FloatColumn.ofParts n false xs).text
    | .complex n _ => complexWords (n / 2) (scalars.filterMap fun s => complexParts? n s.bytes)
    | .text _ _ => scalars.map fun s => Text.quoted (Scalar.toText s.bytes)
    | .instant unit _ =>
      timeWords (fun n => "'" ++ Moment.pointText (.ofCode unit) n ++ "'")
        (scalars.map fun s => Scalar.toInt s.bytes)
    | .duration _ _ => timeWords Text.ofInt (scalars.map fun s => Scalar.toInt s.bytes)
    | _ => scalars.map simpleText

/-- The fields of some records, behind those that are written already. -/
def fieldColumns (isAlone : Bool) :
    List ElementType → List (List UInt8) → List (List Text) → List (List Text)
  | [], _, done => done
  | t :: rest, elements, done =>
    let words := elementWords isAlone t (elements.map (·.take t.size))
    fieldColumns isAlone rest (elements.map (·.drop t.size))
      ((done.zip words).map fun p => p.1 ++ [p.2])

end

/-! ### Arrays -/

/-- The number of elements above which an array is cut short. -/
def fullSize : Nat := 1000

/-- The places of the elements that are shown. -/
def shownElements (isCut : Bool) : List Nat → Nat → List Nat
  | [], place => [place]
  | n :: rest, place =>
    ((Text.Grid.shownPlaces isCut n).filterMap id).flatMap fun i =>
      shownElements isCut rest (place + Extent.count rest * i)

/-- Dimensions as a tuple. -/
def shapeText (shape : List Nat) : Text := tupled (shape.map Text.ofNat)

/-- The element type as a shown array tells it, unless that is the usual one. -/
def typeRemark? (t : ElementType) : Option Text :=
  match t with
  | .flag | .signed 8 false | .floating 8 false | .complex 16 false => Option.none
  | .bytes n => some ("'|S" ++ Text.ofNat n ++ "'")
  | .blank n => some ("'|V" ++ Text.ofNat n ++ "'")
  | .instant unit false => some ("'datetime64" ++ unit ++ "'")
  | .duration unit false => some ("'timedelta64" ++ unit ++ "'")
  | .text _ _ | .signed _ true | .unsigned _ true | .floating _ true | .complex _ true
  | .instant _ true | .duration _ true | .record _ => some (Extent.typeLook t)
  | t => some (scalarLook t)
where
  /-- The name of a type of numbers. -/
  scalarLook (t : ElementType) : Text :=
    (Extent.typeLook t).trim (· = Text.ofChar '\'')

/-- The longest line of a text about an array. -/
def lineWidth : Nat := 75

/-- The words of some elements laid out, given what is shown in front of them and behind. -/
def laidOut (shape : List Nat) (separator : Text) (before behind : Nat)
    (words : List Nat → List Text) : Text :=
  let isCut := fullSize < Extent.count shape
  if Extent.count shape = 0 then "[]"
  else
    let places := shownElements isCut shape 0
    let known := places.zip (words places)
    Text.Grid.layOut ⟨separator, lineWidth - behind, before⟩ isCut shape fun i =>
      (known.lookup i).getD .empty

/-- A shown array: its elements, its dimensions when they are not to be seen, and its element type.
-/
def arrayLook (shape : List Nat) (remark : Option Text) (always : Text)
    (words : List Nat → List Text) : Text :=
  let count := Extent.count shape
  let body := "array(" ++ laidOut shape ", " 6 1 words
  let shapeRemark : List Text :=
    if count = 0 ∧ shape ≠ [0] ∨ fullSize < count then ["shape=" ++ shapeText shape] else []
  let typeRemark : List Text :=
    match remark with
    | some t => ["dtype=" ++ t]
    | Option.none => if count = 0 then ["dtype=" ++ always] else []
  match shapeRemark ++ typeRemark with
  | [] => body ++ ")"
  | remarks =>
    let body := body ++ ","
    let remarks := Text.join ", " remarks ++ ")"
    let last := ((body.lines).getLastD .empty).length
    if lineWidth < last + remarks.length + 1 then
      body ++ ⟨[Text.newline]⟩ ++ Text.blanks 6 ++ remarks
    else body ++ " " ++ remarks

/-- The words of the elements at some places. -/
def wordsAt (t : ElementType) (shape : List Nat) (bs : List UInt8) (places : List Nat) :
    List Text :=
  elementWords shape.isEmpty t (places.map fun i => (bs.drop (t.size * i)).take t.size)

def shownArray (t : ElementType) (shape : List Nat) (bs : List UInt8) : Text :=
  arrayLook shape (typeRemark? t) (typeRemark?.scalarLook t) (wordsAt t shape bs)

/-- An array as running text; without dimensions it is its element. -/
def plainArray (t : ElementType) (shape : List Nat) (bs : List UInt8) : Text :=
  let element := (Scalar.mk t bs).little
  match shape, t with
  | [], .bytes _ => shownScalar element
  | [], _ => scalarText element
  | shape, t => laidOut shape " " 0 0 (wordsAt t shape bs)

/-- The words at some places of an array of values, given those of all of them. -/
def pick (words : List Text) (places : List Nat) : List Text :=
  places.map fun i => words.getD i .empty

def shownObjects (shape : List Nat) (words : List Text) : Text :=
  arrayLook shape (some "object") "object" (pick words)

def plainObjects (shape : List Nat) (words : List Text) : Text := laidOut shape " " 0 0 (pick words)

end MorphEngine.Value
