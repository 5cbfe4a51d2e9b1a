import MorphEngine.Value.ArrayText
import MorphEngine.Value.Equality

/-!
How values are shown in messages: `shown` writes a value so that its parts can be told apart,
`plain` writes a text without quotes. Neither exists for a value holding a whole number of more than
4300 digits.
-/

namespace MorphEngine.Value

def shownInt (n : Int) : Option Text :=
  if Number.isUnwritable n then Option.none else some (Text.ofInt n)

/-- The shown value behind a member of an enumeration. -/
def memberLabel (m : Member) : Text :=
  match m.value with
  | .int n => Text.ofInt n
  | .text t => t.quoted

def memberPath (m : Member) : Text := m.owner.name ++ "." ++ m.name

def shownBuiltin (b : Builtin) : Text :=
  match b.sort with
  | .constant => b.owner.name
  | .function => "<built-in function " ++ b.owner.name ++ ">"
  | .enumeration => "<enum " ++ Text.quoted b.owner.name ++ ">"
  | .type | .abstractType =>
    let path :=
      if b.owner.module = "builtins" then b.owner.name
      else b.owner.module ++ "." ++ b.owner.name
    "<class " ++ Text.quoted path ++ ">"

/-- What stands for a container that is shown inside itself. -/
def cellMark (owner : ClassName) : Text :=
  if owner = .builtin "list" then "[...]"
  else if owner = .builtin "tuple" then "(...)"
  else if owner = .builtin "dict" then "\x7b...\x7d"
  else "..."

/-- A morph, builder or catalog as shown, given its name as shown. -/
def shownPart (kind : PartKind) (name : Text) (fs : List (Text × Value)) (size : Nat) : Text :=
  let state : Text :=
    match fs.lookup ("frozen" : Text) with
    | some (.bool true) => "built"
    | _ => "open"
  match kind with
  | .morph _ => kind.name ++ "(" ++ name ++ ")"
  | .builder => kind.name ++ "(" ++ name ++ ", stages=" ++ Text.ofNat size ++ ", " ++ state ++ ")"
  | .catalog => kind.name ++ "(" ++ Text.ofNat size ++ " records)"

/-- The name of a morph. -/
def partName? : Value → Option Value
  | .part _ _ fs _ => fs.lookup ("name" : Text)
  | _ => Option.none

mutual

def shown : Value → Option Text
  | .none => some "None"
  | .bool b => some (if b then "True" else "False")
  | .int n => shownInt n
  | .real x => some (Real.decimalText x)
  | .complex re im => some (Real.complexText .double (Real.parts re) (Real.parts im))
  | .text t => some (Text.quoted t)
  | .bytes bs => some (Text.quotedBytes bs)
  | .buffer bs => some ("bytearray(" ++ Text.quotedBuffer bs ++ ")")
  | .list xs => do return "[" ++ Text.join ", " (← shownAll xs) ++ "]"
  | .tuple xs => do
    match ← shownAll xs with
    | [x] => return "(" ++ x ++ ",)"
    | ts => return "(" ++ Text.join ", " ts ++ ")"
  | .pair a b => do return "Pair(a=" ++ (← shown a) ++ ", b=" ++ (← shown b) ++ ")"
  | .table es => do return "\x7b" ++ Text.join ", " (← shownEntries es) ++ "\x7d"
  | .emptyContext => some "mappingproxy(\x7b\x7d)"
  | .set xs => do
    match ← shownAll xs with
    | [] => return "set()"
    | ts => return "\x7b" ++ Text.join ", " ts ++ "\x7d"
  | .frozenSet xs => do
    match ← shownAll xs with
    | [] => return "frozenset()"
    | ts => return "frozenset(\x7b" ++ Text.join ", " ts ++ "\x7d)"
  | .member m => some ("<" ++ memberPath m ++ ": " ++ memberLabel m ++ ">")
  | .object owner fs => do
    return owner.name ++ "(" ++ Text.join ", " (← shownFields fs) ++ ")"
  | .attributes _ => some "<Ctx>"
  | .sealed kind => some ("<opaque " ++ kind ++ ">")
  | .builtin b => some (shownBuiltin b)
  | .array t shape bs _ => some (shownArray t shape bs)
  | .objectArray shape xs => do return shownObjects shape (← shownItems xs)
  | .scalar s => some (shownScalar s)
  | .function _ _ => some "<function>"
  | .part kind _ fs members => do return shownPart kind (← shownFirst fs) fs members.length
  | .stage label morph => do
    let heading ← shown label
    let name ← shownName morph
    if label.text? == morph.partName?.bind Value.text? then return "Stage(" ++ heading ++ ")"
    else return "Stage(" ++ heading ++ ", morph=" ++ name ++ ")"
  | .failure kind arguments => do
    return kind ++ "(" ++ Text.join ", " (← shownAll arguments) ++ ")"
  | .awaitable _ => some "<coroutine>"
  | .cell _ owner => some (cellMark owner)
  | .marked _ v => shown v
  | .operation name _ => some ("<operation " ++ name ++ ">")
  | .thing _ look => some look

/-- The shown name of a morph, which is its first attribute. -/
def shownName : Value → Option Text
  | .part _ _ fs _ => shownFirst fs
  | _ => some ""

def shownFirst : List (Text × Value) → Option Text
  | (_, v) :: _ => shown v
  | [] => some ""

def shownAll : List Value → Option (List Text)
  | [] => some []
  | x :: xs => do return (← shown x) :: (← shownAll xs)

/-- The values of an array; a list among them is told from a dimension of the array. -/
def shownItems : List Value → Option (List Text)
  | [] => some []
  | x :: xs => do
    let t ← shown x
    return (if x matches .list _ then "list(" ++ t ++ ")" else t) :: (← shownItems xs)

def shownEntries : List (Value × Value) → Option (List Text)
  | [] => some []
  | (k, v) :: es => do return ((← shown k) ++ ": " ++ (← shown v)) :: (← shownEntries es)

def shownFields : List (Text × Value) → Option (List Text)
  | [] => some []
  | (n, v) :: fs => do return (n ++ "=" ++ (← shown v)) :: (← shownFields fs)

end

/-- A value as running text: texts without quotes and members by their number or path. -/
def plain (v : Value) : Option Text :=
  match v.bare with
  | .text t => some t
  | .member m =>
    match m.value, m.isValue with
    | .int n, true => some (Text.ofInt n)
    | _, _ => some (memberPath m)
  | .scalar s => some (scalarText s)
  | .array t shape bs _ => some (plainArray t shape bs)
  | .objectArray [] [v] => plainArgument v
  | .objectArray shape xs => do return plainObjects shape (← shownItems xs)
  | .emptyContext => some "\x7b\x7d"
  | .failure _ [] => some ""
  | .failure _ [v] => plainArgument v
  | .failure _ vs => shown (.tuple vs)
  | v => v.shown
where
  plainArgument : Value → Option Text
    | .text t => some t
    | v => v.shown

end MorphEngine.Value
