import MorphEngine.Fault

/-!
Members of values: truth, length, iteration, and look-up and insertion by key. Keys must be
hashable, which containers that can change are not. A key that nests too deep can be put in and can
be missed, but not found again, since that takes a comparison.
-/

namespace MorphEngine.Value

mutual

/-- A member of the value, the value itself included, that cannot be a key. -/
def unhashable? : Value → Option Value
  | .list xs => some (.list xs)
  | .table es => some (.table es)
  | .emptyContext => some .emptyContext
  | .set xs => some (.set xs)
  | .buffer bs => some (.buffer bs)
  | .array t s bs order => some (.array t s bs order)
  | .objectArray s xs => some (.objectArray s xs)
  | .scalar ⟨.blank n, bs⟩ => some (.scalar ⟨.blank n, bs⟩)
  | .object owner fs =>
    if owner.isFrozen then unhashableField? fs else some (.object owner fs)
  | .tuple xs => unhashableIn? xs
  | .pair a b => (unhashable? a).orElse fun _ => unhashable? b
  | .cell i owner => some (.cell i owner)
  | .marked _ v => unhashable? v
  | _ => Option.none

def unhashableIn? : List Value → Option Value
  | [] => Option.none
  | x :: xs => (unhashable? x).orElse fun _ => unhashableIn? xs

def unhashableField? : List (Text × Value) → Option Value
  | [] => Option.none
  | (_, v) :: fs => (unhashable? v).orElse fun _ => unhashableField? fs

end

/-- What the fault of taking a value for a key calls it. -/
def unhashableName : Value → Text
  | .scalar _ => "writeable void-scalar"
  | v => v.longTypeName

/-- Fails when the value cannot be a key. -/
def checkKey (v : Value) : Except Fault Unit :=
  match v.unhashable? with
  | some u => .error (.typeError ("unhashable type: '" ++ u.unhashableName ++ "'"))
  | Option.none => .ok ()

/-- Fails when the value nests too deep to be found the same as one of the keys. -/
def checkMeeting (v : Value) (keys : List Value) : Except Fault Unit :=
  if v.isDeeperThan nestingLimit && keys.any (·.same v) then .error .tooDeepToCompare else .ok ()

/-- Fails when the value cannot be a key, or cannot be looked for among the keys. -/
def checkKeyAmong (v : Value) (keys : List Value) : Except Fault Unit := do
  v.checkKey
  v.checkMeeting keys

/-- What the entries of a mapping hold under a key. -/
def find? (entries : List (Value × Value)) (key : Value) : Option Value :=
  (entries.find? fun e => e.1.same key).map (·.2)

/-- What the entries of a mapping hold under a value, which must be one that can be a key. -/
def lookUp (entries : List (Value × Value)) (key : Value) : Except Fault (Option Value) := do
  key.checkKeyAmong (entries.map (·.1))
  return find? entries key

/-- The entries with the key set; an entry that is there keeps its place and its key. -/
def insert (key item : Value) : List (Value × Value) → List (Value × Value)
  | [] => [(key, item)]
  | (k, v) :: rest => if k.same key then (k, item) :: rest else (k, v) :: insert key item rest

/-- The entries with the value set as a key. -/
def put (entries : List (Value × Value)) (key item : Value) :
    Except Fault (List (Value × Value)) := do
  key.checkKeyAmong (entries.map (·.1))
  return insert key item entries

/-- The entries one after the other, later ones with the same key replacing earlier ones. -/
def tableOf (entries : List (Value × Value)) : Except Fault (List (Value × Value)) :=
  entries.foldlM (fun es e => put es e.1 e.2) []

/-- The members of a set with one more value, unless the same one is there. -/
def join (members : List Value) (v : Value) : Except Fault (List Value) := do
  v.checkKeyAmong members
  return if members.any (·.same v) then members else members ++ [v]

/-- The members of a set made from the values, the first of equal ones kept. -/
def setOf (xs : List Value) : Except Fault (List Value) := xs.foldlM join []

/-- Whether a float in bytes is zero. -/
def isZeroFloat (bs : List UInt8) : Bool :=
  match Scalar.parts? bs with
  | some (.finite _ 0 _) => true
  | _ => false

def truthy (v : Value) : Bool :=
  match v.bare with
  | .none => false
  | .bool b => b
  | .text t => !t.isEmpty
  | .bytes bs | .buffer bs => !bs.isEmpty
  | .list xs | .tuple xs | .set xs | .frozenSet xs => !xs.isEmpty
  | .table es => !es.isEmpty
  | .emptyContext => false
  | .part kind _ _ members => !(kind.isSized && members.isEmpty)
  | .complex re im => !((Number.real re).isZero && (Number.real im).isZero)
  | .scalar ⟨.text _ _, bs⟩ => !(Scalar.toText bs).isEmpty
  | .scalar ⟨.bytes _, bs⟩ => !(Scalar.dropZeroBytes bs).isEmpty
  | .scalar ⟨.floating _ _, bs⟩ => !isZeroFloat bs
  | .scalar ⟨.complex n _, bs⟩ =>
    !(isZeroFloat (bs.take (n / 2)) && isZeroFloat (bs.drop (n / 2)))
  | .scalar ⟨.blank _, bs⟩ | .scalar ⟨.record _, bs⟩ | .scalar ⟨.instant _ _, bs⟩
  | .scalar ⟨.duration _ _, bs⟩ => bs.any (· ≠ 0)
  | v =>
    match v.number? with
    | some n => !n.isZero
    | Option.none => true

/-- The element of an array that has no other, or the fault of having none or several. -/
def soleElement (elements : List Value) : Except Fault Value :=
  match elements with
  | [v] => .ok v
  | [] =>
    .error (.plain .value ("The truth value of an empty array is ambiguous. " ++
      "Use `array.size > 0` to check that an array is not empty."))
  | _ =>
    .error (.plain .value ("The truth value of an array with more than one element is " ++
      "ambiguous. Use a.any() or a.all()"))

/-- Whether a value counts as true. Arrays do as their only element does. -/
def truth (v : Value) : Except Fault Bool :=
  match v.bare with
  | .array type shape bs _ => do
    let places := List.range (shape.foldl (· * ·) 1)
    let v ← soleElement ((places.take 2).map fun i =>
      .scalar (Scalar.little ⟨type, (bs.drop (type.size * i)).take type.size⟩))
    return v.truthy
  | .objectArray _ xs => do return (← soleElement xs).truthy
  | v => .ok v.truthy

/-- The value, or another one in place of a value that counts as false. -/
def orElse (v fallback : Value) : Except Fault Value := do
  return if ← v.truth then v else fallback

/-- The parts of an array along its first dimension: elements, or arrays of one dimension less. -/
def arrayParts (type : ElementType) (count : Nat) (rest : List Nat) (bs : List UInt8)
    (order : AxisOrder) : List Value :=
  let width := type.size * rest.foldl (· * ·) 1
  (List.range count).map fun i =>
    let part := (bs.drop (width * i)).take width
    if rest.isEmpty then .scalar (Scalar.little ⟨type, part⟩) else .array type rest part order

def objectArrayParts (count : Nat) (rest : List Nat) (xs : List Value) : List Value :=
  if rest.isEmpty then xs
  else
    let width := rest.foldl (· * ·) 1
    (List.range count).map fun i => .objectArray rest ((xs.drop (width * i)).take width)

/-- The members that a loop over the value meets. -/
def iterate? (v : Value) : Option (List Value) :=
  match v.bare with
  | .list xs | .tuple xs | .set xs | .frozenSet xs => some xs
  | .pair a b => some [a, b]
  | .table es => some (es.map (·.1))
  | .emptyContext => some []
  | .bytes bs | .buffer bs => some (bs.map fun b => .int b.toNat)
  | .part kind _ _ members => if kind.isIterable then some members else Option.none
  | .objectArray (n :: rest) xs => some (objectArrayParts n rest xs)
  | .array type (n :: rest) bs order => some (arrayParts type n rest bs order)
  | .scalar ⟨.bytes _, bs⟩ => some ((Scalar.dropZeroBytes bs).map fun b => .int b.toNat)
  | v => v.text?.map fun t => t.points.map fun c => .text ⟨[c]⟩

/-- Whether the value takes part in loops at all; an array without dimensions does, but has no
parts. -/
def isIterable (v : Value) : Bool :=
  match v.bare with
  | .array _ _ _ _ | .objectArray _ _ => true
  | v => v.iterate?.isSome

def iterate (v : Value) : Except Fault (List Value) :=
  match v.iterate? with
  | some xs => .ok xs
  | Option.none =>
    if v.isIterable then .error (.typeError "iteration over a 0-d array")
    else .error (.typeError ("'" ++ v.longTypeName ++ "' object is not iterable"))

/-- The number of members of texts, sequences, tables and sets. -/
def length? : Value → Option Nat
  | .list xs | .tuple xs | .set xs | .frozenSet xs => some xs.length
  | .pair _ _ => some 2
  | .table es => some es.length
  | v => v.text?.map Text.length

/-- The number of members of any value that has members to count. -/
def size? (v : Value) : Option Nat :=
  match v.bare with
  | .emptyContext => some 0
  | .bytes bs | .buffer bs => some bs.length
  | .scalar ⟨.bytes _, bs⟩ => some (Scalar.dropZeroBytes bs).length
  | .array _ (n :: _) _ _ | .objectArray (n :: _) _ => some n
  | .part kind _ _ members => if kind.isSized then some members.length else Option.none
  | v => v.length?

/-- The fault of asking a value for its length that has none. -/
def unsized (v : Value) : Fault :=
  if v.isIterable && v.className.module = "numpy" then .typeError "len() of unsized object"
  else .typeError ("object of type '" ++ v.longTypeName ++ "' has no len()")

/-- The number of members of a value, or the fault of it having none to count. -/
def size (v : Value) : Except Fault Nat :=
  match v.size? with
  | some n => .ok n
  | Option.none => .error v.unsized

end MorphEngine.Value
