import MorphEngine.Value

/-!
What arrays and their elements show: their dimensions, how far apart their elements lie, what is
left of them when the dimensions are taken in another order, and their parts as complex numbers.
Elements are listed row by row, the last dimension being the innermost, however they lie in memory.
-/

namespace MorphEngine

namespace Extent

/-- The number of elements. -/
def count (shape : List Nat) : Nat := shape.foldl (· * ·) 1

/-- The distances between neighbours along each dimension when rows lie together. Empty dimensions
count as if they held one element. -/
def rowStrides (width : Nat) : List Nat → List Nat
  | [] => []
  | _ :: rest => width * count (rest.filter (· ≠ 0)) :: rowStrides width rest

/-- The distances between neighbours along each dimension. The order matters only to arrays that
have elements and more than one dimension to order. -/
def strides (order : AxisOrder) (width : Nat) (shape : List Nat) : List Nat :=
  let isOrdered := !shape.contains 0 && 2 ≤ (shape.filter (1 < ·)).length
  if order = .byColumns ∧ isOrdered then (rowStrides width shape.reverse).reverse
  else rowStrides width shape

def flip : AxisOrder → AxisOrder
  | .byRows => .byColumns
  | .byColumns => .byRows

/-- The first `n` runs of `width` items. -/
def runs {α : Type} (n width : Nat) (xs : List α) : List (List α) :=
  (List.range n).map fun i => (xs.drop (width * i)).take width

/-- The items under the dimensions in reverse order. -/
def transposed {α : Type} : List Nat → List α → List α
  | [], xs => xs
  | n :: rest, xs =>
    let rows := (runs n (count rest) xs).map (transposed rest)
    (List.range (count rest)).flatMap fun j => rows.filterMap (·[j]?)

/-- The items with the last two dimensions exchanged. -/
def exchanged {α : Type} : List Nat → List α → List α
  | n :: m :: k :: rest, xs =>
    (runs n (count (m :: k :: rest)) xs).flatMap (exchanged (m :: k :: rest))
  | shape, xs => transposed shape xs

/-- The dimensions with the last two exchanged. -/
def exchangedShape (shape : List Nat) : List Nat :=
  match shape.reverse with
  | a :: b :: rest => (b :: a :: rest).reverse
  | _ => shape

/-- The name of an element type as arrays show it. -/
def typeLook (t : ElementType) : Text :=
  let code : Text :=
    ⟨t.code.points.dropWhile (· = Text.ofChar '|')⟩
  match t with
  | .flag => "'bool'"
  | .signed n false => "'int" ++ Text.ofNat (8 * n) ++ "'"
  | .unsigned n false => "'uint" ++ Text.ofNat (8 * n) ++ "'"
  | .floating n false => "'float" ++ Text.ofNat (8 * n) ++ "'"
  | .complex n false => "'complex" ++ Text.ofNat (8 * n) ++ "'"
  | .record fields =>
    let one (f : ElementType × Nat) : Text :=
      "('f" ++ Text.ofNat f.2 ++ "', '" ++ f.1.code ++ "')"
    "[" ++ Text.join ", " (fields.zipIdx.map one) ++ "]"
  | _ => "'" ++ code ++ "'"

def typeThing (look : Text) : Value := .thing ⟨"numpy", "dtype"⟩ ("dtype(" ++ look ++ ")")

/-- What arrays and their elements show alike. -/
def common? (look : Text) (order : AxisOrder) (shape : List Nat) (width : Nat) (name : Text) :
    Option Value :=
  let numbers (ns : List Nat) : Value := .tuple (ns.map .ofNat)
  if name = "shape" then some (numbers shape)
  else if name = "strides" then some (numbers (strides order width shape))
  else if name = "size" then some (.ofNat (count shape))
  else if name = "ndim" then some (.ofNat shape.length)
  else if name = "itemsize" then some (.ofNat width)
  else if name = "nbytes" then some (.ofNat (count shape * width))
  else if name = "dtype" then some (typeThing look)
  else if name = "device" then some (.text "cpu")
  else if name = "base" then some .none
  else none

/-- The type and the bytes of the real parts of some elements, or of their imaginary parts. Numbers
that are not complex have nothing but zeros for the latter. -/
def half (t : ElementType) (isReal : Bool) (elements : List (List UInt8)) :
    ElementType × List (List UInt8) :=
  match t with
  | .complex n big =>
    (.floating (n / 2) big,
      elements.map fun bs => if isReal then bs.take (n / 2) else bs.drop (n / 2))
  | t => (t, if isReal then elements else elements.map fun bs => bs.map fun _ => 0)

/-- What an array shows. -/
def array? (t : ElementType) (shape : List Nat) (bs : List UInt8) (order : AxisOrder)
    (name : Text) : Option Value :=
  let elements := runs (count shape) t.size bs
  let parts (isReal : Bool) : Value :=
    let (t, parts) := half t isReal elements
    .array t shape parts.flatten order
  if name = "T" then
    some (.array t shape.reverse (transposed shape elements).flatten (flip order))
  else if name = "mT" ∧ 2 ≤ shape.length then
    some (.array t (exchangedShape shape) (exchanged shape elements).flatten (flip order))
  else if name = "real" then some (parts true)
  else if name = "imag" then some (parts false)
  else common? (typeLook t) order shape t.size name

/-- What an array of values shows. -/
def objectArray? (shape : List Nat) (xs : List Value) (name : Text) : Option Value :=
  if name = "T" then some (.objectArray shape.reverse (transposed shape xs))
  else if name = "mT" ∧ 2 ≤ shape.length then
    some (.objectArray (exchangedShape shape) (exchanged shape xs))
  else if name = "real" then some (.objectArray shape xs)
  else if name = "imag" then some (.objectArray shape (xs.map fun _ => .int 0))
  else common? "'O'" .byRows shape 8 name

/-- What an element of an array shows. -/
def scalar? (s : Scalar) (name : Text) : Option Value :=
  let isWhole : Bool :=
    match s.type with
    | .signed _ _ | .unsigned _ _ | .duration _ _ => true
    | _ => false
  let part (isReal : Bool) : Value :=
    let (t, parts) := half s.type isReal [s.bytes]
    .scalar ⟨t, parts.flatten⟩
  if name = "T" then some (.scalar s)
  else if name = "real" then some (part true)
  else if name = "imag" then some (part false)
  else if isWhole ∧ name = "numerator" then some (.scalar s)
  else if isWhole ∧ name = "denominator" then some (.int 1)
  else common? (typeLook s.type) .byRows [] s.bytes.length name

end Extent

end MorphEngine
