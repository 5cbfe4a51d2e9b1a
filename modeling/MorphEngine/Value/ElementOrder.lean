import MorphEngine.Value.Elements
import MorphEngine.Value.Relation

/-!
Where the elements of two values are the same, and how they are ordered. Numbers, texts, byte
strings and times are compared with their own kind, and spans of time with whole numbers too, which
count units then; objects are compared one by one. Elements of kinds that have nothing in common
have no order and differ everywhere; when both sides are single elements of that sort, the answer to
whether they are the same has no elements either.
-/

namespace MorphEngine.Value

/-- The fault of times that cannot be counted in one unit. -/
def clashing (u v : TimeUnit) : UnitClash → Fault
  | .uneven =>
    .typeError ("Cannot get a common metadata divisor for Numpy datetime metadata " ++ u.code ++
      " and " ++ v.code ++ " because they have incompatible nonlinear base time units.")
  | .overflowing =>
    .plain .overflow ("Integer overflow getting a common metadata divisor for NumPy datetime " ++
      "metadata " ++ u.code ++ " and " ++ v.code ++ ".")

def textOrder (s t : Text) : Ordering := if s.lt t then .lt else if t.lt s then .gt else .eq

def byteOrder : List UInt8 → List UInt8 → Ordering
  | [], [] => .eq
  | [], _ :: _ => .lt
  | _ :: _, [] => .gt
  | a :: s, b :: t => (compare a b).then (byteOrder s t)

namespace Elements

/-- The answers to whether single elements are ordered, with the dimensions that they have. -/
abbrev Orderings := Except Fault (List Nat × List (Option Ordering))

/-- The orders of all pairs of elements. -/
def orderedBy {α : Type} (order? : α → α → Except Fault (Option Ordering)) (a b : Elements)
    (xs ys : List α) : Orderings := do
  let (shape, pairs) ← Operand.paired a.shape b.shape xs ys
  return (shape, ← pairs.mapM fun p => order? p.1 p.2)

/-- Whether whole numbers of a type count units when they meet spans of time. -/
def countsUnits : Option ElementType → Bool
  | some (.unsigned 8 _) => false
  | some t => t.isWhole
  | Option.none => true

/-- The numbers that count units: all of them, or none when one is not whole. -/
def counts? (items : List Amount) : Option (List Int) :=
  items.mapM fun a =>
    match a with
    | .whole n => some n
    | _ => Option.none

/-- The orders of elements that have something in common, objects left out. -/
def orderings? (a b : Elements) : Option Orderings :=
  let counted (u : TimeUnit) (ms ns : List Int) : Orderings :=
    orderedBy (fun m n => (Moment.order? false u u m n).mapError (clashing u u)) a b ms ns
  match a.content, b.content with
  | .numbers xs, .numbers ys => some (Value.orderings ⟨a.type, a.shape, xs⟩ ⟨b.type, b.shape, ys⟩)
  | .texts xs, .texts ys => some (orderedBy (fun s t => .ok (some (textOrder s t))) a b xs ys)
  | .strings xs, .strings ys => some (orderedBy (fun s t => .ok (some (byteOrder s t))) a b xs ys)
  | .times isPoint u ms, .times other v ns =>
    if isPoint = other then
      let order? (m n : Int) := (Moment.order? isPoint u v m n).mapError (clashing u v)
      some (orderedBy order? a b ms ns)
    else Option.none
  | .times false u ms, .numbers ys =>
    if countsUnits b.type then (counts? ys).map (counted u ms) else Option.none
  | .numbers xs, .times false u ns =>
    if countsUnits a.type then (counts? xs).map fun ms => counted u ms ns else Option.none
  | _, _ => Option.none

/-- The answers of a test on all pairs of elements. -/
def test (holds : Value → Value → Except Fault Bool) (a b : Elements) : Except Fault Value := do
  let (shape, pairs) ← Operand.paired a.shape b.shape a.content.values b.content.values
  return ofFlags shape (← pairs.mapM fun p => holds p.1 p.2)

/-- The answer for elements that have nothing in common. -/
def differ (a b : Elements) : Except Fault Value :=
  if a.shape.isEmpty && b.shape.isEmpty then .ok (.bool false)
  else test (fun _ _ => .ok false) a b

def notBlank : Fault := .typeError "Cannot compare structured or void to non-void arrays."

def unlikeBlanks : Fault :=
  .typeError ("cannot compare unstructured voids of different length. " ++
    "Use \x60.view()\x60 to compare. ")

/-- Where two values are the same. Objects are compared by `same`. -/
def equal (same : Value → Value → Except Fault Bool) (a b : Elements) : Except Fault Value :=
  match a.content, b.content with
  | .blanks _, .blanks _ =>
    if a.type.map ElementType.code = b.type.map ElementType.code then test same a b
    else .error unlikeBlanks
  | .blanks _, _ | _, .blanks _ => .error notBlank
  | .objects _, _ | _, .objects _ => test same a b
  | _, _ =>
    match orderings? a b with
    | some r => do
      let (shape, orders) ← r
      return ofFlags shape (orders.map (· == some .eq))
    | Option.none => differ a b

/-- How two values are ordered. Objects are compared by `holds`. -/
def relate (r : Relation) (holds : Value → Value → Except Fault Bool) (a b : Elements) :
    Except Fault Value :=
  match a.content, b.content with
  | .objects _, _ | _, .objects _ => test holds a b
  | _, _ =>
    match orderings? a b with
    | some o => do
      let (shape, orders) ← o
      return ofFlags shape (orders.map r.admits)
    | Option.none => .error (noLoop r.callName a.classLook b.classLook)

end Elements

/-- Whether a value answers by its elements when it is asked whether it is the same as another one.
A scalar does not to the value that stands for none. -/
def comparesByElements (v other : Value) : Bool :=
  v.answersByElements other && !((v.bare matches .scalar _) && (other matches .none))

/-- Where two values are the same, when one of them answers by its elements: the first one, if it
does. -/
def equalElements? (cells : Cells) (same : Value → Value → Except Fault Bool) (v w : Value) :
    Option (Except Fault Value) :=
  if v.comparesByElements w then some do (← v.elements cells).equal same (← w.elements cells)
  else if w.comparesByElements v then some do (← w.elements cells).equal same (← v.elements cells)
  else Option.none

/-- How two values are ordered, when one of them answers by its elements: the first one, if it
does. -/
def compareElements? (cells : Cells) (holds : Relation → Value → Value → Except Fault Bool)
    (r : Relation) (v w : Value) : Option (Except Fault Value) :=
  if v.answersByElements w then
    some do (← v.elements cells).relate r (holds r) (← w.elements cells)
  else if w.answersByElements v then
    some do (← w.elements cells).relate r.reverse (holds r.reverse) (← v.elements cells)
  else Option.none

end MorphEngine.Value
