import MorphEngine.Value.Declaration
import MorphEngine.Value.Difference
import MorphEngine.Value.Documentation
import MorphEngine.Value.Extent
import MorphEngine.Value.Operation

/-!
Attributes: what a value shows under a name. Objects show their fields, and some classes show more
that is worked out from the fields when it is asked for, which can fail; numbers show their parts,
members of enumerations their name, what is behind them and the other members, and every value shows
its class and what it does.
-/

namespace MorphEngine.Value

/-- The class of a value, as a value. -/
def classValue (v : Value) : Value :=
  let sort : BuiltinSort :=
    match v with
    | .member _ => .enumeration
    | .part (.morph _) _ _ _ => .abstractType
    | _ => .type
  .builtin ⟨v.className, sort⟩

def classNamed (name : Text) : Value := .builtin ⟨.builtin name, .type⟩

def texts (ts : List Text) : Value := .tuple (ts.map .text)

/-- What objects of the engine's own classes work out from their fields. -/
def derivedAttribute (owner : ClassName) (fs : List (Text × Value)) (name : Text) :
    Except Fault (Option Value) :=
  let field (n : Text) : Value := (fs.lookup n).getD .none
  if owner.name = "FusionReport" ∧ name = "eliminated" then
    (minus (field "declared") (field "executed")).map some
  else if owner.name = "FusionGroup" ∧ name = "size" then
    (field "labels").size.map fun n => some (.ofNat n)
  else if owner.name = "MorphMetadata" ∧ name = "cacheable" then
    .ok (some (if (field "pure").truthy then field "memoizable" else field "pure"))
  else .ok Option.none

/-- The parts of a whole number, as a fraction and as a complex number. -/
def wholeAttribute? (n : Int) (name : Text) : Option Value :=
  if name = "real" ∨ name = "numerator" then some (.int n)
  else if name = "imag" then some (.int 0)
  else if name = "denominator" then some (.int 1)
  else Option.none

def complexAttribute? (re im : Float) (name : Text) : Option Value :=
  if name = "real" then some (.real re)
  else if name = "imag" then some (.real im)
  else Option.none

def memberValue : MemberValue → Value
  | .int n => .int n
  | .text t => .text t

/-- The place of a member among the members of its enumeration. -/
def memberPlace (m : Member) : Nat := m.family.members.idxOf m

/-- What every member of an enumeration shows under names that are kept for enumerations. -/
def familyAttribute? (e : Enumeration) (name : Text) : Option Value :=
  let members := e.members
  if name = "_member_names_" then some (.list (members.map fun m => .text m.name))
  else if name = "_member_map_" then
    some (record (e.names.filterMap fun n => (e.memberOf? n.2).map fun m => (n.1, .member m)))
  else if name = "_value2member_map_" then
    some (.table (members.map fun m => (memberValue m.value, .member m)))
  else if name = "_member_type_" then
    some (classNamed
      (if !e.isValue then "object"
        else if members.any fun m => m.value matches .int _ then "int" else "str"))
  else if name = "_use_args_" then some (.bool e.isValue)
  else if name = "_unhashable_values_" then some (.list [])
  else if name = "_value_repr_" ∧ !e.isValue then some .none
  else Option.none

def memberAttribute? (m : Member) (name : Text) : Option Value :=
  let family := classValue (.member m)
  let place := Value.ofNat (memberPlace m)
  if name = "name" ∨ name = "_name_" then some (.text m.name)
  else if name = "value" ∨ name = "_value_" then some (memberValue m.value)
  else if name = "_sort_order_" then some place
  else if name = "__objclass__" then some family
  else if name = "__module__" then some (.text m.owner.module)
  else if name = "__dict__" then
    some (record [("_value_", memberValue m.value), ("_name_", .text m.name),
      ("__objclass__", family), ("_sort_order_", place)])
  else if name = "__weakref__" ∧ (Value.member m).int?.isNone then some .none
  else
    (m.family.member? name).map Value.member
      |>.orElse fun _ => familyAttribute? m.family name
      |>.orElse fun _ => (Value.member m).int?.bind fun n => wholeAttribute? n name

/-- What pairs show. -/
def pairAttribute? (a b : Value) (name : Text) : Option Value :=
  if name = "a" then some a
  else if name = "b" then some b
  else if name = "_fields" ∨ name = "__match_args__" then some (texts ["a", "b"])
  else if name = "_field_defaults" then some (.table [])
  else if name = "__slots__" then some (.tuple [])
  else if name = "__module__" then some (.text (Value.pair a b).className.module)
  else Option.none

/-- What objects with named fields show, their fields going before what their class shows. -/
def fieldAttribute? (owner : ClassName) (fs : List (Text × Value)) (name : Text) : Option Value :=
  if name = "__dict__" then some (record fs)
  else if name = "__weakref__" then some .none
  else
    (fs.lookup name).orElse fun _ =>
      if name = "__module__" then some (.text owner.module) else Option.none

/-- The classes that every program has and whose objects cannot be keys. -/
def unhashableClasses : List Text := ["list", "dict", "set", "bytearray", "slice", "Point"]

/-- What classes of plain objects tell about the fields of their objects. -/
def fieldNames? (c : ClassName) (name : Text) : Option Value :=
  let fields : Option (List Text) :=
    if c = ⟨"shapes", "Point"⟩ then some ["x", "y"]
    else if c = ⟨"shapes", "Swap"⟩ then some ["y", "x"]
    else Option.none
  let anything : Value := .builtin ⟨⟨"typing", "Any"⟩, .type⟩
  fields.bind fun fields =>
    if name = "__match_args__" then some (texts fields)
    else if name = "__annotations__" then some (record (fields.map fun f => (f, anything)))
    else Option.none

/-- What classes and functions show. -/
def builtinAttribute? (b : Builtin) (name : Text) : Option Value :=
  let classes (cs : List ClassName) : Value := .tuple (cs.map fun c => .builtin ⟨c, .type⟩)
  if b.sort = .constant then Option.none
  else if name = "__name__" ∨ name = "__qualname__" then some (.text b.owner.name)
  else if name = "__module__" then some (.text b.owner.module)
  else if name = "__text_signature__" then some (b.parameters?.elim .none .text)
  else if b.sort = .function then
    if name = "__self__" then
      some (.thing (.builtin "module") "<module 'builtins' (built-in)>")
    else Option.none
  else if name = "__mro__" then some (classes b.owner.lineage)
  else if name = "__bases__" then some (classes b.owner.parents)
  else if name = "__base__" then
    some (b.owner.parents.head?.elim .none fun c => .builtin ⟨c, .type⟩)
  else if name = "__hash__" ∧ unhashableClasses.contains b.owner.name then some .none
  else if b.owner.module = "shapes" ∧ name = "__weakref__" then
    some (Operation.ofPart b.owner name)
  else
    (fieldNames? b.owner name).orElse fun _ =>
      ((Room.ofClass b.owner).attribute? name).map Value.int

/-- What failures show that have been made but not raised. -/
def failureAttribute? (arguments : List Value) (name : Text) : Option Value :=
  if name = "args" then some (.tuple arguments)
  else if name = "__suppress_context__" then some (.bool false)
  else if name = "__cause__" ∨ name = "__context__" ∨ name = "__traceback__" then some .none
  else Option.none

/-- The fault of exchanging the dimensions of an array that has fewer than two. -/
def flatTranspose : Fault :=
  .plain .value "matrix transpose with ndim < 2 is undefined"

/-- What a value says about itself. -/
def documentation? : Value → Option Text
  | .builtin b => b.documentation?
  | v => v.className.documentation?

/-- What a value shows under a name by its kind. -/
def ownAttribute (v : Value) (name : Text) : Except Fault (Option Value) :=
  match v with
  | .bool b => .ok (wholeAttribute? (if b then 1 else 0) name)
  | .int n => .ok (wholeAttribute? n name)
  | .real x => .ok (complexAttribute? x 0.0 name)
  | .complex re im => .ok (complexAttribute? re im name)
  | .pair a b => .ok (pairAttribute? a b name)
  | .member m => .ok (memberAttribute? m name)
  | .object owner fs => do
    match ← derivedAttribute owner fs name with
    | some w => return some w
    | Option.none =>
      return (fieldAttribute? owner fs name).orElse fun _ =>
        if name = "__match_args__" then some (texts (fs.map (·.1))) else fieldNames? owner name
  | .attributes fs => .ok (fieldAttribute? v.className fs name)
  | .sealed kind => .ok (fieldAttribute? v.className [("kind", .text kind)] name)
  | .builtin b => .ok (builtinAttribute? b name)
  | .array type shape bs order =>
    if name = "mT" ∧ shape.length < 2 then .error flatTranspose
    else .ok (Extent.array? type shape bs order name)
  | .objectArray shape xs =>
    if name = "mT" ∧ shape.length < 2 then .error flatTranspose
    else .ok (Extent.objectArray? shape xs name)
  | .scalar s => .ok (Extent.scalar? s name)
  | .part _ _ fs _ =>
    let hidden := fs.filter fun f => f.1.points.head? = some (Text.ofChar '_')
    if name = "__dict__" then .ok (some (record hidden))
    else if name = "__abstractmethods__" ∧ v.isCallable then .ok (some (.frozenSet []))
    else .ok (fieldAttribute? v.className fs name)
  | .stage label m =>
    let cost : Option Value :=
      match m with
      | .part _ _ fs _ => fs.lookup ("cost" : Text)
      | _ => Option.none
    if name = "cost" then .ok cost
    else if name = "__match_args__" then .ok (some (texts ["label", "morph"]))
    else .ok (fieldAttribute? v.className [("label", label), ("morph", m)] name)
  | .failure _ arguments => .ok (failureAttribute? arguments name)
  | _ => .ok Option.none

/-- An attribute of a value, nothing when it has none of that name; working it out can fail. -/
def attribute? (v : Value) (name : Text) : Except Fault (Option Value) := do
  let v := v.bare
  if name = "__class__" then return some v.classValue
  match ← v.ownAttribute name with
  | some w => return some w
  | Option.none =>
    if name = "__doc__" then return some (v.documentation?.elim .none .text)
    else if name = "__hash__" ∧ !v.hasHash then return some .none
    else return v.operation? name

/-- An attribute of a value, or the fault of lacking it. -/
def readAttribute (v : Value) (name : Text) : Except Fault Value := do
  match ← v.attribute? name with
  | some w => return w
  | Option.none => throw (.lacking v name)

/-- What a context holds under a name: an entry of a mapping, an attribute of anything else. -/
def part? (context name : Value) : Except Fault (Option Value) :=
  match context.entries? with
  | some es => .ok (find? es name)
  | Option.none => name.text?.elim (.ok Option.none) context.attribute?

end MorphEngine.Value
