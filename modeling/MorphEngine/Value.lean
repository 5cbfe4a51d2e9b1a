import MorphEngine.Text
import MorphEngine.Number
import MorphEngine.ElementType

/-!
The values that transformations consume and produce, and that contexts and metadata are made of.
Containers are finite trees; where a container can be reached from itself the tree ends in a `cell`,
which names a place in a separate list of contents. Functions and pending results are known by their
numbers; morphs, builders and catalogs are known by their kinds and numbers, and builders and
catalogs, which change, also have their present state among the contents. Values that equal only
themselves, such as what is not a number, carry a mark with a number when a program can meet them
twice.
-/

namespace MorphEngine

/-- A class by its module and its name. -/
structure ClassName where
  module : Text
  name : Text
deriving DecidableEq

/-- A class that every program has. -/
def ClassName.builtin (name : Text) : ClassName := ⟨"builtins", name⟩

/-- The modules whose objects can never change: those of the engine's own records. -/
def ClassName.frozenModules : List Text :=
  ["morpheus.metadata", "morpheus.optimizer", "morpheus.registry"]

/-- Whether objects of the class can never change. -/
def ClassName.isFrozen (c : ClassName) : Bool := frozenModules.contains c.module

/-- The value behind a member of an enumeration. -/
inductive MemberValue where
  | int (n : Int)
  | text (t : Text)
deriving DecidableEq

/-- A class of named members. When `isValue`, its members are themselves the numbers or texts behind
them. Two names for one value are one member, under the first of them. -/
structure Enumeration where
  owner : ClassName
  isValue : Bool
  names : List (Text × MemberValue)
deriving DecidableEq

/-- A member of an enumeration. -/
structure Member where
  family : Enumeration
  name : Text
  value : MemberValue
deriving DecidableEq

namespace Enumeration

/-- The member with a value. -/
def memberOf? (e : Enumeration) (v : MemberValue) : Option Member :=
  (e.names.find? fun n => n.2 = v).map fun n => ⟨e, n.1, n.2⟩

/-- The member under a name. -/
def member? (e : Enumeration) (name : Text) : Option Member :=
  (e.names.lookup name).bind e.memberOf?

/-- The members in the order of their definition. -/
def members (e : Enumeration) : List Member :=
  e.names.filterMap fun n => (e.memberOf? n.2).filter fun m => m.name = n.1

end Enumeration

namespace Member

def owner (m : Member) : ClassName := m.family.owner

def isValue (m : Member) : Bool := m.family.isValue

end Member

/-- What a name that every program has stands for. -/
inductive BuiltinSort where
  | type
  /-- A class of named members. -/
  | enumeration
  /-- A class that only classes made from it can make objects of. -/
  | abstractType
  | function
  /-- A value that is known by its name alone. -/
  | constant
deriving DecidableEq

/-- A class, function or constant that every program has. -/
structure Builtin where
  owner : ClassName
  sort : BuiltinSort
deriving DecidableEq

def Builtin.isClass (b : Builtin) : Bool :=
  b.sort = .type || b.sort = .enumeration || b.sort = .abstractType

inductive MorphKind where
  | simple
  | composed
  | conditional
  | identity
  | fused
  | pipeline
deriving DecidableEq

def MorphKind.name : MorphKind → Text
  | .simple => "SimpleMorph"
  | .composed => "ComposedMorph"
  | .conditional => "ConditionalMorph"
  | .identity => "IdentityMorph"
  | .fused => "FusedMorph"
  | .pipeline => "Pipeline"

/-- What an engine is made of: morphs, pipelines under construction, and catalogs. -/
inductive PartKind where
  | morph (kind : MorphKind)
  | builder
  | catalog
deriving DecidableEq

namespace PartKind

def name : PartKind → Text
  | morph kind => kind.name
  | builder => "PipelineBuilder"
  | catalog => "MorpheusRegistry"

/-- The class of parts of the kind. -/
def owner (kind : PartKind) : ClassName :=
  let module : Text :=
    match kind with
    | morph .fused => "morpheus.optimizer"
    | morph .pipeline | builder => "morpheus.pipeline"
    | morph _ => "morpheus.morph"
    | catalog => "morpheus.registry"
  ⟨module, kind.name⟩

/-- Whether parts of the kind have a number of members. -/
def isSized : PartKind → Bool
  | morph kind => kind = .pipeline
  | builder | catalog => true

/-- Whether loops can go over parts of the kind. -/
def isIterable : PartKind → Bool
  | builder => false
  | kind => kind.isSized

def isMorph : PartKind → Bool
  | morph _ => true
  | _ => false

end PartKind

/-- Which elements of an array lie next to each other: those along its last dimension, or those
along its first. -/
inductive AxisOrder where
  | byRows
  | byColumns
deriving DecidableEq

inductive Value where
  | none
  | bool (b : Bool)
  | int (n : Int)
  | real (x : Float)
  | complex (re im : Float)
  | text (t : Text)
  | bytes (bs : List UInt8)
  | buffer (bs : List UInt8)
  | list (xs : List Value)
  | tuple (xs : List Value)
  | pair (first second : Value)
  | table (entries : List (Value × Value))
  /-- The mapping without entries that stands for a missing context. -/
  | emptyContext
  | set (xs : List Value)
  | frozenSet (xs : List Value)
  | member (m : Member)
  | object (owner : ClassName) (fields : List (Text × Value))
  /-- An object that has attributes and nothing else. -/
  | attributes (fields : List (Text × Value))
  /-- An object whose content cannot be read; the attempt fails with an error of the given kind. -/
  | sealed (kind : Text)
  | builtin (b : Builtin)
  /-- An array with the bytes of its elements row by row, however they lie. -/
  | array (type : ElementType) (shape : List Nat) (bytes : List UInt8) (order : AxisOrder)
  | objectArray (shape : List Nat) (items : List Value)
  | scalar (s : Scalar)
  | function (id : Nat) (isAsync : Bool)
  /-- A morph, builder or catalog, with the attributes that it shows, its name first, and with its
  members: the stages of a pipeline or builder, the records of a catalog. -/
  | part (kind : PartKind) (id : Nat) (attributes : List (Text × Value)) (members : List Value)
  /-- A morph under the label that it has in a pipeline. -/
  | stage (label morph : Value)
  /-- A failure that has been made but not raised. -/
  | failure (kind : Text) (arguments : List Value)
  /-- A result that is not there yet. -/
  | awaitable (id : Nat)
  /-- A container met again inside itself: its place among the contents, and its class. -/
  | cell (id : Nat) (owner : ClassName)
  /-- A value that does not equal another one of the same content, and is known by its number. -/
  | marked (id : Nat) (v : Value)
  /-- What an object does, under the name that it has among its attributes; `isNative` when the
  operation is not one that a program defines. -/
  | operation (name : Text) (isNative : Bool)
  /-- An object of which no more is known than its class and how it is shown. -/
  | thing (owner : ClassName) (look : Text)

instance : Inhabited Value := ⟨.none⟩

instance : Coe Text Value := ⟨.text⟩

/-- The contents of the cells, by their places. -/
abbrev Cells := List Value

namespace Value

/-- The value with a cell replaced by its content, and a builder or catalog by its present state. A
cell that is not among the contents stays. -/
def resolve (cells : Cells) (v : Value) : Value :=
  match v with
  | .cell i _ | .part .builder i _ _ | .part .catalog i _ _ => cells.getD i v
  | v => v

/-- The value without its mark. -/
def bare : Value → Value
  | .marked _ v => v
  | v => v

def ofNat (n : Nat) : Value := .int n

def ofString (s : String) : Value := .text s

def ofNumber : Number → Value
  | .int n => .int n
  | .real x => .real x

/-- A mapping from texts. -/
def record (fields : List (Text × Value)) : Value := .table (fields.map fun f => (.text f.1, f.2))

/-- The name of the class of a numeric scalar. -/
def scalarName : ElementType → Text
  | .flag => "bool"
  | .signed n _ => "int" ++ Text.ofNat (8 * n)
  | .unsigned n _ => "uint" ++ Text.ofNat (8 * n)
  | .floating n _ => if n = 16 then "longdouble" else "float" ++ Text.ofNat (8 * n)
  | .complex n _ => if n = 32 then "clongdouble" else "complex" ++ Text.ofNat (8 * n)
  | .bytes _ => "bytes_"
  | .text _ _ => "str_"
  | .instant _ _ => "datetime64"
  | .duration _ _ => "timedelta64"
  | .blank _ | .record _ => "void"

/-- The class of a class, function or constant. -/
def builtinClass (b : Builtin) : ClassName :=
  match b.sort with
  | .type => .builtin "type"
  | .enumeration => ⟨"enum", "EnumType"⟩
  | .abstractType => ⟨"abc", "ABCMeta"⟩
  | .function => .builtin "builtin_function_or_method"
  | .constant => .builtin (if b.owner.name = "Ellipsis" then "ellipsis" else "NotImplementedType")

/-- The class of a value. -/
def className : Value → ClassName
  | .none => .builtin "NoneType"
  | .bool _ => .builtin "bool"
  | .int _ => .builtin "int"
  | .real _ => .builtin "float"
  | .complex _ _ => .builtin "complex"
  | .text _ => .builtin "str"
  | .bytes _ => .builtin "bytes"
  | .buffer _ => .builtin "bytearray"
  | .list _ => .builtin "list"
  | .tuple _ => .builtin "tuple"
  | .pair _ _ => ⟨"shapes", "Pair"⟩
  | .table _ => .builtin "dict"
  | .emptyContext => .builtin "mappingproxy"
  | .set _ => .builtin "set"
  | .frozenSet _ => .builtin "frozenset"
  | .member m => m.owner
  | .object owner _ => owner
  | .attributes _ => ⟨"shapes", "Ctx"⟩
  | .sealed _ => ⟨"shapes", "Opaque"⟩
  | .builtin b => builtinClass b
  | .array _ _ _ _ | .objectArray _ _ => ⟨"numpy", "ndarray"⟩
  | .scalar s => ⟨"numpy", scalarName s.type⟩
  | .function _ _ => .builtin "function"
  | .part kind _ _ _ => kind.owner
  | .stage _ _ => ⟨"morpheus.morph", "Stage"⟩
  | .failure kind _ => .builtin kind
  | .awaitable _ => .builtin "coroutine"
  | .cell _ owner => owner
  | .marked _ v => className v
  | .operation _ isNative => .builtin (if isNative then "builtin_function_or_method" else "method")
  | .thing owner _ => owner

/-- The name of the class of a value. -/
def typeName (v : Value) : Text := v.className.name

/-- The name of the class as it stands in messages about operations that a value lacks. -/
def longTypeName (v : Value) : Text :=
  let module := v.className.module
  if module = "numpy" ∨ module = "datetime" then module ++ "." ++ v.typeName else v.typeName

/-- The text that a value is, members of text enumerations included. -/
def text? : Value → Option Text
  | .text t => some t
  | .member ⟨⟨_, true, _⟩, _, .text t⟩ => some t
  | .scalar ⟨.text _ _, bs⟩ => some (Scalar.toText bs)
  | _ => Option.none

def isText (v : Value) : Bool := v.text?.isSome

def bool? : Value → Option Bool
  | .bool b => some b
  | _ => Option.none

/-- The whole number that a value is; truth values count as zero and one. -/
def int? : Value → Option Int
  | .bool b => some (if b then 1 else 0)
  | .int n => some n
  | .member ⟨⟨_, true, _⟩, _, .int n⟩ => some n
  | _ => Option.none

/-- The number that a scalar holds; of more digits than a double has, those are kept. -/
def scalarNumber? (s : Scalar) : Option Number :=
  match s.type with
  | .signed _ _ => some (.int (Scalar.toInt s.bytes))
  | .unsigned _ _ => some (.int (Scalar.toNat s.bytes))
  | .floating _ _ => (Scalar.parts? s.bytes).map fun x => .real (Real.ofParts x)
  | _ => Option.none

/-- The whole number that a value can count or point with. -/
def index? (v : Value) : Option Int :=
  match v with
  | .scalar s =>
    match scalarNumber? s with
    | some (.int n) => some n
    | _ => Option.none
  | v => v.int?

/-- The number that a value can be compared as. -/
def number? (v : Value) : Option Number :=
  match v.bare with
  | .real x => some (.real x)
  | .scalar s =>
    match s.type with
    | .flag => some (.int (if s.bytes = [0] then 0 else 1))
    | _ => scalarNumber? s
  | v => v.int?.map .int

/-- Whether a value measures something: it is a real number that is no truth value, or a span of
time. -/
def isMeasure (v : Value) : Bool :=
  match v.bare with
  | .bool _ => false
  | .scalar ⟨.signed _ _, _⟩ | .scalar ⟨.unsigned _ _, _⟩ | .scalar ⟨.floating _ _, _⟩ => true
  | .scalar ⟨.duration _ _, _⟩ => true
  | .scalar _ => false
  | v => v.number?.isSome

/-- The entries of a mapping. -/
def entries? : Value → Option (List (Value × Value))
  | .table entries => some entries
  | .emptyContext => some []
  | _ => Option.none

def isMapping (v : Value) : Bool := v.entries?.isSome

def isCallable : Value → Bool
  | .function _ _ => true
  | .part kind _ _ _ => kind.isMorph
  | .builtin b => b.sort != .constant
  | .operation _ _ => true
  | _ => false

def isAwaitable : Value → Bool
  | .awaitable _ => true
  | _ => false

end Value

end MorphEngine
