import Mathlib.Data.List.Forall2
import MorphEngine.Proofs.Fingerprint.Bytes

/-!
# The structure of values

A value without parts is an atom. Other values are sequences, whose items have an order,
collections, whose members have none, and tables of entries, which have none either. Structural
equality compares atoms as they are and everything else part by part. What is hashed of a value
begins with an opening that tells the kinds of values apart.
-/

namespace MorphEngine

/-- The name of a class behind that of its module. -/
def ClassName.dotted (c : ClassName) : Text := c.module ++ "." ++ c.name

namespace Fingerprint

/-- Whether a name can be encoded. Texts may hold surrogates, and so may the names of classes and of
members, but unlike other texts a name with surrogates has no bytes. -/
def isEncodable (name : Text) : Bool := name.points.all fun c => !Text.isSurrogate c

@[simp] theorem isEncodable_append (s t : Text) :
    isEncodable (s ++ t) = (isEncodable s && isEncodable t) := List.all_append

theorem bytesFrom_isOk (place : Nat) (cs : List CodePoint) :
    ((Encoding.sequences false).bytesFrom place cs).isOk = cs.all fun c => !Text.isSurrogate c := by
  induction cs generalizing place with
  | nil => rfl
  | cons c rest ih =>
    rw [List.all_cons, ← ih (place + 1), Encoding.bytesFrom, Encoding.pointBytes]
    cases Text.isSurrogate c with
    | true => rfl
    | false => cases (Encoding.sequences false).bytesFrom (place + 1) rest <;> rfl

theorem nameFault?_eq_none_iff {name : Text} :
    nameFault? name = none ↔ isEncodable name = true := by
  have encoded : (Encoding.sequences false).encode name =
      ((Encoding.sequences false).bytesFrom 0 name.points).map ([] ++ ·) := rfl
  rw [isEncodable, ← bytesFrom_isOk 0, nameFault?, encoded]
  cases (Encoding.sequences false).bytesFrom 0 name.points with
  | ok bs => exact iff_of_true rfl rfl
  | error u => exact iff_of_false (by nofun) (by nofun)

/-- The fault of a name that cannot be encoded. -/
def IsNameFault (f : Fault) : Prop := ∃ message, f = .plain (.other "UnicodeEncodeError") message

theorem isNameFault_of_nameFault? {name : Text} {f : Fault} (fails : nameFault? name = some f) :
    IsNameFault f := by
  unfold nameFault? at fails
  split at fails
  · cases fails
  · cases fails
    exact ⟨_, rfl⟩

/-- The hexadecimal text of a double, in which there is no colon. -/
@[ext] structure HexText where
  text : Text
  colonFree : Text.ofChar ':' ∉ text.points

def HexText.ofReal (x : Float) : HexText := ⟨Real.hexText x, Real.colon_not_mem_hexText x⟩

inductive AtomKind where
  | none
  | bool
  | member
  | int
  | real
  | complex
  | text
  | bytes
  | buffer
deriving DecidableEq

/-- A value without parts. Doubles go by their hexadecimal text, and the members of enumerations by
the dotted names of their classes and their own. -/
inductive Atom where
  | none
  | bool (b : Bool)
  | member (name : Text)
  | int (n : Int)
  | real (x : HexText)
  | complex (re im : HexText)
  | text (t : Text)
  | bytes (bs : List UInt8)
  | buffer (bs : List UInt8)

def Atom.kind : Atom → AtomKind
  | none => .none
  | bool _ => .bool
  | member _ => .member
  | int _ => .int
  | real _ => .real
  | complex _ _ => .complex
  | text _ => .text
  | bytes _ => .bytes
  | buffer _ => .buffer

inductive SequenceKind where
  | list
  | tuple
  | pair
deriving DecidableEq

inductive CollectionKind where
  | set
  | frozenSet
deriving DecidableEq

/-- A mapping, or the fields of an object by the dotted name of its class. -/
inductive TableKind where
  | dict
  | dataclass (name : Text)
deriving DecidableEq

/-- A value taken apart by one level. -/
inductive Node where
  | atom (a : Atom)
  | sequence (kind : SequenceKind) (items : List Value)
  | collection (kind : CollectionKind) (members : List Value)
  | table (kind : TableKind) (entries : List (Value × Value))

namespace Node

def children : Node → List Value
  | atom _ => []
  | sequence _ xs | collection _ xs => xs
  | table _ es => es.flatMap fun e => [e.1, e.2]

theorem key_mem_children {kind : TableKind} {es : List (Value × Value)} {x : Value}
    (hx : x ∈ es.map (·.1)) : x ∈ (table kind es).children := by
  obtain ⟨e, he, rfl⟩ := List.mem_map.mp hx
  exact List.mem_flatMap.mpr ⟨e, he, List.mem_cons_self⟩

theorem value_mem_children {kind : TableKind} {es : List (Value × Value)} {x : Value}
    (hx : x ∈ es.map (·.2)) : x ∈ (table kind es).children := by
  obtain ⟨e, he, rfl⟩ := List.mem_map.mp hx
  exact List.mem_flatMap.mpr ⟨e, he, List.mem_cons_of_mem _ List.mem_cons_self⟩

/-- Whole numbers have to be ones that can be written, and the names of classes must not hold the code
point zero, as no name in a program does. -/
def isRegular : Node → Bool
  | atom (.int n) => !Number.isUnwritable n
  | table (.dataclass name) _ => !name.points.contains 0
  | _ => true

/-- Whether the name of a member or of a class can be encoded. -/
def isNamed : Node → Bool
  | atom (.member name) | table (.dataclass name) _ => isEncodable name
  | _ => true

end Node

/-- The structure of a value at its top. Functions, parts of an engine, arrays and whatever else has
to be stored as a whole have none. -/
def node? (v : Value) : Option Node :=
  match v.bare with
  | .none => some (.atom .none)
  | .bool b => some (.atom (.bool b))
  | .member m => some (.atom (.member (m.owner.dotted ++ "." ++ m.name)))
  | .int n => some (.atom (.int n))
  | .real x => some (.atom (.real (.ofReal x)))
  | .complex re im => some (.atom (.complex (.ofReal re) (.ofReal im)))
  | .text t => some (.atom (.text t))
  | .bytes bs => some (.atom (.bytes bs))
  | .buffer bs => some (.atom (.buffer bs))
  | .list xs => some (.sequence .list xs)
  | .tuple xs => some (.sequence .tuple xs)
  | .pair a b => some (.sequence .pair [a, b])
  | .set xs => some (.collection .set xs)
  | .frozenSet xs => some (.collection .frozenSet xs)
  | .emptyContext => some (.table .dict [])
  | .table es => some (.table .dict es)
  | .object owner fs => some (.table (.dataclass owner.dotted) (fs.map fun f => (.text f.1, f.2)))
  | _ => none

/-- Whether a value has structure all the way down, in so many levels. -/
def isStructured : Nat → Value → Bool
  | 0, _ => false
  | n + 1, v => (node? v).any fun p => p.isRegular && p.children.all (isStructured n)

/-- Whether all names in a value can be encoded, in so many levels. -/
def isNamed : Nat → Value → Bool
  | 0, _ => true
  | n + 1, v => (node? v).all fun p => p.isNamed && p.children.all (isNamed n)

/-- Values of the same kind with the same parts, in their order only where it matters. -/
inductive StructurallyEqual : Value → Value → Prop
  | atom {v w : Value} {a : Atom} (hv : node? v = some (.atom a)) (hw : node? w = some (.atom a)) :
      StructurallyEqual v w
  | sequence {v w : Value} {kind : SequenceKind} {xs ys : List Value}
      (hv : node? v = some (.sequence kind xs)) (hw : node? w = some (.sequence kind ys))
      (items : List.Forall₂ StructurallyEqual xs ys) : StructurallyEqual v w
  | collection {v w : Value} {kind : CollectionKind} {xs xs' ys : List Value}
      (hv : node? v = some (.collection kind xs)) (hw : node? w = some (.collection kind ys))
      (order : xs.Perm xs') (members : List.Forall₂ StructurallyEqual xs' ys) :
      StructurallyEqual v w
  | table {v w : Value} {kind : TableKind} {es es' fs : List (Value × Value)}
      (hv : node? v = some (.table kind es)) (hw : node? w = some (.table kind fs))
      (order : es.Perm es')
      (keys : List.Forall₂ StructurallyEqual (es'.map (·.1)) (fs.map (·.1)))
      (values : List.Forall₂ StructurallyEqual (es'.map (·.2)) (fs.map (·.2))) :
      StructurallyEqual v w

theorem exists_node {n : Nat} {v : Value} (structured : isStructured (n + 1) v = true) :
    ∃ p, node? v = some p ∧ p.isRegular = true ∧ ∀ x ∈ p.children, isStructured n x = true := by
  rw [isStructured] at structured
  cases hv : node? v with
  | none =>
    rw [hv] at structured
    cases structured
  | some p =>
    rw [hv, Option.any_some, Bool.and_eq_true, List.all_eq_true] at structured
    exact ⟨p, rfl, structured⟩

/-- Doubles that are no numbers included, structured values equal themselves. -/
theorem StructurallyEqual.refl {n : Nat} {v : Value} (structured : isStructured n v = true) :
    StructurallyEqual v v := by
  induction n generalizing v with
  | zero => cases structured
  | succ n ih =>
    obtain ⟨p, hv, _, parts⟩ := exists_node structured
    have alike (xs : List Value) (hxs : ∀ x ∈ xs, x ∈ p.children) :
        List.Forall₂ StructurallyEqual xs xs :=
      List.forall₂_same.mpr fun x hx => ih (parts x (hxs x hx))
    cases p with
    | atom a => exact .atom hv hv
    | sequence kind xs => exact .sequence hv hv (alike xs fun _ h => h)
    | collection kind xs => exact .collection hv hv (.refl xs) (alike xs fun _ h => h)
    | table kind es =>
      exact .table hv hv (.refl es) (alike _ fun _ h => Node.key_mem_children h)
        (alike _ fun _ h => Node.value_mem_children h)

/-! ### Messages -/

/-- What a message begins with. -/
inductive Opening where
  | atom (kind : AtomKind)
  | sequence (kind : SequenceKind)
  | collection (kind : CollectionKind)
  | dict
  | dataclass
deriving DecidableEq

namespace Opening

/-- Most openings end in the byte zero. -/
def bytes : Opening → List UInt8
  | atom .none => closed "none"
  | atom .bool => closed "bool"
  | atom .member => closed "enum"
  | atom .int => closed "int"
  | atom .real => closed "float"
  | atom .complex => closed "complex"
  | atom .text => closed "str"
  | atom .bytes => closed "bytes"
  | atom .buffer => closed "bytearray"
  | sequence .list => ("list" : Text).bytes
  | sequence .tuple => ("tuple" : Text).bytes
  | sequence .pair => ("Pair" : Text).bytes
  | collection .set => closed "set"
  | collection .frozenSet => closed "frozenset"
  | dict => closed "dict"
  | dataclass => ("dataclass:" : Text).bytes
where
  closed (tag : Text) : List UInt8 := tag.bytes ++ [0]

def all : List Opening :=
  [.none, .bool, .member, .int, .real, .complex, .text, .bytes, .buffer].map atom ++
    [.list, .tuple, .pair].map sequence ++ [.set, .frozenSet].map collection ++ [dict, dataclass]

theorem mem_all (o : Opening) : o ∈ all := by
  cases o with
  | atom kind => cases kind <;> decide
  | sequence kind => cases kind <;> decide
  | collection kind => cases kind <;> decide
  | dict => decide
  | dataclass => decide

/-- No opening is the beginning of another one. -/
theorem eq_of_isPrefix {o o' : Opening} (start : o.bytes <+: o'.bytes) : o = o' := by
  have apart : ∀ o ∈ all, ∀ o' ∈ all, o.bytes.isPrefixOf o'.bytes = true → o = o' := by
    decide +kernel
  exact apart o (mem_all o) o' (mem_all o') (List.isPrefixOf_iff_prefix.mpr start)

/-- The opening of a message and what follows it are found again in the message. -/
theorem append_inj {o o' : Opening} {p p' : List UInt8}
    (same : o.bytes ++ p = o'.bytes ++ p') : o = o' ∧ p = p' := by
  have openings : o = o' := by
    rcases List.prefix_or_prefix_of_prefix ⟨p, same⟩ ⟨p', rfl⟩ with start | start
    · exact eq_of_isPrefix start
    · exact (eq_of_isPrefix start).symm
  subst openings
  exact ⟨rfl, List.append_cancel_left same⟩

end Opening

end Fingerprint

end MorphEngine
