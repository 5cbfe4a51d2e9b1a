import MorphEngine.Text.Quoted
import MorphEngine.Value.Repertoire

/-!
What values do, by name. An operation that every program has is known by its name wherever it is
shown; those that stand for operators and statements, and those that objects of the engine and of
programs have, are only known to be there. A class shows what its objects do, and the parts that
they have, as things of their own.
-/

namespace MorphEngine

namespace Operation

open Repertoire

/-- What members of enumerations do when asked by name. -/
def memberCalls : List Text :=
  words "__getstate__ __init_subclass__ __reduce__ __sizeof__ __subclasshook__"

/-- What else members of enumerations do. -/
def memberOperators : List Text :=
  words ("__copy__ __deepcopy__ __dir__ __format__ __new__ __reduce_ex__ _generate_next_value_ " ++
    "_missing_")

/-- How a class shows a part of its objects. -/
def ofPart (c : ClassName) (name : Text) : Value :=
  .thing (.builtin "getset_descriptor")
    ("<attribute " ++ Text.quoted name ++ " of " ++ Text.quoted c.name ++ " objects>")

/-- How a class shows a part that its objects keep. -/
def ofMember (c : ClassName) (name : Text) : Value :=
  .thing (.builtin "member_descriptor")
    ("<member " ++ Text.quoted name ++ " of " ++ Text.quoted c.name ++ " objects>")

/-- What stands under a name for the objects of some classes. Their parts are found elsewhere. -/
def ofObject? (classes : List ClassName) (name : Text) : Option Value :=
  match nearest? classes name with
  | some (_, .call) | some (_, .classCall) => some (.operation name true)
  | some (_, .operator) => some (.operation name false)
  | _ => none

/-- What stands under a name for a class: what it adds or takes over comes before what all classes
do. -/
def ofClass? (c : ClassName) (name : Text) : Option Value :=
  match nearest? c.lineage name with
  | some (_, .classCall) => some (.operation name true)
  | some (_, .call) | some (_, .operator) => some (.operation name false)
  | some (owner, .part) => some (ofPart owner name)
  | some (owner, .member) => some (ofMember owner name)
  | none => ofObject? [.builtin "type"] name

/-- What stands under a name for a member of an enumeration. -/
def ofMember? (m : Member) (name : Text) : Option Value :=
  let v : Value := .member m
  let behind : List ClassName := (v.lineage.drop 1).filter (· ≠ ClassName.root)
  if name = "_new_member_" then some (.operation "__new__" true)
  else if memberCalls.contains name then some (.operation name true)
  else if v.int?.isSome && name = "__format__" then some (.operation name true)
  else if memberOperators.contains name || (m.isValue && name = "_value_repr_") then
    some (.operation name false)
  else
    (ofObject? (if m.isValue then behind else []) name).orElse fun _ =>
      ofObject? [ClassName.root] name

end Operation

namespace Value

/-- Whether keys can be of the class of the value. -/
def hasHash (v : Value) : Bool :=
  match v.bare with
  | .list _ | .table _ | .emptyContext | .set _ | .buffer _ | .array _ _ _ _ | .objectArray _ _ =>
    false
  | .object owner _ => owner.isFrozen
  | _ => true

/-- What a value does under a name, as a value. -/
def operation? (v : Value) (name : Text) : Option Value :=
  match v with
  | .builtin ⟨owner, .type⟩ => Operation.ofClass? owner name
  | .member m => Operation.ofMember? m name
  | v => Operation.ofObject? v.lineage name

end Value

end MorphEngine
