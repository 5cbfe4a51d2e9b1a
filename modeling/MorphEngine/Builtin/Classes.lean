import MorphEngine.Value.Attribute

/-!
Calls about classes and attributes: whether a value is of a class, whether a class goes back to
another one, and attributes by name.
-/

namespace MorphEngine.Builtin

/-- What is asked about each class of a collection, until one of them holds. Collections may stand
inside each other. -/
def anyClass (holds : Value → Except Fault Bool) : Nat → Value → Except Fault Bool
  | 0, _ => .error (.plain .recursion "maximum recursion depth exceeded in comparison")
  | fuel + 1, v =>
    match v.tupleItems? with
    | some xs => xs.anyM (anyClass holds fuel)
    | none => holds v

/-- The class that a value is. -/
def class? (v : Value) : Option ClassName :=
  match v with
  | .builtin b => if b.isClass then some b.owner else none
  | _ => none

def isInstance (v classes : Value) : Except Fault Bool :=
  let holds (c : Value) : Except Fault Bool :=
    match class? c with
    | some c => .ok (v.isOf c)
    | none =>
      .error (.typeError "isinstance() arg 2 must be a type, a tuple of types, or a union")
  anyClass holds Value.nestingLimit classes

def isSubclass (v classes : Value) : Except Fault Bool :=
  let holds (c : Value) : Except Fault Bool :=
    match class? v, class? c with
    | some b, some c => .ok (b.isPartOf c)
    | none, _ => .error (.typeError "issubclass() arg 1 must be a class")
    | _, none =>
      .error (.typeError "issubclass() arg 2 must be a class, a tuple of classes, or a union")
  anyClass holds Value.nestingLimit classes

/-- The name of an attribute. -/
def readAttributeName (name : Value) : Except Fault Text :=
  match name.text? with
  | some t => .ok t
  | none =>
    .error (.typeError ("attribute name must be string, not '" ++ name.longTypeName ++ "'"))

def getAttribute (v name : Value) : Except Fault Value := do
  v.readAttribute (← readAttributeName name)

def hasAttribute (v name : Value) : Except Fault Bool := do
  let name ← readAttributeName name
  match v.attribute? name with
  | .ok w => return w.isSome
  | .error f => if f.kind = .attribute then return false else throw f

/-- The attributes that a value keeps itself. -/
def ownAttributes (v : Value) : Except Fault Value := do
  match ← v.attribute? "__dict__" with
  | some w => return w
  | none => throw (.typeError "vars() argument must have __dict__ attribute")

end MorphEngine.Builtin
