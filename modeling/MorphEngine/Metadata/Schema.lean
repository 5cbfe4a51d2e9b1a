import MorphEngine.Value.Insertion
import MorphEngine.Value.Members

/-!
Metadata given in several ways. A schema says what a kind of metadata is called, which fields it has
with which defaults, and how else the fields may be spelled. Metadata may be left out, given as
such, or given as a mapping; further values given by name win over it. Unknown names and two
spellings of one field are refused.
-/

namespace MorphEngine

/-- Fields by name. -/
abbrev Fields := List (Text × Value)

namespace Fields

/-- The fields as entries of a mapping. -/
def entries (fs : Fields) : List (Value × Value) := fs.map fun f => (.text f.1, f.2)

/-- The fields with some of them replaced. -/
def overlay (base given : Fields) : Fields :=
  base.map fun f => (f.1, (given.lookup f.1).getD f.2)

def get? (fs : Fields) (name : Text) : Option Value := fs.lookup name

def get (fs : Fields) (name : Text) : Value := (fs.get? name).getD .none

/-- Fails when a class is called with a name that is not among its parameters. -/
def refuseUnknown (callee : Text) (parameters : List Text) (given : Fields) : Except Fault Unit :=
  match given.find? fun f => !parameters.contains f.1 with
  | some f =>
    .error (.typeError
      (callee ++ ".__init__() got an unexpected keyword argument '" ++ f.1 ++ "'"))
  | none => .ok ()

end Fields

structure Schema (α : Type) where
  name : Text
  defaults : Fields
  aliases : List (Text × Text)
  /-- Reads fields that are all there, in the order of the defaults. -/
  read : Fields → Except Fault α
  /-- The metadata that a value already is. -/
  ofValue? : Value → Option α
  /-- Metadata with some of its fields replaced. -/
  replace : α → Fields → Except Fault α

namespace Schema

variable {α : Type} (S : Schema α)

/-- The field that a spelling stands for. -/
def fieldOf (key : Text) : Text := (S.aliases.lookup key).getD key

def hasField (name : Text) : Bool := S.defaults.any (·.1 = name)

/-- The fields that given entries stand for, each at most once. -/
def normalize (entries : List (Value × Value)) : Except Fault Fields :=
  go [] entries
where
  go (done : Fields) : List (Value × Value) → Except Fault Fields
    | [] => .ok done
    | (key, v) :: rest =>
      match key.text?.map S.fieldOf with
      | some name =>
        if S.hasField name then
          if done.any (·.1 = name) then
            .error (.configuration (S.name ++ " key '" ++ name ++ "' given twice"))
          else go (done ++ [(name, v)]) rest
        else unknown key
      | none => unknown key
  unknown (key : Value) : Except Fault Fields := do
    throw (.configuration ("Unknown " ++ S.name ++ " key: '" ++ (← key.insertedOrFault) ++ "'"))

/-- The metadata that a value stands for. -/
def base (v : Value) : Except Fault α :=
  match v, S.ofValue? v with
  | .none, _ => S.read S.defaults
  | _, some m => .ok m
  | v, none =>
    match v.entries? with
    | some es => do S.read (S.defaults.overlay (← S.normalize es))
    | none => v.refuse "Cannot use " (" as " ++ S.name)

/-- The metadata that a value stands for, with the overrides in place of its own fields. -/
def coerce (v : Value) (overrides : List (Value × Value)) : Except Fault α := do
  let m ← S.base v
  if overrides.isEmpty then return m
  else S.replace m (← S.normalize overrides)

/-- The metadata made by calling its class with values by name. -/
def construct (given : Fields) : Except Fault α := do
  Fields.refuseUnknown S.name (S.defaults.map (·.1)) given
  S.read (S.defaults.overlay given)

/-- Coercion with overrides given as keywords of a call, whose first parameter is called `value`. -/
def coerceCall (callee : Text) (v : Value) (overrides : List (Value × Value)) : Except Fault α :=
  if overrides.any fun o => o.1.text? == some "value" then
    .error (.typeError (callee ++ "() got multiple values for argument 'value'"))
  else S.coerce v overrides

end Schema

end MorphEngine
