import MorphEngine.Metadata.Schema

/-!
Objects made by calling a class with values by name. A class has its parameters in order, some of
them with a default. Names that are not parameters are refused first, then missing parameters are
named together.
-/

namespace MorphEngine

/-- A class with its parameters; one without a default has to be given. -/
structure ClassShape where
  owner : ClassName
  parameters : List (Text × Option Value)

namespace ClassShape

/-- A class all of whose parameters have to be given. -/
def ofNames (owner : ClassName) (names : List Text) : ClassShape :=
  ⟨owner, names.map fun n => (n, none)⟩

/-- The names as a phrase: the last one after an `and`. -/
def phrase : List Text → Text
  | [] => ""
  | [a] => a
  | [a, b] => a ++ " and " ++ b
  | names => Text.join ", " names.dropLast ++ ", and " ++ names.getLastD ""

def missingFault (owner : ClassName) (names : List Text) : Fault :=
  .typeError (owner.name ++ ".__init__() missing " ++ Text.ofNat names.length ++
    " required positional argument" ++ (if names.length = 1 then "" else "s") ++ ": " ++
    phrase (names.map Text.quoted))

/-- The object of the class with the given values. -/
def construct (c : ClassShape) (given : Fields) : Except Fault Value := do
  Fields.refuseUnknown c.owner.name (c.parameters.map (·.1)) given
  let value (p : Text × Option Value) : Option Value := (given.get? p.1).orElse fun _ => p.2
  let missing := c.parameters.filter fun p => (value p).isNone
  if missing.isEmpty then
    return .object c.owner (c.parameters.map fun p => (p.1, (value p).getD .none))
  else throw (missingFault c.owner (missing.map (·.1)))

/-- The object of the class with values for its first parameters. -/
def constructFrom (c : ClassShape) (arguments : List Value) : Except Fault Value :=
  c.construct ((c.parameters.map (·.1)).zip arguments)

end ClassShape

end MorphEngine
