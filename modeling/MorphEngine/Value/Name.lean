import MorphEngine.Value.Display

/-!
Names: texts that name morphs, stages, categories and the like, kept as they were given. Anything
that is a text can be a name, also a member of a text enumeration. Names are the same when their
texts are; in messages a name stands as its value does.
-/

namespace MorphEngine

structure Name where
  given : Value
  text : Text
  reads : given.text? = some text

namespace Name

def ofText (t : Text) : Name := ⟨.text t, t, rfl⟩

instance : Coe Text Name := ⟨ofText⟩

/-- The name that a value can be, if it is a text. -/
def ofValue? (v : Value) : Option Name :=
  match h : v.text? with
  | some t => some ⟨v, t, h⟩
  | none => none

def isEmpty (n : Name) : Bool := n.text.isEmpty

/-- The name so that it can be told apart from its surroundings. -/
def shown (n : Name) : Text := n.given.shown.getD n.text.quoted

/-- The name as running text. -/
def plain (n : Name) : Text := n.given.plain.getD n.text

/-- The names in ascending order of their texts. -/
def sort (ns : List Name) : List Name := ns.mergeSort fun a b => Text.le a.text b.text

/-- Whether a text is among the names. -/
def holds (ns : List Name) (t : Text) : Bool := ns.any fun n => n.text = t

end Name

end MorphEngine
