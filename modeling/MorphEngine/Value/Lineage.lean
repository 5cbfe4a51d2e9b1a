import MorphEngine.Value

/-!
Which class another class is made from. Every class that programs have goes back to `object`; the
classes of failures form a tree of their own below it.
-/

namespace MorphEngine

namespace ClassName

/-- The classes of failures, by the class that they are directly made from. -/
def failureFamilies : List (String × List String) :=
  [("object", ["BaseException"]),
    ("BaseException", ["BaseExceptionGroup", "Exception", "GeneratorExit", "KeyboardInterrupt",
      "SystemExit"]),
    ("BaseExceptionGroup", ["ExceptionGroup"]),
    ("Exception", ["ArithmeticError", "AssertionError", "AttributeError", "BufferError", "EOFError",
      "ImportError", "LookupError", "MemoryError", "NameError", "OSError", "ReferenceError",
      "RuntimeError", "StopAsyncIteration", "StopIteration", "SyntaxError", "SystemError",
      "TypeError", "ValueError", "Warning"]),
    ("ArithmeticError", ["FloatingPointError", "OverflowError", "ZeroDivisionError"]),
    ("ImportError", ["ModuleNotFoundError"]),
    ("LookupError", ["IndexError", "KeyError"]),
    ("NameError", ["UnboundLocalError"]),
    ("OSError", ["BlockingIOError", "ChildProcessError", "ConnectionError", "FileExistsError",
      "FileNotFoundError", "InterruptedError", "IsADirectoryError", "NotADirectoryError",
      "PermissionError", "ProcessLookupError", "TimeoutError"]),
    ("ConnectionError", ["BrokenPipeError", "ConnectionAbortedError", "ConnectionRefusedError",
      "ConnectionResetError"]),
    ("RuntimeError", ["NotImplementedError", "RecursionError"]),
    ("SyntaxError", ["IndentationError"]),
    ("IndentationError", ["TabError"]),
    ("ValueError", ["UnicodeError"]),
    ("UnicodeError", ["UnicodeDecodeError", "UnicodeEncodeError", "UnicodeTranslateError"]),
    ("Warning", ["BytesWarning", "DeprecationWarning", "EncodingWarning", "FutureWarning",
      "ImportWarning", "PendingDeprecationWarning", "ResourceWarning", "RuntimeWarning",
      "SyntaxWarning", "UnicodeWarning", "UserWarning"])]

def root : ClassName := .builtin "object"

/-- The class that a class is made from first, besides the root. -/
def ancestor? (c : ClassName) : Option ClassName :=
  if c = .builtin "bool" then some (.builtin "int")
  else if c.module = "builtins" then
    (failureFamilies.find? fun f => f.2.any fun (n : String) => c.name = n).map (.builtin ·.1)
  else if c = ⟨"shapes", "Pair"⟩ then some (.builtin "tuple")
  else if c = ⟨"morpheus.metadata", "RecordMetadata"⟩ then
    some ⟨"morpheus.metadata", "BuildMetadata"⟩
  else if morphNames.any fun (n : String) => c.name = n then some ⟨"morpheus.morph", "Morph"⟩
  else none
where
  morphNames : List String :=
    ["SimpleMorph", "ComposedMorph", "ConditionalMorph", "IdentityMorph", "FusedMorph", "Pipeline"]

/-- A class and those that it goes back to; `fuel` bounds their number. -/
def lineageWithin : Nat → ClassName → List ClassName
  | 0, _ => []
  | fuel + 1, c =>
    if c = root then [root]
    else c :: lineageWithin fuel (c.ancestor?.getD root)

/-- The kinds that a class of elements of arrays belongs to, and the class of plain values that some
of them belong to as well. -/
def elementFamilies (name : Text) : List ClassName × ClassName :=
  let numpy (n : String) : ClassName := ⟨"numpy", n⟩
  let digitless : List CodePoint :=
    name.points.filter fun c => !(0x30 ≤ c.val ∧ c.val ≤ 0x39)
  let stem : Text := ⟨digitless⟩
  let isWhole := stem = "int" ∨ stem = "uint" ∨ stem = "timedelta"
  if isWhole then ([numpy "integer", numpy "generic"], root)
  else if name = "float64" then ([numpy "floating", numpy "generic"], .builtin "float")
  else if stem = "float" ∨ stem = "longdouble" then ([numpy "floating", numpy "generic"], root)
  else if name = "complex128" then ([numpy "generic"], .builtin "complex")
  else if name = "str_" then ([numpy "generic"], .builtin "str")
  else if name = "bytes_" then ([numpy "generic"], .builtin "bytes")
  else ([numpy "generic"], root)

/-- A class and those that it goes back to, the nearest first. No class is more than ten steps away
from the root. -/
def lineage (c : ClassName) : List ClassName :=
  if c = .builtin "ExceptionGroup" then
    c :: .builtin "BaseExceptionGroup" :: lineageWithin 10 (.builtin "Exception")
  else if c.module = "numpy" ∧ c.name ≠ "ndarray" then
    let families := elementFamilies c.name
    c :: families.1 ++ lineageWithin 10 families.2
  else lineageWithin 10 c

/-- The classes that a class is directly made from. -/
def parents (c : ClassName) : List ClassName :=
  if c = root then []
  else if c = .builtin "ExceptionGroup" then
    [.builtin "BaseExceptionGroup", .builtin "Exception"]
  else [c.ancestor?.getD root]

/-- Whether the class goes back to another one, itself included. -/
def isPartOf (c other : ClassName) : Bool := c.lineage.contains other

/-- Whether objects of the class are failures. -/
def isFailure (c : ClassName) : Bool := c.isPartOf (.builtin "BaseException")

end ClassName

namespace Value

/-- The class of a value and those that it goes back to. A member that is itself the value behind it
has the class of that value too. -/
def lineage (v : Value) : List ClassName :=
  match v with
  | .member ⟨⟨owner, true, _⟩, _, .int _⟩ => owner :: ClassName.lineage (.builtin "int")
  | .member ⟨⟨owner, true, _⟩, _, .text _⟩ => owner :: ClassName.lineage (.builtin "str")
  | v => v.className.lineage

/-- Whether a value is of a class, or of one made from it. -/
def isOf (v : Value) (c : ClassName) : Bool := v.lineage.contains c

end Value

end MorphEngine
