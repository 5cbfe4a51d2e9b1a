import MorphEngine.Value

/-!
What the classes and functions that every program has tell about how they are declared: the room
that their objects take, and the parameters that they are called with.
-/

namespace MorphEngine

/-- The room that objects of a class take: the bytes of an object and of each of its items, and the
places of the table of its attributes and of the list of those who watch it, zero without such. -/
structure Room where
  size : Nat
  itemSize : Nat
  attributesAt : Int
  watchersAt : Int

namespace Room

/-- The room of most failures. -/
def ofFailure : Room := ⟨72, 0, 16, 0⟩

/-- The room of objects with fields of their own. -/
def ofObject : Room := ⟨24, 0, -48, 16⟩

/-- The room of objects of other classes, by the names of the classes. -/
def byNames : List (String × Room) :=
  [("object", ⟨16, 0, 0, 0⟩),
    ("float", ⟨24, 0, 0, 0⟩),
    ("int", ⟨24, 4, 0, 0⟩),
    ("tuple", ⟨24, 8, 0, 0⟩),
    ("complex filter map reversed", ⟨32, 0, 0, 0⟩),
    ("classmethod staticmethod", ⟨32, 0, 24, 0⟩),
    ("bool", ⟨32, 4, 0, 0⟩),
    ("bytes", ⟨33, 1, 0, 0⟩),
    ("list slice super", ⟨40, 0, 0, 0⟩),
    ("dict range zip", ⟨48, 0, 0, 0⟩),
    ("bytearray enumerate", ⟨56, 0, 0, 0⟩),
    ("property", ⟨64, 0, 0, 0⟩),
    ("str", ⟨80, 0, 0, 0⟩),
    ("NameError StopIteration SystemExit UnboundLocalError", ⟨80, 0, 16, 0⟩),
    ("AttributeError BaseExceptionGroup", ⟨88, 0, 16, 0⟩),
    ("ImportError ModuleNotFoundError", ⟨96, 0, 16, 0⟩),
    ("ExceptionGroup", ⟨96, 0, 16, 88⟩),
    ("BlockingIOError BrokenPipeError ChildProcessError ConnectionAbortedError ConnectionError " ++
      "ConnectionRefusedError ConnectionResetError FileExistsError FileNotFoundError " ++
      "InterruptedError IsADirectoryError NotADirectoryError OSError PermissionError " ++
      "ProcessLookupError TimeoutError UnicodeDecodeError UnicodeEncodeError " ++
      "UnicodeTranslateError", ⟨112, 0, 16, 0⟩),
    ("IndentationError SyntaxError TabError", ⟨136, 0, 16, 0⟩),
    ("memoryview", ⟨144, 8, 0, 136⟩),
    ("frozenset set", ⟨200, 0, 0, 192⟩),
    ("type", ⟨904, 40, 264, 368⟩)]

/-- The room of objects of a class. -/
def ofClass (c : ClassName) : Room :=
  if c.module ≠ "builtins" then ofObject
  else
    let listed := byNames.find? fun r =>
      (r.1.splitOn " ").any fun (n : String) => c.name = n
    (listed.map (·.2)).getD ofFailure

/-- What a class tells under a name about the room of its objects. -/
def attribute? (r : Room) (name : Text) : Option Int :=
  if name = "__basicsize__" then some r.size
  else if name = "__itemsize__" then some r.itemSize
  else if name = "__dictoffset__" then some r.attributesAt
  else if name = "__weakrefoffset__" then some r.watchersAt
  else none

end Room

namespace Builtin

/-- The parameters of functions and classes that tell them, the module of a function left out. A
slash ends those that go without names, a star begins those that do not. -/
def parameterLists : List (String × String) :=
  [("__import__", "/, name, globals=None, locals=None, fromlist=(),\n           level=0"),
    ("abs", "x, /"),
    ("aiter", "async_iterable, /"),
    ("all", "iterable, /"),
    ("anext", "aiterator, default=<unrepresentable>, /"),
    ("any", "iterable, /"),
    ("ascii", "obj, /"),
    ("bin", "number, /"),
    ("callable", "obj, /"),
    ("chr", "i, /"),
    ("compile", "/, source, filename, mode, flags=0,\n" ++
      "        dont_inherit=False, optimize=-1, *, _feature_version=-1"),
    ("complex", "real=0, imag=0"),
    ("delattr", "obj, name, /"),
    ("divmod", "x, y, /"),
    ("enumerate", "iterable, start=0"),
    ("eval", "source, globals=None, locals=None, /"),
    ("exec", "source, globals=None, locals=None, /, *, closure=None"),
    ("float", "x=0, /"),
    ("format", "value, format_spec='', /"),
    ("globals", "/"),
    ("hasattr", "obj, name, /"),
    ("hash", "obj, /"),
    ("hex", "number, /"),
    ("id", "obj, /"),
    ("input", "prompt='', /"),
    ("isinstance", "obj, class_or_tuple, /"),
    ("issubclass", "cls, class_or_tuple, /"),
    ("len", "obj, /"),
    ("list", "iterable=(), /"),
    ("locals", "/"),
    ("memoryview", "object"),
    ("object", ""),
    ("oct", "number, /"),
    ("open", "/, file, mode='r', buffering=-1, encoding=None,\n" ++
      "     errors=None, newline=None, closefd=True, opener=None"),
    ("ord", "c, /"),
    ("pow", "/, base, exp, mod=None"),
    ("print", "/, *args, sep=' ', end='\\n', file=None, flush=False"),
    ("property", "fget=None, fset=None, fdel=None, doc=None"),
    ("repr", "obj, /"),
    ("reversed", "sequence, /"),
    ("round", "/, number, ndigits=None"),
    ("setattr", "obj, name, value, /"),
    ("sorted", "iterable, /, *, key=None, reverse=False"),
    ("sum", "iterable, /, start=0"),
    ("tuple", "iterable=(), /")]

/-- The parameters of a function or class in writing. -/
def parameters? (b : Builtin) : Option Text := do
  let (_, list) ← parameterLists.find? fun p => b.owner.name = (p.1 : Text)
  let list : Text := list
  return (if b.sort = .function then "($module, " ++ list else "(" ++ list) ++ ")"

end Builtin

end MorphEngine
