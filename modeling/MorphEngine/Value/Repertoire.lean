import MorphEngine.Value.Lineage

/-!
What classes add to what their objects do and show, name by name. Whether something is done by being
asked for by name or stands for an operator, whether the class does it itself, and whether a part is
worked out or kept decides how it looks from outside; a class that another one is made from passes
on all that the other does not add itself.
-/

namespace MorphEngine

/-- The names that a class adds, by what stands behind them. -/
structure Repertoire where
  /-- What objects do when asked by name. -/
  calls : List Text := []
  /-- What objects do for operators and statements, and what programs define. -/
  operators : List Text := []
  /-- What the class does itself. -/
  classCalls : List Text := []
  /-- The parts that are worked out when asked for. -/
  parts : List Text := []
  /-- The parts that are kept as they are. -/
  members : List Text := []

/-- What stands behind a name that a class adds. -/
inductive Standing where
  | call
  | operator
  | classCall
  | part
  | member
deriving DecidableEq

namespace Repertoire

/-- The names in a line. -/
def words (line : String) : List Text := (line.splitOn " ").map Text.ofString

/-- What stands behind a name, if the class adds it. -/
def standing? (r : Repertoire) (name : Text) : Option Standing :=
  if r.calls.contains name then some .call
  else if r.operators.contains name then some .operator
  else if r.classCalls.contains name then some .classCall
  else if r.parts.contains name then some .part
  else if r.members.contains name then some .member
  else none

/-! ### All objects -/

def ofRoot : Repertoire where
  calls := words "__dir__ __format__ __getstate__ __reduce__ __reduce_ex__ __sizeof__"
  operators :=
    words ("__delattr__ __eq__ __ge__ __getattribute__ __gt__ __hash__ __init__ __le__ __lt__ " ++
      "__ne__ __repr__ __setattr__ __str__")
  classCalls := words "__init_subclass__ __new__ __subclasshook__"
  parts := words "__class__"

/-- Classes as objects. -/
def ofType : Repertoire where
  calls := words "__instancecheck__ __subclasscheck__ __subclasses__ mro"
  operators := words "__call__ __or__ __ror__"
  classCalls := words "__prepare__"

/-! ### Numbers -/

def complexOperators : List Text :=
  words ("__abs__ __add__ __bool__ __mul__ __neg__ __pos__ __pow__ __radd__ __rmul__ __rpow__ " ++
    "__rsub__ __rtruediv__ __sub__ __truediv__")

def realOperators : List Text :=
  complexOperators ++
    words "__divmod__ __float__ __floordiv__ __int__ __mod__ __rdivmod__ __rfloordiv__ __rmod__"

def bitOperators : List Text :=
  words ("__and__ __invert__ __lshift__ __or__ __rand__ __rlshift__ __ror__ __rrshift__ " ++
    "__rshift__ __rxor__ __xor__")

/-- What whole and real numbers do when asked by name. -/
def realCalls : List Text :=
  words "__ceil__ __floor__ __getnewargs__ __round__ __trunc__ as_integer_ratio conjugate"

def numbers : List (String × Repertoire) :=
  [("int",
      { calls := realCalls ++ words "bit_count bit_length to_bytes"
        operators := realOperators ++ bitOperators ++ words "__index__"
        classCalls := words "from_bytes"
        parts := words "denominator imag numerator real" }),
    ("float",
      { calls := realCalls ++ words "hex is_integer"
        operators := realOperators
        classCalls := words "__getformat__ fromhex"
        parts := words "imag real" }),
    ("complex",
      { calls := words "__complex__ __getnewargs__ conjugate"
        operators := complexOperators
        members := words "imag real" })]

/-! ### Texts and byte strings -/

/-- What texts and byte strings do alike. -/
def stringCalls : List Text :=
  words ("capitalize center count endswith expandtabs find index isalnum isalpha isascii " ++
    "isdigit islower isspace istitle isupper join ljust lower lstrip partition removeprefix " ++
    "removesuffix replace rfind rindex rjust rpartition rsplit rstrip split splitlines " ++
    "startswith strip swapcase title translate upper zfill")

def sequenceOperators : List Text := words "__add__ __contains__ __iter__ __len__ __mul__ __rmul__"

def stringOperators : List Text := sequenceOperators ++ words "__getitem__ __mod__ __rmod__"

/-- What lists and buffers do for statements that change them. -/
def changeOperators : List Text := words "__delitem__ __iadd__ __imul__ __setitem__"

/-- What lists and buffers do when asked by name to change. -/
def changeCalls : List Text := words "append clear copy extend insert pop remove reverse"

def strings : List (String × Repertoire) :=
  [("str",
      { calls := stringCalls ++
          words ("__getnewargs__ casefold encode format format_map isdecimal isidentifier " ++
            "isnumeric isprintable")
        operators := stringOperators
        classCalls := words "maketrans" }),
    ("bytes",
      { calls := stringCalls ++ words "__bytes__ __getnewargs__ decode hex"
        operators := stringOperators
        classCalls := words "fromhex maketrans" }),
    ("bytearray",
      { calls := stringCalls ++ changeCalls ++ words "__alloc__ decode hex"
        operators := stringOperators ++ changeOperators
        classCalls := words "fromhex maketrans" }),
    ("memoryview",
      { calls := words "__enter__ __exit__ cast hex release tobytes tolist toreadonly"
        operators := words "__delitem__ __getitem__ __iter__ __len__ __setitem__"
        parts :=
          words ("c_contiguous contiguous f_contiguous format itemsize nbytes ndim obj readonly " ++
            "shape strides suboffsets") })]

/-! ### Collections -/

/-- What sets do that never change. -/
def frozenSetCalls : List Text :=
  words ("__contains__ copy difference intersection isdisjoint issubset issuperset " ++
    "symmetric_difference union")

def frozenSetOperators : List Text :=
  words "__and__ __iter__ __len__ __or__ __rand__ __ror__ __rsub__ __rxor__ __sub__ __xor__"

/-- What the classes of collections do for a class of members. -/
def ofMembers : List Text := words "__class_getitem__"

def collections : List (String × Repertoire) :=
  [("list",
      { calls := changeCalls ++ words "__getitem__ __reversed__ count index sort"
        operators := sequenceOperators ++ changeOperators
        classCalls := ofMembers }),
    ("tuple",
      { calls := words "__getnewargs__ count index"
        operators := sequenceOperators ++ words "__getitem__"
        classCalls := ofMembers }),
    ("dict",
      { calls :=
          words ("__contains__ __getitem__ __reversed__ clear copy get items keys pop popitem " ++
            "setdefault update values")
        operators := words "__delitem__ __ior__ __iter__ __len__ __or__ __ror__ __setitem__"
        classCalls := ofMembers ++ words "fromkeys" }),
    ("set",
      { calls := frozenSetCalls ++
          words ("add clear difference_update discard intersection_update pop remove " ++
            "symmetric_difference_update update")
        operators := frozenSetOperators ++ words "__iand__ __ior__ __isub__ __ixor__"
        classCalls := ofMembers }),
    ("frozenset",
      { calls := frozenSetCalls, operators := frozenSetOperators, classCalls := ofMembers }),
    ("range",
      { calls := words "__reversed__ count index"
        operators := words "__bool__ __contains__ __getitem__ __iter__ __len__"
        members := words "start step stop" }),
    ("slice", { calls := words "indices", members := words "start step stop" }),
    ("Pair",
      { operators := words "__getnewargs__ __new__ _asdict _make _replace" })]

/-- What goes over other things. -/
def walks : List (String × Repertoire) :=
  let steps : List Text := words "__iter__ __next__"
  [("zip", { calls := words "__setstate__", operators := steps }), ("map", { operators := steps }),
    ("filter", { operators := steps }),
    ("enumerate", { operators := steps, classCalls := ofMembers }),
    ("reversed", { calls := words "__length_hint__ __setstate__", operators := steps })]

/-! ### Functions and what stands around them -/

def functions : List (String × Repertoire) :=
  let wrapped : List Text := words "__func__ __wrapped__"
  [("NoneType", { operators := words "__bool__" }),
    ("NotImplementedType", { operators := words "__bool__" }),
    ("function", { operators := words "__call__ __get__" }),
    ("builtin_function_or_method", { operators := words "__call__" }),
    ("property",
      { calls := words "__set_name__ deleter getter setter"
        operators := words "__delete__ __get__ __set__"
        parts := words "__isabstractmethod__"
        members := words "fdel fget fset" }),
    ("super",
      { operators := words "__get__", members := words "__self__ __self_class__ __thisclass__" }),
    ("staticmethod",
      { operators := words "__call__ __get__"
        parts := words "__isabstractmethod__"
        members := wrapped }),
    ("classmethod",
      { operators := words "__get__", parts := words "__isabstractmethod__", members := wrapped })]

/-! ### Failures -/

def failures : List (String × Repertoire) :=
  let place : List Text := words "encoding end object reason start"
  [("BaseException",
      { calls := words "__setstate__ add_note with_traceback"
        parts := words "__cause__ __context__ __traceback__ args"
        members := words "__suppress_context__" }),
    ("BaseExceptionGroup",
      { calls := words "derive split subgroup"
        classCalls := ofMembers
        members := words "exceptions message" }),
    ("ExceptionGroup", { parts := words "__weakref__" }),
    ("AttributeError", { members := words "name obj" }),
    ("ImportError", { members := words "msg name path" }), ("NameError", { members := ["name"] }),
    ("OSError",
      { parts := words "characters_written"
        members := words "errno filename filename2 strerror" }),
    ("StopIteration", { members := ["value"] }),
    ("SyntaxError",
      { members :=
          words "end_lineno end_offset filename lineno msg offset print_file_and_line text" }),
    ("SystemExit", { members := ["code"] }), ("UnicodeDecodeError", { members := place }),
    ("UnicodeEncodeError", { members := place }), ("UnicodeTranslateError", { members := place })]

/-! ### The engine's own -/

def engine : List (String × Repertoire) :=
  let told : List Text := words "to_dict"
  [("ContextProjection",
      { operators := words "project whole only ignore custom __post_init__" }),
    ("MorphMetadata", { operators := told ++ words "__post_init__" }),
    ("BuildMetadata", { operators := told ++ words "__post_init__" }),
    ("FusionReport", { operators := told }), ("Stage", { operators := words "of" }),
    ("RegistryRecord", { operators := told }),
    ("Morph",
      { operators :=
          words ("apply apply_async then describe __call__ __rshift__ _call _execute " ++
            "_execute_async _transform _detect_async") }),
    ("ComposedMorph", { operators := words "_transform_async" }),
    ("Pipeline", { operators := words "debug _run_async __len__ __iter__" }),
    ("PipelineBuilder",
      { operators :=
          words "pipe map when pipe_to build _append _check_labels __rshift__ __len__" }),
    ("MorpheusRegistry",
      { operators :=
          words ("define remove clear get find find_by_types list_by_category names categories " ++
            "tags apply export _unindex __contains__ __len__ __iter__") })]

/-! ### Arrays and their elements -/

/-- What arrays and their elements do alike when asked by name. -/
def elementCalls : List Text :=
  words ("__array__ __array_wrap__ __complex__ __copy__ __deepcopy__ __setstate__ all any " ++
    "argmax argmin argsort astype byteswap choose clip compress conj conjugate copy cumprod " ++
    "cumsum diagonal dump dumps fill flatten getfield item max mean min nonzero prod put ravel " ++
    "repeat reshape resize round searchsorted setfield setflags sort squeeze std sum swapaxes " ++
    "take to_device tobytes tofile tolist trace transpose var view")

def elementOperators : List Text :=
  realOperators ++ bitOperators

/-- What all elements of arrays do. -/
def ofElements : Repertoire where
  calls := elementCalls
  operators := elementOperators

/-- What elements of arrays add that are whole numbers. -/
def ofWholeElements : Repertoire where
  calls := words "bit_count is_integer"
  operators := words "__index__"

/-- What elements of arrays add that are real numbers. -/
def ofRealElements : Repertoire where
  calls := words "as_integer_ratio is_integer"

def ofArrays : Repertoire where
  calls := elementCalls ++
    words ("__array_finalize__ __array_function__ __array_ufunc__ __dlpack__ __dlpack_device__ " ++
      "argpartition dot partition")
  operators := elementOperators ++
    words ("__contains__ __delitem__ __getitem__ __iadd__ __iand__ __ifloordiv__ __ilshift__ " ++
      "__imatmul__ __imod__ __imul__ __index__ __ior__ __ipow__ __irshift__ __isub__ __iter__ " ++
      "__itruediv__ __ixor__ __len__ __matmul__ __rmatmul__ __setitem__")
  classCalls := ofMembers

def arrays : List (String × Repertoire) :=
  [("ndarray", ofArrays), ("generic", ofElements), ("integer", ofWholeElements),
    ("floating", ofRealElements)]

def plain : List (String × Repertoire) :=
  numbers ++ strings ++ collections ++ walks ++ functions ++ failures ++
    [("type", ofType), ("object", ofRoot)]

/-- What a class adds. -/
def ofClass (c : ClassName) : Repertoire :=
  let table :=
    if c.module = "builtins" then plain
    else if c.module = "numpy" then arrays
    else if c.module = "shapes" then collections
    else engine
  ((table.find? fun (row : String × Repertoire) => c.name = row.1).map (·.2)).getD {}

/-- The nearest of some classes that adds a name, and what stands behind it. -/
def nearest? (classes : List ClassName) (name : Text) : Option (ClassName × Standing) :=
  classes.findSome? fun c => ((ofClass c).standing? name).map fun s => (c, s)

end Repertoire

end MorphEngine
