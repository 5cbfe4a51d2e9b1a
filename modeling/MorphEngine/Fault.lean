import MorphEngine.Value.Name
import MorphEngine.Value.Nesting

/-!
What can go wrong. A fault has a kind and a message; a failed transformation names the morph that
failed and keeps the fault that caused it together with the context in effect. Faults of a few kinds
end a program rather than a transformation, and the engine lets those pass as they are.
-/

namespace MorphEngine

inductive FaultKind where
  | engine
  | configuration
  | unfingerprintable
  | type
  | value
  | key
  | attribute
  | overflow
  | recursion
  | runtime
  | other (name : Text)
deriving DecidableEq

namespace FaultKind

def named : List (Text × FaultKind) :=
  [("MorpheusError", .engine), ("ConfigurationError", .configuration),
    ("UnfingerprintableError", .unfingerprintable), ("TypeError", .type), ("ValueError", .value),
    ("KeyError", .key), ("AttributeError", .attribute), ("OverflowError", .overflow),
    ("RecursionError", .recursion), ("RuntimeError", .runtime)]

/-- Kinds that are known under a second name. -/
def secondNames : List (Text × Text) := [("IOError", "OSError"), ("EnvironmentError", "OSError")]

def ofName (name : Text) : FaultKind :=
  let name := (secondNames.lookup name).getD name
  (named.lookup name).getD (.other name)

def name : FaultKind → Text
  | .engine => "MorpheusError"
  | .configuration => "ConfigurationError"
  | .unfingerprintable => "UnfingerprintableError"
  | .type => "TypeError"
  | .value => "ValueError"
  | .key => "KeyError"
  | .attribute => "AttributeError"
  | .overflow => "OverflowError"
  | .recursion => "RecursionError"
  | .runtime => "RuntimeError"
  | .other n => n

/-- The kinds that end a program. -/
def ending : List Text :=
  ["Abort", "BaseException", "BaseExceptionGroup", "CancelledError", "GeneratorExit",
    "KeyboardInterrupt", "SystemExit"]

def endsProgram : FaultKind → Bool
  | .other n => ending.contains n
  | _ => false

/-- The kinds whose faults have a message even when they are raised without one. -/
def neverSilent : List Text := ["SyntaxError", "IndentationError", "TabError"]

/-- The kinds whose faults are made from more than one value: what a message about their making
calls them, and the number of values. -/
def demanding : List (Text × Text × Nat) :=
  [("UnicodeDecodeError", "function", 5), ("UnicodeEncodeError", "function", 5),
    ("UnicodeTranslateError", "function", 4), ("ExceptionGroup", "BaseExceptionGroup.__new__()", 2),
    ("BaseExceptionGroup", "BaseExceptionGroup.__new__()", 2)]

end FaultKind

inductive Fault where
  | plain (kind : FaultKind) (message : Text)
  /-- A fault raised with a value, which is its message. -/
  | carrying (kind : FaultKind) (argument : Value)
  /-- A failed transformation; `chained` when the engine itself made it from its cause. The engine
  names morphs by texts, but programs can make such a fault under any value. -/
  | transform (name : Value) (cause : Fault) (context : Value) (chained : Bool)

namespace Fault

/-- The fault of looking up a key that a mapping lacks. -/
def missingKey (key : Value) : Fault := .carrying .key key

def kind : Fault → FaultKind
  | .plain kind _ | .carrying kind _ => kind
  | .transform _ _ _ _ => .other "TransformError"

/-- The name of the kind of a fault. -/
def kindName (f : Fault) : Text := f.kind.name

/-- The text of a value as a message: a missing key is shown, anything else is running text. -/
def argumentText? (kind : FaultKind) (argument : Value) : Option Text :=
  if kind = .key then argument.shown else argument.plain

def message : Fault → Text
  | .plain _ m => m
  | .carrying kind argument => (argumentText? kind argument).getD ""
  | .transform name cause _ _ =>
    "Morph '" ++ name.plain.getD "" ++ "' failed: " ++ cause.kindName ++ ": " ++ message cause

/-- Whether the fault belongs to the engine's own family. -/
def isEngine : Fault → Bool
  | .transform _ _ _ _ => true
  | f => f.kind == .engine || f.kind == .configuration

def endsProgram (f : Fault) : Bool := f.kind.endsProgram

def isUnfingerprintable (f : Fault) : Bool := f.kind == .unfingerprintable

def configuration (message : Text) : Fault := .plain .configuration message

def typeError (message : Text) : Fault := .plain .type message

/-- The fault of writing a whole number of too many digits. -/
def tooManyDigits : Fault :=
  .plain .value ("Exceeds the limit (4300 digits) for integer string conversion; " ++
    "use sys.set_int_max_str_digits() to increase the limit")

def tooDeepToShow : Fault :=
  .plain .recursion "maximum recursion depth exceeded while getting the repr of an object"

def tooDeepToCompare : Fault :=
  .plain .recursion "maximum recursion depth exceeded in comparison"

end Fault

/-- A text made from a value, or the fault of the value nesting too deep or of a number in it being
too long to write. -/
def Value.written (v : Value) (text : Value → Option Text) : Except Fault Text :=
  if v.isDeeperThan nestingLimit then .error .tooDeepToShow
  else
    match text v with
    | some t => .ok t
    | Option.none => .error .tooManyDigits

namespace Fault

/-- The message of a fault, or the fault of not being able to write it. -/
def written : Fault → Except Fault Text
  | .carrying kind argument => argument.written (argumentText? kind)
  | f => .ok f.message

/-- A fault of the given kind made from at most one value, unless such faults need more. -/
def make (kind : Text) (message : Option Value) : Except Fault Fault :=
  match FaultKind.demanding.lookup kind, message with
  | some (callee, count), m =>
    .error (typeError (callee ++ " takes exactly " ++ Text.ofNat count ++ " arguments (" ++
      Text.ofNat m.toList.length ++ " given)"))
  | none, some v => .ok (.carrying (FaultKind.ofName kind) v)
  | none, none =>
    let message : Text := if FaultKind.neverSilent.contains kind then "None" else ""
    .ok (.plain (FaultKind.ofName kind) message)

/-- What is raised when a fault of the given kind is made and raised. -/
def raised (kind : Text) (message : Option Value) : Fault :=
  match make kind message with
  | .ok f | .error f => f

/-- A failed transformation, or the fault of not being able to write its name or its cause. -/
def ofCause (name : Value) (cause : Fault) (context : Value) (chained : Bool) :
    Except Fault Fault := do
  let _ ← name.written Value.plain
  let _ ← cause.written
  return .transform name cause context chained

/-- What is raised when a failed transformation is made, from a cause of the given kind, and raised.
-/
def raisedFor (name : Value) (kind : Text) (message : Option Value) (context : Value) : Fault :=
  match make kind message >>= fun cause => ofCause name cause context false with
  | .ok f | .error f => f

/-- The fault as it leaves a transformation run under `label`. -/
def blame (label : Name) (context : Value) : Fault → Fault
  | .transform name cause ctx chained => .transform name cause ctx chained
  | f =>
    if f.endsProgram then f
    else
      match ofCause label.given f context true with
      | .ok g | .error g => g

/-- The fault as it leaves a computation that is itself an iteration: its end cannot pass. -/
def leave (carrier : Text) (f : Fault) : Fault :=
  if f.kind = .other "StopIteration" then .plain .runtime (carrier ++ " raised StopIteration")
  else f

/-- The fault as it leaves a deferred computation. -/
def leaveDeferred : Fault → Fault := leave "coroutine"

/-- The fault as it leaves a computation that goes step by step. -/
def leaveIteration : Fault → Fault := leave "generator"

def overflowingInt : Fault := .plain .overflow "int too large to convert to float"

/-- What a message about a missing attribute calls a value. -/
def bearer (v : Value) : Text :=
  let usual : Text := "'" ++ v.longTypeName ++ "' object"
  match v with
  | .builtin b => if b.isClass then "type object '" ++ b.owner.name ++ "'" else usual
  | _ => usual

/-- The fault of reading an attribute that a value lacks. -/
def lacking (v : Value) (name : Text) : Fault :=
  .plain .attribute (bearer v ++ " has no attribute '" ++ name ++ "'")

/-- The fault of an operation between two values that do not have it. -/
def unsupportedOperands (operator : Text) (a b : Value) : Fault :=
  typeError ("unsupported operand type(s) for " ++ operator ++ ": '" ++ a.longTypeName ++
    "' and '" ++ b.longTypeName ++ "'")

/-- The fault of comparing two values that have no order. -/
def incomparable (operator : Text) (a b : Value) : Fault :=
  typeError ("'" ++ operator ++ "' not supported between instances of '" ++ a.longTypeName ++
    "' and '" ++ b.longTypeName ++ "'")

end Fault

namespace Value

def shownOrFault (v : Value) : Except Fault Text := v.written shown

def plainOrFault (v : Value) : Except Fault Text := v.written plain

/-- Fails with a configuration fault whose message shows the value between two texts. -/
def refuse {α : Type} (v : Value) (before after : Text) : Except Fault α := do
  throw (.configuration (before ++ (← v.shownOrFault) ++ after))

end Value

end MorphEngine
