import MorphEngine.Builtin.Classes
import MorphEngine.Builtin.Collections
import MorphEngine.Builtin.Failures
import MorphEngine.Builtin.Figures
import MorphEngine.Builtin.Formats
import MorphEngine.Builtin.Hash
import MorphEngine.Builtin.Strings
import MorphEngine.Metadata.ClassShape

/-!
Calls of the classes and functions that every program has, with up to two values. Each takes certain
numbers of values and refuses others, and says in its own way what it takes; a value under a name
that is no parameter is refused too. The classes of failures make failures, and other classes make
objects from values for their parameters.
-/

namespace MorphEngine.Builtin

/-- What comes of a value given by name: it is refused as any name is, or as this one is, or, for a
few, in a way of their own or not at all. -/
inductive Naming where
  | none
  | unknown
  | own (f : Value → Value → Except Fault Value)

/-- What comes of a call with no value, with one and with two, as far as the function takes so many,
and how it refuses other numbers of them. -/
structure Rule where
  refuse : Text → Nat → Text
  zero : Option (Except Fault Value)
  one : Option (Value → Except Fault Value)
  two : Option (Value → Value → Except Fault Value)
  naming : Naming

namespace Rule

def count (n : Nat) : Text := Text.ofNat n ++ (if n = 1 then " argument" else " arguments")

/-- The refusal of a function that takes exactly one value. -/
def refuseSingle (callee : Text) (given : Nat) : Text :=
  callee ++ "() takes exactly one argument (" ++ Text.ofNat given ++ " given)"

/-- The refusal of a function that takes from `least` to `most` values. -/
def refuseCount (least most : Nat) (callee : Text) (given : Nat) : Text :=
  let bound : Text :=
    if least = most then count least
    else if given < least then "at least " ++ count least
    else "at most " ++ count most
  callee ++ " expected " ++ bound ++ ", got " ++ Text.ofNat given

/-- The refusal of a function that names its parameters, all of which have to be given. -/
def refuseMissing (parameters : List Text) (callee : Text) (given : Nat) : Text :=
  callee ++ "() missing required argument '" ++ parameters.getD given "" ++ "' (pos " ++
    Text.ofNat (given + 1) ++ ")"

/-- A function of exactly one value. -/
def single (f : Value → Except Fault Value) : Rule := ⟨refuseSingle, none, some f, none, .none⟩

/-- A class that makes an object from at most one value. -/
def optional (empty : Value) (f : Value → Except Fault Value) : Rule :=
  ⟨refuseCount 0 1, some (.ok empty), some f, none, .none⟩

/-- A function of exactly two values. -/
def double (f : Value → Value → Except Fault Value) : Rule :=
  ⟨refuseCount 2 2, none, none, some f, .none⟩

/-- A class that makes an object from at most two values. -/
def flexible (empty : Value) (f : Value → Except Fault Value)
    (g : Value → Value → Except Fault Value) : Rule :=
  ⟨refuseCount 0 2, some (.ok empty), some f, some g, .unknown⟩

/-- A function of one value or two. -/
def oneOrTwo (f : Value → Except Fault Value) (g : Value → Value → Except Fault Value) : Rule :=
  ⟨refuseCount 1 2, none, some f, some g, .none⟩

def call (r : Rule) (callee : Text) (arguments : List Value) : Except Fault Value :=
  let refused : Except Fault Value := .error (.typeError (r.refuse callee arguments.length))
  match arguments with
  | [] => r.zero.getD refused
  | [v] => r.one.elim refused fun f => f v
  | [v, w] => r.two.elim refused fun f => f v w
  | _ => refused

end Rule

/-! ### Rules -/

def asBool (r : Except Fault Bool) : Except Fault Value := r.map .bool

def asText (r : Except Fault Text) : Except Fault Value := r.map .text

def notIterator (v : Value) : Except Fault Value :=
  .error (.typeError ("'" ++ v.longTypeName ++ "' object is not an iterator"))

def hashed (v : Value) : Except Fault Value := do
  v.checkKey
  match Hash.ofValue? v with
  | some n => return .int n
  | none => throw (.typeError ("no hash of '" ++ v.longTypeName ++ "'"))

def numberRules : List (String × Rule) :=
  let based (base : Nat) (mark : Text) : Rule := .single (inBase base mark)
  [("abs", .single absolute), ("bin", based 2 "b"), ("oct", based 8 "o"), ("hex", based 16 "x"),
    ("chr", .single character), ("ord", .single ordinal), ("hash", .single hashed),
    ("divmod", .double divide),
    ("pow", ⟨Rule.refuseMissing ["base", "exp"], none, none, some raise,
      .own fun _ _ => .error (.typeError (Rule.refuseMissing ["base", "exp"] "pow" 1))⟩),
    ("round", { Rule.oneOrTwo (roundTo · .none) roundTo with
      refuse := Rule.refuseMissing ["number"]
      naming := .unknown }),
    ("bool", .optional (.bool false) fun v => v.truth.map .bool),
    ("int", .flexible (.int 0) (fun v => v.toInt.map .int) fun v w => (v.toIntInBase w).map .int),
    ("float", .optional (.real 0.0) fun v => v.toFloat.map .real),
    ("complex", .flexible (.complex 0.0 0.0) toComplex joinParts)]

def stringRules : List (String × Rule) :=
  [("repr", .single fun v => asText v.shownOrFault),
    ("ascii", .single fun v => asText (shownInAscii v)),
    ("format", .oneOrTwo (fun v => asText (formatted v .empty)) fun v w =>
      asText (formattedAs v w)),
    ("str", .flexible (.text .empty) (fun v => asText v.plainOrFault)
      fun v w => asText (decodeText v w)),
    ("bytes", .flexible (.bytes []) (fun v => (bytesFrom "bytes" byteRefusal v).map .bytes)
      fun v w => (encodeText "bytes()" v w).map .bytes),
    ("bytearray", .flexible (.buffer [])
      (fun v => (bytesFrom "bytearray" bufferRefusal v).map .buffer)
      fun v w => (encodeText "bytearray()" v w).map .buffer)]

/-- A table with one more entry, under a text. -/
def tableWith (cells : Cells) (name : Text) (v item : Value) : Except Fault Value := do
  return .table (Value.insert (.text name) item (← entriesFrom cells v))

def collectionRules (cells : Cells) (keyword : Text) : List (String × Rule) :=
  let members (v : Value) : Except Fault (List Value) := membersOf cells v
  let extreme (callee : Text) (prefers : Value → Value → Except Fault Bool) : Rule :=
    { Rule.oneOrTwo (fun v => do foremostOf callee prefers (← members v))
        (fun v w => foremostOf callee prefers [v, w]) with
      naming := .unknown }
  [("all", .single fun v => do return .bool (← (← members v).allM (holds cells))),
    ("any", .single fun v => do return .bool (← (← members v).anyM (holds cells))),
    ("len", .single fun v => v.size.map .ofNat),
    ("list", .optional (.list []) fun v => (members v).map .list),
    ("tuple", .optional (.tuple []) fun v => (members v).map .tuple),
    ("set", .optional (.set []) fun v => do return .set (← Value.setOf (← members v))),
    ("frozenset", .optional (.frozenSet []) fun v => do
      return .frozenSet (← Value.setOf (← members v))),
    ("dict", { Rule.optional (.table []) (fun v => (entriesFrom cells v).map .table) with
      naming := .own (tableWith cells keyword) }),
    ("max", extreme "max" (Value.greater cells)), ("min", extreme "min" (Value.less cells)),
    ("sum", { Rule.oneOrTwo (sumFrom cells · (.int 0)) (sumFrom cells) with
      refuse := fun _ _ => "sum() takes at least 1 positional argument (0 given)"
      naming := .unknown }),
    ("sorted",
      ⟨Rule.refuseCount 1 1, none, some fun v => do
        return .list (← Value.sorted cells (← members v)), none, .own fun v _ => do
        discard (members v)
        throw (.typeError ("'" ++ keyword ++ "' is an invalid keyword argument for sort()"))⟩),
    ("next", .oneOrTwo notIterator fun v _ => notIterator v)]

/-- An object of a class about which nothing else is known. -/
def made (kind : Text) : Value := .object (.builtin kind) []

/-- Whether a loop can go over a value from its end. -/
def isReversible (v : Value) : Bool :=
  match v with
  | .table _ | .emptyContext => true
  | v => (sequenceItems? v).isSome

/-- What goes over the members of values later. Only whether it can be made is known here. -/
def walkRules (cells : Cells) : List (String × Rule) :=
  let walk (kind : Text) (v : Value) : Except Fault Value := do
    discard (membersOf cells v)
    return made kind
  [("iter", .oneOrTwo (fun v => walk (v.typeName ++ "_iterator") v) fun v _ =>
      if v.isCallable then .ok (made "callable_iterator")
      else .error (.typeError "iter(v, w): v must be callable")),
    ("enumerate",
      { Rule.oneOrTwo (walk "enumerate") (fun v start => do
          discard start.toIndex
          walk "enumerate" v) with
        refuse := fun callee _ => callee ++ "() missing required argument 'iterable'"
        naming := .unknown }),
    ("zip", ⟨Rule.refuseSingle, some (.ok (made "zip")), some (walk "zip"), some fun v w => do
      discard (walk "zip" v)
      walk "zip" w, .unknown⟩),
    ("map", { Rule.double (fun _ w => walk "map" w) with
      refuse := fun callee _ => callee ++ "() must have at least two arguments." }),
    ("filter", .double fun _ w => walk "filter" w),
    ("reversed",
      { Rule.single (fun v =>
          if isReversible v then .ok (made "reversed")
          else .error (.typeError ("'" ++ v.longTypeName ++ "' object is not reversible"))) with
        refuse := Rule.refuseCount 1 1 }),
    ("range", .oneOrTwo (fun v => do
        discard v.toIndex
        return made "range")
      fun v w => do
        discard v.toIndex
        discard w.toIndex
        return made "range")]

def classRules : List (String × Rule) :=
  [("callable", .single fun v => .ok (.bool v.isCallable)),
    ("type", ⟨fun _ _ => "type() takes 1 or 3 arguments", none, some fun v => .ok v.classValue,
      none, .none⟩),
    ("isinstance", .double fun v w => asBool (isInstance v w)),
    ("issubclass", .double fun v w => asBool (isSubclass v w)),
    ("getattr", { Rule.double getAttribute with refuse := Rule.refuseCount 2 3 }),
    ("hasattr", .double fun v w => asBool (hasAttribute v w)),
    ("setattr", ⟨Rule.refuseCount 3 3, none, none, none, .none⟩),
    ("vars", { Rule.single ownAttributes with refuse := Rule.refuseCount 0 1 }),
    ("object", ⟨fun _ _ => "object() takes no arguments",
      some (.ok (made "object")), none, none,
      .own fun _ _ => .error (.typeError "object() takes no arguments")⟩)]

/-- The rules of all functions and classes that have one, where `keyword` is what a value may be
called that is given by name. -/
def rules (cells : Cells) (keyword : Text) : List (String × Rule) :=
  numberRules ++ stringRules ++ collectionRules cells keyword ++ walkRules cells ++ classRules

def rule? (cells : Cells) (keyword : Text) (b : Builtin) : Option Rule :=
  ((rules cells keyword).find? fun (r : String × Rule) => b.owner = .builtin r.1).map (·.2)

/-! ### Calls -/

/-- The fault of a call that no rule covers. -/
def inapplicable (b : Builtin) : Fault :=
  .typeError ("'" ++ b.owner.name ++ "' cannot be applied")

/-- A call with some values. -/
def call (cells : Cells) (classes : List ClassShape) (b : Builtin) (arguments : List Value) :
    Except Fault Value :=
  let arguments := arguments.map (·.resolve cells)
  match b.rule? cells .empty, classes.find? fun c => c.owner = b.owner with
  | some r, _ => r.call b.owner.name arguments
  | none, some c => c.constructFrom arguments
  | none, none =>
    if b.isClass && b.owner.isFailure then makeFailure b.owner.name arguments
    else .error b.inapplicable

/-- The kinds of failures that may be given details by name. -/
def detailed : List Text :=
  ["AttributeError", "ImportError", "ModuleNotFoundError", "NameError", "UnboundLocalError"]

/-- A call with a value and with another one under a name that is no parameter. -/
def callNaming (cells : Cells) (classes : List ClassShape) (b : Builtin) (v : Value)
    (keyword : Text) (item : Value) : Except Fault Value :=
  let refused (message : Text) : Except Fault Value := .error (.typeError message)
  let callee := b.owner.name
  let v := v.resolve cells
  let naming : Option Naming := (b.rule? cells keyword).map (·.naming)
  match naming, classes.find? fun c => c.owner = b.owner with
  | some (.own f), _ => f v item
  | some .unknown, _ =>
    refused ("'" ++ keyword ++ "' is an invalid keyword argument for " ++ callee ++ "()")
  | none, some c => c.construct (((c.parameters.map (·.1)).zip [v]) ++ [(keyword, item)])
  | _, _ =>
    if b.owner.isFailure && detailed.contains callee then .ok (.failure callee [v])
    else if b.owner.isFailure && (FaultKind.demanding.lookup callee).any (·.2 = 2) then
      makeFailure callee [v]
    else refused (callee ++ "() takes no keyword arguments")

end MorphEngine.Builtin
