import MorphEngine.Builtin
import MorphEngine.Catalog
import MorphEngine.Morph.Run
import MorphEngine.Value.Product

/-!
Recipes: small programs for user functions, as data. A recipe gets a value and a context and gives a
value or fails. It can keep count of its calls, move the clock, and apply by name what can be
applied: a morph, or a catalog, which takes the value for a name and the context for the input. A
function is a recipe with a tag for the log and a form, which says whether a call runs the recipe or
hands out an awaitable result.
-/

namespace MorphEngine

inductive Recipe where
  | same
  | const (v : Value)
  | add (n : Value)
  | mul (n : Value)
  | min (n : Value)
  | neg
  | square
  | gt (n : Value)
  | strip
  | upper
  | lower
  | append (t : Value)
  | prepend (t : Value)
  | length
  | get (key : Value)
  | put (key item : Value)
  | wrap
  | dup
  | kindOf
  | truthy
  | eq (v : Value)
  | ctx (key : Value)
  | ctxOr (key fallback : Value)
  | ctxAdd (key : Value)
  | ctxPrefix (key : Value)
  | ctxAll
  | raise (kind : Text) (message : Option Value)
  | raiseIf (v : Value) (kind : Text) (message : Option Value)
  | raiseTransform (name : Value) (kind : Text) (message : Option Value)
  | failTimes (n : Value) (kind : Text) (message : Option Value)
  | count
  | advance (seconds : Value)
  | call (target : Text)
  | seq (parts : List Recipe)

/-- How a function answers a call. -/
inductive FunctionForm where
  | direct
  /-- Declared asynchronous: the recipe runs when the result is awaited. -/
  | async
  /-- Hands out an awaitable result without being declared asynchronous. -/
  | lazy
  /-- Hands out an awaitable result that goes on step by step, as an iteration does. -/
  | stepwise
deriving DecidableEq

structure UserFunction where
  tag : Text
  form : FunctionForm
  recipe : Recipe

/-- What an awaitable result still has to do. -/
inductive Task where
  | body (function : Nat) (value context : Value)
  | morph (id : Nat) (input context : Value)
  /-- Nothing any more: it has been awaited, which it can be but once. -/
  | spent

/-- The state that functions share: the clock, the log of calls, the counts of calls by function and
place in its recipe, and the tasks behind awaitable results. -/
structure UserState where
  clock : Float
  log : List (Text × Value)
  counts : List ((Nat × List Nat) × Nat)
  tasks : List Task

/-- What can be asked to apply something to a value and a context. -/
inductive Applicant where
  | morph (m : Morph)
  | catalog (c : Catalog)
  | other (v : Value)

/-- What functions refer to: each other, morphs by identity, what has a name now, and the classes
that can be called. -/
structure Environment where
  functions : List UserFunction
  morphs : List Morph
  named : List (Text × Applicant)
  cells : Cells
  classes : List ClassShape

namespace Recipe

abbrev Run (α : Type) := Engine UserState α

def fail {α : Type} (f : Fault) : Run α := throw f

/-- The fault of a recipe that does not take such a value. -/
def unsupported {α : Type} (recipe : Text) (v : Value) : Run α :=
  fail (.typeError (recipe ++ ": unsupported " ++ v.typeName))

def user : Run UserState := ExceptT.mk fun w => (.ok w.user, w)

def modifyUser (f : UserState → UserState) : Run Unit :=
  ExceptT.mk fun w => (.ok (), { w with user := f w.user })

/-- Counts a call at a place and says how many there were before. -/
def countCall (place : Nat × List Nat) : Run Nat := do
  let n := ((← user).counts.lookup place).getD 0
  modifyUser fun u => { u with counts := (place, n + 1) :: u.counts.filter (·.1 != place) }
  return n

def onInt (recipe : Text) (v : Value) (f : Int → Except Fault Value) : Run Value :=
  match v with
  | .bool _ => unsupported recipe v
  | v => v.int?.elim (unsupported recipe v) fun n => Engine.ofExcept (f n)

def onText (recipe : Text) (v : Value) (f : Text → Except Fault Value) : Run Value :=
  v.text?.elim (unsupported recipe v) fun t => Engine.ofExcept (f t)

def onEntries (recipe : Text) (v : Value) : Run (List (Value × Value)) :=
  v.entries?.elim (unsupported recipe v) fun es => return es

/-- What entries hold under a key. -/
def lookIn (entries : List (Value × Value)) (key : Value) : Run (Option Value) :=
  Engine.ofExcept (Value.lookUp entries key)

def demand (entries : List (Value × Value)) (key : Value) : Run Value := do
  match ← lookIn entries key with
  | some v => return v
  | none => fail (.missingKey key)

/-- The blanks that a recipe strips: space, tab, carriage return and line feed. -/
def isStripped (c : CodePoint) : Bool := [32, 9, 13, 10].contains c.val

mutual

/-- Runs a recipe as part of function `fn`, at a place inside its recipe; `applyTo` applies the
morph of a name. -/
def eval (cells : Cells) (applyTo : Text → Value → Value → Run Value) (fn : Nat) :
    Recipe → List Nat → Value → Value → Run Value
  | recipe, place, value, context =>
    let v := value.resolve cells
    let c := context.resolve cells
    match recipe with
    | .same => return value
    | .const w => return w
    | .add n => onInt "add" v fun _ => v.plus n
    | .mul n => onInt "mul" v fun _ => v.times n
    | .min n => onInt "min" v fun _ => do return if ← Value.less cells n v then n else v
    | .neg => onInt "neg" v fun k => .ok (.int (-k))
    | .square => onInt "square" v fun k => .ok (.int (k * k))
    | .gt n => onInt "gt" v fun _ => v.relate cells .greater n
    | .strip => onText "strip" v fun t => .ok (.text (t.trim isStripped))
    | .upper => onText "upper" v fun t => .ok (.text t.upperAscii)
    | .lower => onText "lower" v fun t => .ok (.text t.lowerAscii)
    | .append t => onText "append" v fun _ => v.plus t
    | .prepend t => onText "prepend" v fun _ => t.plus v
    | .length => v.length?.elim (unsupported "length" v) fun n => return .ofNat n
    | .get key => do demand (← onEntries "get" v) key
    | .put key item => do
      let es ← onEntries "put" v
      return .table (← Engine.ofExcept (Value.put es key item))
    | .wrap => return .list [value]
    | .dup => return .tuple [value, value]
    | .kindOf => return .text v.typeName
    | .truthy => do return .bool (← Engine.ofExcept v.truth)
    | .eq w => Engine.ofExcept (v.equal cells w)
    | .ctx key => do demand (← onEntries "ctx" c) key
    | .ctxOr key fallback => do
      return (← lookIn (← onEntries "ctx_or" c) key).getD fallback
    | .ctxAdd key => do
      let es ← onEntries "ctx_add" c
      match v, v.int? with
      | .bool _, _ => unsupported "ctx_add" v
      | _, some _ => do Engine.ofExcept (v.plus (← demand es key))
      | _, none => unsupported "ctx_add" v
    | .ctxPrefix key => do
      let es ← onEntries "ctx_prefix" c
      if v.isText then
        let head ← demand es key
        Engine.ofExcept do (← head.plus (.text ":")).plus v
      else unsupported "ctx_prefix" v
    | .ctxAll => return context
    | .raise kind message => fail (Fault.raised kind message)
    | .raiseIf w kind message => do
      if ← Engine.ofExcept do (← v.equal cells w).truth then fail (Fault.raised kind message)
      else return value
    | .raiseTransform name kind message =>
      fail (Fault.raisedFor name kind message context)
    | .failTimes n kind message => do
      let earlier ← countCall (fn, place)
      if ← Engine.ofExcept (Value.less cells (.ofNat earlier) n) then
        fail (Fault.raised kind message)
      else return value
    | .count => do return .tuple [value, .ofNat (← countCall (fn, place))]
    | .advance seconds => do
      let passed ← Engine.ofExcept seconds.toFloat
      modifyUser fun u => { u with clock := u.clock + passed }
      return value
    | .call target => applyTo target value context
    | .seq parts => evalAll cells applyTo fn parts (place ++ [0]) value context

/-- Runs recipes one after the other, each at its own place. -/
def evalAll (cells : Cells) (applyTo : Text → Value → Value → Run Value) (fn : Nat) :
    List Recipe → List Nat → Value → Value → Run Value
  | [], _, value, _ => return value
  | r :: rest, place, value, context => do
    let value ← eval cells applyTo fn r place value context
    evalAll cells applyTo fn rest (place ++ [1]) value context

end

end Recipe

namespace Environment

open Recipe

/-- Hands out an awaitable result for a task. -/
def postpone (t : Task) : Run Value := do
  let n := (← user).tasks.length
  modifyUser fun u => { u with tasks := u.tasks ++ [t] }
  return .awaitable n

/-- From now on a task cannot be awaited. -/
def spend (n : Nat) : Run Unit := modifyUser fun u => { u with tasks := u.tasks.set n .spent }

def alreadyAwaited : Fault := .plain .runtime "cannot reuse already awaited coroutine"

def findMorph (e : Environment) (id : Nat) : Option Morph := e.morphs.find? fun m => m.id = id

/-- The result of applying a morph, an awaitable one if the morph is asynchronous. -/
def applied (h : Host UserState) (m : Morph) (input context : Value) : Run Value := do
  match ← Morph.apply h m input context with
  | .value v => return v
  | .deferred _ => postpone (.morph m.id input (Morph.contextInEffect context))

/-- The fault of calling what cannot be called. -/
def inapplicable (fn : Value) : Fault :=
  .typeError ("'" ++ fn.longTypeName ++ "' object is not callable")

def unknownName (name : Text) : Fault := .plain (.other "UnknownVariable") name

/-- The fault of applying what a catalog does not hold. -/
def unregistered (name : Value) : Except Fault Value := do
  throw (.missingKey (.text ("Morph not registered: " ++ (← name.insertedOrFault))))

/-- Applies the target registered under a name. -/
def appliedFrom (h : Host UserState) (c : Catalog) (name input context : Value) : Run Value := do
  match ← Engine.ofExcept (c.get name) with
  | some r => applied h r.target input context
  | none => Engine.ofExcept (unregistered name)

/-- Applies what has a name to a value and a context. -/
def appliedTo (h : Host UserState) (v context : Value) : Applicant → Run Value
  | .morph m => applied h m v context
  | .catalog c => appliedFrom h c v context .none
  | .other w => throw (.lacking w "apply")

/-- Runs the recipe of a function and logs the call first. -/
def runBody (e : Environment) (h : Host UserState) (id : Nat) (f : UserFunction) (tagged : Value)
    (context : Value) : Run Value := do
  modifyUser fun u => { u with log := u.log ++ [(f.tag, tagged)] }
  let applyTo (name : Text) (input context : Value) : Run Value :=
    match e.named.lookup name with
    | some a => appliedTo h input context a
    | none => throw (unknownName name)
  f.recipe.eval e.cells applyTo id [] tagged context

def callFunction (e : Environment) (h : Host UserState) (id : Nat) (v context : Value) :
    Run Value :=
  match e.functions[id]? with
  | none => throw (inapplicable (.function id false))
  | some f =>
    match f.form with
    | .direct => runBody e h id f v context
    | .async | .lazy | .stepwise => postpone (.body id v context)

/-- The fault of a function as it leaves the awaiting of its result. -/
def leaving : FunctionForm → Fault → Fault
  | .stepwise => Fault.leaveIteration
  | _ => Fault.leaveDeferred

def tooDeep : Fault := .plain .recursion "maximum recursion depth exceeded"

/-- The fault of calling a morph with nothing to apply it to. -/
def missingInput (callee : Text) : Fault :=
  .typeError (callee ++ "() missing 1 required positional argument: 'input'")

/-- What comes of calling a value with nothing at all, which no function takes. -/
def callBare (e : Environment) (fn : Value) : Except Fault Value :=
  match fn with
  | .builtin b =>
    if fn.isCallable then b.call e.cells e.classes [] else .error (inapplicable fn)
  | .part (.morph _) _ _ _ => .error (missingInput "Morph.__call__")
  | .function _ _ =>
    .error (.typeError "selector() missing 1 required positional argument: 'context'")
  | fn => .error (inapplicable fn)

/-- What comes of calling a value with another one and with one more under a name that is no
parameter. -/
def callNaming (e : Environment) (fn v : Value) (keyword : Text) (item : Value) :
    Except Fault Value :=
  let unexpected (callee : Text) : Except Fault Value :=
    .error (.typeError (callee ++ "() got an unexpected keyword argument '" ++ keyword ++ "'"))
  match fn with
  | .builtin b =>
    if fn.isCallable then b.callNaming e.cells e.classes v keyword item
    else .error (inapplicable fn)
  | .part (.morph _) _ _ _ => unexpected "Morph.__call__"
  | .function _ _ => unexpected "selector"
  | fn => .error (inapplicable fn)

/-- The clock that stands still shows zero. -/
def readClock (e : Environment) (clock : Clock) (w : World UserState) : Except Fault Value :=
  match clock with
  | .moving => .ok (.real w.user.clock)
  | .still => .ok (.real 0.0)
  | .asked fn => e.callBare fn

/-- The host of the functions. Functions that apply morphs may call each other to a depth of `fuel`.
-/
def host (e : Environment) : Nat → Host UserState
  | 0 =>
    { cells := e.cells
      call := fun _ _ _ => throw tooDeep
      select := fun _ _ => throw tooDeep
      await := fun _ => throw tooDeep
      now := readClock e }
  | fuel + 1 =>
    let inner := host e fuel
    let call (fn v context : Value) : Run Value :=
      match fn with
      | .function id _ => callFunction e inner id v context
      | .part (.morph _) id _ _ =>
        match e.findMorph id with
        | some m => applied inner m v context
        | none => throw (inapplicable fn)
      | .builtin b =>
        if fn.isCallable then Engine.ofExcept (b.call e.cells e.classes [v, context])
        else throw (inapplicable fn)
      | fn => throw (inapplicable fn)
    { cells := e.cells
      call := call
      select := fun fn context =>
        match fn with
        | .function id _ => callFunction e inner id context context
        | .builtin b =>
          if fn.isCallable then Engine.ofExcept (b.call e.cells e.classes [context])
          else throw (inapplicable fn)
        | fn => call fn context .none
      await := fun v => do
        match v with
        | .awaitable n =>
          match (← user).tasks[n]? with
          | some (.body id value context) =>
            match e.functions[id]? with
            | some f => do
              -- What goes step by step starts anew every time.
              unless f.form = .stepwise do spend n
              (runBody e inner id f value context).mapFault (leaving f.form)
            | none => return v
          | some (.morph id input context) =>
            match e.findMorph id with
            | some m => do
              spend n
              Morph.executeDeferred inner m.head m.name input context
                (Morph.transform inner m input context)
            | none => return v
          | some .spent => throw alreadyAwaited
          | none => return v
        | v => return v
      now := readClock e }

end Environment

end MorphEngine
