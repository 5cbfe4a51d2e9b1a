import MorphEngine.Morph

/-!
Running morphs. A transformation gives a value or a deferred computation. The direct path refuses a
result that would have to be awaited, since nothing there can await it; the deferred path awaits it.
On both paths a cached result is used when there is one, faults are blamed on the label under which
the morph runs, and a result is stored only when the transformation has ended well.
-/

namespace MorphEngine

/-- What a transformation gives: a value, or a computation that still has to be run. -/
inductive Reply (U : Type) where
  | value (v : Value)
  | deferred (run : Engine U Value)

namespace Morph

variable {U : Type}

/-- The fault of a result that cannot be awaited. -/
def unawaited (name : Name) : Fault :=
  .typeError ("'" ++ name.plain ++ "' returned an awaitable on the synchronous path; " ++
    "declare it with is_async=True")

/-- The key under which a morph's cache may hold the result; a call without a key is counted as
skipped. -/
def cacheKey (h : Host U) (head : Header) (input context : Value) : Engine U (Option CacheKey) :=
  match head.cache with
  | none => return none
  | some slot => do
    match ← Engine.fingerprints h input (Engine.project h slot.rule.projection context) with
    | some (a, b) => return some ⟨head.name.text, a, b⟩
    | none => do
      Engine.modifyCache head.id MemoCache.skip
      return none

/-- Whether an entry of a cache is stale at a reading of its clock, or the fault of not being able
to say. -/
def judge (h : Host U) (slot : CacheSlot) (now : Except Fault Value) (insertedAt : Value) :
    Except Fault Bool := do
  CacheRule.isStale h.cells slot.rule.ttl (← now) insertedAt

/-- The fresh result that the cache holds under a key. -/
def cached (h : Host U) (head : Header) (key : Option CacheKey) : Engine U (Option Value) :=
  match head.cache, key with
  | some slot, some key =>
    Engine.onCache h slot.clock head.id fun now => MemoCache.lookup (judge h slot now) key
  | _, _ => return none

/-- Puts a result into the cache under a key. -/
def remember (h : Host U) (head : Header) (key : Option CacheKey) (v : Value) : Engine U Unit :=
  match head.cache, key with
  | some slot, some key =>
    Engine.onCache h slot.clock head.id fun now => MemoCache.store slot.rule.limit now key v
  | _, _ => return ()

/-- Drops the stale results from a cache and says how many there were. Without a time to live there
are none, whatever the clock. -/
def expire (h : Host U) (head : Header) (slot : CacheSlot) : Engine U Nat :=
  match slot.rule.ttl with
  | .none => return 0
  | ttl =>
    Engine.onCache h slot.clock head.id fun now cache =>
      match now with
      | .error f => (.error f, cache)
      | .ok now => cache.sweep (CacheRule.isStale h.cells ttl now)

/-- A transformation under a morph's cache, given how it is run when there is no result yet. -/
def throughCache (h : Host U) (head : Header) (input context : Value) (run : Engine U Value) :
    Engine U Value := do
  let key ← cacheKey h head input context
  match ← cached h head key with
  | some v => return v
  | none => do
    let v ← run
    remember h head key v
    return v

/-- A transformation run once on the direct path. -/
def callOnce (head : Header) (label : Name) (context : Value) (transform : Engine U (Reply U)) :
    Engine U Value := do
  let refused : Engine U Value :=
    throw (Fault.transform label.given (unawaited head.name) context true)
  match ← transform.mapFault (Fault.blame label context) with
  | .deferred _ => refused
  | .value v => if v.isAwaitable then refused else return v

/-- The value of a reply on the deferred path. -/
def settle (h : Host U) : Reply U → Engine U Value
  | .value v => if v.isAwaitable then h.await v else return v
  | .deferred run => run

/-- A transformation run to its end on the deferred path. -/
def awaitOnce (h : Host U) (label : Name) (context : Value) (transform : Engine U (Reply U)) :
    Engine U Value :=
  Engine.mapFault (Fault.blame label context) (transform >>= settle h)

/-- The direct path of a morph under a label. -/
def execute (h : Host U) (head : Header) (label : Name) (input context : Value)
    (transform : Engine U (Reply U)) : Engine U Value :=
  throughCache h head input context (callOnce head label context transform)

/-- The deferred path of a morph under a label, a computation that the end of an iteration cannot
leave as such. -/
def executeDeferred (h : Host U) (head : Header) (label : Name) (input context : Value)
    (transform : Engine U (Reply U)) : Engine U Value :=
  Engine.mapFault Fault.leaveDeferred
    (throughCache h head input context (awaitOnce h label context transform))

/-- The last function of a sequence, on the deferred path. -/
def finishDeferred (h : Host U) (finish : Option Value) (v context : Value) : Engine U Value :=
  match finish with
  | none => return v
  | some fn => do settle h (.value (← h.call fn v context))

mutual

def transform (h : Host U) : Morph → Value → Value → Engine U (Reply U)
  | simple _ fn, input, context => .value <$> h.call fn input context
  | identity _, input, _ => return .value input
  | composed head steps finish, input, context =>
    if isAsync (composed head steps finish) then
      return .deferred (Engine.mapFault Fault.leaveDeferred do
        finishDeferred h finish (← runStepsDeferred h steps input context) context)
    else do
      let v ← runSteps h steps input context
      match finish with
      | none => return .value v
      | some fn => .value <$> h.call fn v context
  | conditional _ predicate body, input, context => do
    let holds ← h.call predicate input context
    if ← Engine.ofExcept (holds.resolve h.cells).truth then
      if body.isAsync then
        return .deferred
          (executeDeferred h body.head body.name input context (transform h body input context))
      else
        .value <$> execute h body.head body.name input context (transform h body input context)
    else return .value input
  | fused _ members, input, context => .value <$> runMembers h members input context
  | pipeline head _ stages _, input, context =>
    if head.metadata.isAsync.getD false then
      return .deferred (runStagesDeferred h stages input context)
    else .value <$> runStages h stages input context

/-- The steps of a sequence, each under its own name and through its own cache. -/
def runSteps (h : Host U) : List Morph → Value → Value → Engine U Value
  | [], v, _ => return v
  | m :: rest, v, context => do
    let v ← execute h m.head m.name v context (transform h m v context)
    runSteps h rest v context

def runStepsDeferred (h : Host U) : List Morph → Value → Value → Engine U Value
  | [], v, _ => return v
  | m :: rest, v, context => do
    let v ← executeDeferred h m.head m.name v context (transform h m v context)
    runStepsDeferred h rest v context

/-- The members of a fused run, each under its label and past its cache. -/
def runMembers (h : Host U) : List Stage → Value → Value → Engine U Value
  | [], v, _ => return v
  | .mk label m :: rest, v, context => do
    let v ← callOnce m.head label context (transform h m v context)
    runMembers h rest v context

/-- The stages of a pipeline, each under its label and through its cache. -/
def runStages (h : Host U) : List Stage → Value → Value → Engine U Value
  | [], v, _ => return v
  | .mk label m :: rest, v, context => do
    let v ← execute h m.head label v context (transform h m v context)
    runStages h rest v context

def runStagesDeferred (h : Host U) : List Stage → Value → Value → Engine U Value
  | [], v, _ => return v
  | .mk label m :: rest, v, context => do
    let v ← executeDeferred h m.head label v context (transform h m v context)
    runStagesDeferred h rest v context

end

/-- The context in effect: a missing one counts as empty. -/
def contextInEffect : Value → Value
  | .none => .emptyContext
  | c => c

/-- Applies a morph. An asynchronous morph runs only when its reply is awaited. -/
def apply (h : Host U) (m : Morph) (input context : Value) : Engine U (Reply U) :=
  let context := contextInEffect context
  if m.isAsync then
    return .deferred
      (executeDeferred h m.head m.name input context (transform h m input context))
  else .value <$> execute h m.head m.name input context (transform h m input context)

/-- Applies a morph on the deferred path. A pipeline runs its stages directly, outside its own
label. -/
def applyAsync (h : Host U) (m : Morph) (input context : Value) : Engine U Value :=
  let context := contextInEffect context
  match m with
  | pipeline _ _ stages _ => runStagesDeferred h stages input context
  | m => executeDeferred h m.head m.name input context (transform h m input context)

end Morph

end MorphEngine
