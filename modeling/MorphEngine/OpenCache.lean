import MorphEngine.Session

/-!
A cache by itself, together with the session whose clock it goes by. Its keys are any values that
can be keys, or are made from an input and a context as for a morph. An input or context without a
fingerprint has no key; the call is counted as skipped. Name, time to live and projection are values
that are taken as they come, and fail only when they are used for what they cannot do.
-/

namespace MorphEngine

structure OpenCache where
  name : Value
  ttl : Value
  limit : Nat
  projection : Value
  cache : MemoCache Value Value Value
  session : Session

namespace OpenCache

instance : BEq Value := ⟨Value.same⟩

/-- Uses of the cache; what a failed use has changed stays changed. -/
abbrev Use (α : Type) := ExceptT Fault (StateM OpenCache) α

/-- The cache as it is at first. A projection that counts as false is none. -/
def start (name ttl maxsize projection : Value) (session : Session) : Except Fault OpenCache := do
  let isGiven ← (projection.resolve session.cells).truth
  return ⟨name, ttl, ← CacheRule.readLimit maxsize, if isGiven then projection else .none, .empty,
    session⟩

def current : Use OpenCache := ExceptT.mk fun c => (.ok c, c)

def inSession {α : Type} (a : Session.Action α) : Use α := ExceptT.mk fun c =>
  let (r, s) := a.run c.session
  (r, { c with session := s })

/-- Runs an operation on the cache, given the time. -/
def onCache {α : Type}
    (f : OpenCache → Value → MemoCache Value Value Value →
      Except Fault α × MemoCache Value Value Value) : Use α :=
  ExceptT.mk fun c =>
    let (result, cache) := f c (.real c.session.world.user.clock) c.cache
    (result, { c with cache := cache })

def ofExcept {α : Type} (r : Except Fault α) : Use α := ExceptT.mk (pure r)

/-- The part of a context that matters: all of it without a projection. What is given in place of a
projection is asked for the part under the name of that operation. -/
def part (c : OpenCache) (h : Host UserState) (context : Value) : Engine UserState Value :=
  match c.projection, ContextProjection.ofValue? c.projection with
  | .none, _ => return context
  | _, some p => Engine.project h p context
  | given, none => do
    h.select (← Engine.ofExcept ((given.resolve h.cells).readAttribute "project")) context

/-- The key for an input and a context, nothing standing for a missing one. -/
def keyFor (input context : Value) : Use Value := do
  let c ← current
  match ← inSession (Session.run fun h => Engine.fingerprints h input (c.part h context)) with
  | some (a, b) => return .tuple [c.name, .text a.hex, .text b.hex]
  | none => onCache fun _ _ cache => (.ok .none, cache.skip)

/-- Whether an entry is stale at a time, or the fault of not being able to say. -/
def judge (c : OpenCache) (now insertedAt : Value) : Except Fault Bool :=
  CacheRule.isStale c.session.cells c.ttl now insertedAt

/-- Fails when a value cannot be a key, or cannot be looked for among those that are there. -/
def checkKey (key : Value) : Use Unit := do
  ofExcept (key.checkKeyAmong ((← current).cache.entries.map (·.key)))

def lookup (key : Value) : Use (Option Value) := do
  checkKey key
  onCache fun c now => MemoCache.lookup (c.judge now) key

def contains (key : Value) : Use Bool := do
  checkKey key
  onCache fun c now => MemoCache.contains (c.judge now) key

/-- Stores a value. A store that is refused counts too, whether for want of room or for its key. -/
def store (key value : Value) : Use Unit :=
  onCache fun c now cache =>
    match key.checkKeyAmong (cache.entries.map (·.key)) with
    | .ok () => cache.store c.limit (.ok now) key value
    | .error f => cache.store c.limit (if c.limit = 0 then .ok now else .error f) key value

/-- Drops the stale entries. -/
def expire : Use Nat :=
  onCache fun c now cache =>
    match c.ttl with
    | .none => (.ok 0, cache)
    | _ => cache.sweep (c.judge now)

def clear : Use Unit := onCache fun _ _ cache => (.ok (), cache.clear)

def report : Use Fields := do
  let c ← current
  return c.cache.report c.ttl

def shown : Use Text := do
  let c ← current
  ofExcept (c.cache.shown c.name c.ttl)

end OpenCache

end MorphEngine
