import MorphEngine.Fingerprint
import MorphEngine.MemoCache
import MorphEngine.Settings

/-!
Computations of the engine. A computation changes the caches and whatever state the user functions
keep, and ends in a result or a fault; the state survives a fault. User functions come from a host,
about which nothing is assumed: they may fail, keep state, call back, and hand out awaitable results
that only the host can bring to their end.
-/

namespace MorphEngine

/-- What makes a cached result reusable: the name of the morph, the fingerprint of the input and the
fingerprint of the part of the context that matters. -/
structure CacheKey where
  name : Text
  input : Digest
  context : Digest
deriving DecidableEq

/-- The cache of a morph, whose times are the readings of a clock. -/
abbrev ResultCache := MemoCache Value CacheKey Value

/-- All caches by number, and the state of the user functions. -/
structure World (U : Type) where
  caches : Nat → ResultCache
  user : U

abbrev Engine (U α : Type) := ExceptT Fault (StateM (World U)) α

/-- The user functions. A selector gets one argument, any other function gets a value and a context.
Reading a clock changes nothing, but can fail. -/
structure Host (U : Type) where
  cells : Cells
  call : Value → Value → Value → Engine U Value
  select : Value → Value → Engine U Value
  await : Value → Engine U Value
  now : Clock → World U → Except Fault Value

namespace Engine

variable {U : Type}

def ofExcept {α : Type} (r : Except Fault α) : Engine U α := ExceptT.mk (pure r)

/-- Runs an operation on one cache, given the reading of a clock. -/
def onCache {α : Type} (h : Host U) (clock : Clock) (slot : Nat)
    (f : Except Fault Value → ResultCache → Except Fault α × ResultCache) : Engine U α :=
  ExceptT.mk fun w =>
    let (result, cache) := f (h.now clock w) (w.caches slot)
    (result, { w with caches := fun i => if i = slot then cache else w.caches i })

/-- Changes one cache. -/
def modifyCache (slot : Nat) (f : ResultCache → ResultCache) : Engine U Unit :=
  ExceptT.mk fun w =>
    (.ok (), { w with caches := fun i => if i = slot then f (w.caches slot) else w.caches i })

/-- Runs a computation, and another one on the fault if it fails. -/
def orElse {α : Type} (m : Engine U α) (handle : Fault → Engine U α) : Engine U α :=
  ExceptT.mk fun w =>
    match m.run w with
    | (.ok a, w) => (.ok a, w)
    | (.error f, w) => (handle f).run w

/-- The computation with each fault changed. -/
def mapFault {α : Type} (f : Fault → Fault) (m : Engine U α) : Engine U α :=
  m.orElse fun e => throw (f e)

/-- The part of a context that a projection selects. -/
def project (h : Host U) (p : ContextProjection) (context : Value) : Engine U Value :=
  match p.kind with
  | .whole => pure context
  | .ignore => pure .none
  | .custom => h.select p.selector context
  | .keys => do
    let names ← ofExcept p.names.iterate
    ofExcept (ContextProjection.keyed names (context.resolve h.cells))

/-- The fingerprints of an input and of the part of a context that matters; nothing when one of the
two has none. -/
def fingerprints (h : Host U) (input : Value) (part : Engine U Value) :
    Engine U (Option (Digest × Digest)) :=
  orElse
    (do
      let a ← ofExcept (fingerprint h.cells input)
      let b ← ofExcept (fingerprint h.cells (← part))
      return some (a, b))
    fun f => if f.isUnfingerprintable then pure none else throw f

end Engine

end MorphEngine
