import MorphEngine.Metadata.Projection
import MorphEngine.Metadata.Quantity
import MorphEngine.Metadata.Schema

/-!
What is declared about a morph: whether it is pure, may be fused, may be cached and for how long,
what it costs, which part of the context matters, and whether it is asynchronous. Only a morph that
is both pure and memoizable is cached.
-/

namespace MorphEngine

structure MorphMetadata where
  pure : Bool
  fusible : Bool
  cost : Quantity
  memoizable : Bool
  cacheTtl : Option Quantity
  context : ContextProjection
  isAsync : Option Bool

namespace MorphMetadata

def owner : ClassName := ⟨"morpheus.metadata", "MorphMetadata"⟩

/-- What a morph is when nothing is declared about it. -/
def default : MorphMetadata := ⟨true, false, .ofInt 1, false, none, .whole, none⟩

def isCacheable (m : MorphMetadata) : Bool := m.pure && m.memoizable

def readFlag (fs : Fields) (name : Text) : Except Fault Bool :=
  match fs.get name with
  | .bool b => .ok b
  | v => v.refuse ("'" ++ name ++ "' must be a bool, got ") ""

def readCost (v : Value) : Except Fault Quantity :=
  match Quantity.ofValue? v with
  | some q => if q.meetsZero .less then refused else .ok q
  | none => refused
where
  refused : Except Fault Quantity := v.refuse "'cost' must be a number >= 0, got " ""

def readTtl (v : Value) : Except Fault (Option Quantity) :=
  match v with
  | .none => .ok none
  | v =>
    match Quantity.ofValue? v with
    | some q => if q.meetsZero .atMost then refused v else .ok (some q)
    | none => refused v
where
  refused (v : Value) : Except Fault (Option Quantity) :=
    v.refuse "'cache_ttl' must be a positive number of seconds, got " ""

def readAsync (v : Value) : Except Fault (Option Bool) :=
  match v with
  | .none => .ok none
  | .bool b => .ok (some b)
  | _ => .error (.configuration "'is_async' must be a bool or None")

def read (fs : Fields) : Except Fault MorphMetadata := do
  let pure ← readFlag fs "pure"
  let fusible ← readFlag fs "fusible"
  let memoizable ← readFlag fs "memoizable"
  let cost ← readCost (fs.get "cost")
  let cacheTtl ← readTtl (fs.get "cache_ttl")
  let isAsync ← readAsync (fs.get "is_async")
  let context ← ContextProjection.coerce (fs.get "context")
  return { pure, fusible, cost, memoizable, cacheTtl, context, isAsync }

def ttlValue (ttl : Option Quantity) : Value := ttl.elim .none (·.given)

def toFields (m : MorphMetadata) : Fields :=
  [("pure", .bool m.pure), ("fusible", .bool m.fusible), ("cost", m.cost.given),
    ("memoizable", .bool m.memoizable), ("cache_ttl", ttlValue m.cacheTtl),
    ("context", m.context.toValue), ("is_async", m.isAsync.elim .none .bool)]

def toValue (m : MorphMetadata) : Value := .object owner m.toFields

def ofValue? : Value → Option MorphMetadata
  | .object c fs => if c = owner then (read fs).toOption else none
  | _ => none

def schema : Schema MorphMetadata where
  name := owner.name
  defaults := default.toFields
  aliases :=
    [("cacheTTL", "cache_ttl"), ("cacheTtl", "cache_ttl"), ("ttl", "cache_ttl"),
      ("isAsync", "is_async"), ("relevantContext", "context"), ("relevant_context", "context")]
  read := read
  ofValue? := ofValue?
  replace m given := read (Fields.overlay m.toFields given)

/-- Metadata from a value and from values given by name. -/
def coerce (v : Value) (overrides : Fields) : Except Fault MorphMetadata :=
  schema.coerceCall "coerce_morph_metadata" v overrides.entries

/-- The report of the metadata, without asynchrony. -/
def report (m : MorphMetadata) : Fields :=
  [("pure", .bool m.pure), ("fusible", .bool m.fusible), ("cost", m.cost.given),
    ("memoizable", .bool m.memoizable), ("cache_ttl", ttlValue m.cacheTtl),
    ("context", .text m.context.kind.name)]

end MorphMetadata

end MorphEngine
