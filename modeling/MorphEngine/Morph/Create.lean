import MorphEngine.Morph
import MorphEngine.Value.Order
import MorphEngine.Value.Product
import MorphEngine.Value.Sum

/-!
Making morphs. Each takes the identity that the new morph gets. Names must be texts that are not
empty; functions must be callable; parts must be morphs. What is not declared about a morph made of
others is derived from its parts.
-/

namespace MorphEngine

namespace Morph

/-- The name of a new morph. -/
def readName (v : Value) : Except Fault Name :=
  match Name.ofValue? v with
  | some n => if n.isEmpty then refused else .ok n
  | none => refused
where
  refused : Except Fault Name := v.refuse "Morph name must be a non-empty string, got " ""

/-- The cache of a new morph, if it is to have one. -/
def cacheSlot (name : Name) (m : MorphMetadata) (settings : CacheSettings) :
    Except Fault { slot : Option CacheSlot // slot.isSome = true → m.isCacheable = true } :=
  if cacheable : m.isCacheable = true then do
    let ttl ←
      match m.cacheTtl with
      | some q => pure q.given
      | none => settings.defaultTtl
    let maxsize ← settings.maxsize
    let clock ← settings.clock
    let limit ← CacheRule.readLimit maxsize
    return ⟨some ⟨⟨name.given, ttl, limit, m.context⟩, maxsize, clock⟩, fun _ => cacheable⟩
  else .ok ⟨none, nofun⟩

def makeHeader (id : Nat) (name : Value) (m : MorphMetadata) (settings : CacheSettings) :
    Except Fault Header := do
  let name ← readName name
  let slot ← cacheSlot name m settings
  return ⟨id, name, m, slot.val, slot.property⟩

/-- A morph backed by a function, from metadata that is complete. -/
def ofFunction (id : Nat) (name fn : Value) (m : MorphMetadata) (settings : CacheSettings) :
    Except Fault Morph := do
  unless fn.isCallable do
    throw (.configuration
      ("Morph '" ++ (← name.insertedOrFault) ++ "' needs a callable, got " ++ (← fn.shownOrFault)))
  return simple (← makeHeader id name m settings) fn

/-- A morph backed by a function, with metadata and further declarations. -/
def create (id : Nat) (name fn metadata : Value) (settings : CacheSettings) (options : Fields) :
    Except Fault Morph := do
  let m ← MorphMetadata.coerce metadata options
  ofFunction id name fn m settings

/-- What morphs cost together: the sum from left to right, starting at the whole number zero. -/
def costSum (ms : List Morph) : Except Fault Value :=
  ms.foldlM (fun total m => total.plus m.cost.given) (.int 0)

/-- What is declared about a sequence: its purity and cost come from its parts unless they are
given. A finishing function makes it impure, and one unit dearer unless it counts as false. -/
def composedMetadata (steps : List Morph) (finish : Option Value) (metadata : Value) :
    Except Fault (Except Value MorphMetadata) := do
  let pure := finish.isNone && steps.all isPure
  let cost ← (← costSum steps).plus (.int (if finish.any Value.truthy then 1 else 0))
  let derived : Fields := [("pure", .bool pure), ("cost", cost)]
  match metadata, metadata.entries? with
  | .none, _ => return .ok (← MorphMetadata.coerce .none derived)
  | _, some es =>
    let missing := derived.filter fun f => (Value.find? es (.text f.1)).isNone
    return .ok (← MorphMetadata.coerce metadata missing)
  | _, none => return .error metadata

/-- A sequence of morphs, with a function that finishes the result. -/
def compose (id : Nat) (name : Value) (steps : List (Value × Option Morph))
    (finish metadata : Value) (settings : CacheSettings) : Except Fault Morph := do
  let steps ← steps.mapM fun s =>
    match s.2 with
    | some m => .ok m
    | none => do
      let title := "ComposedMorph '" ++ (← name.insertedOrFault)
      s.1.refuse (title ++ "' can only compose morphs, got ") ""
  let finish ←
    match finish with
    | .none => pure none
    | fn =>
      if fn.isCallable then pure (some fn)
      else
        throw (.configuration
          ("ComposedMorph '" ++ (← name.insertedOrFault) ++ "' post-processor must be callable"))
  match ← composedMetadata steps finish metadata with
  | .ok m => return composed (← makeHeader id name m settings) steps finish
  | .error v =>
    discard (readName name)
    return composed (← makeHeader id name (← MorphMetadata.coerce v []) settings) steps finish

/-- A morph that runs only when a predicate holds. It is never fused or cached, and costs four
fifths of what it wraps. -/
def conditionalOn (id : Nat) (name predicate : Value) (body : Value × Option Morph)
    (settings : CacheSettings) : Except Fault Morph := do
  let title : Except Fault Text := do return "Conditional '" ++ (← name.insertedOrFault)
  unless predicate.isCallable do
    throw (.configuration ((← title) ++ "' needs a callable predicate"))
  match body.2 with
  | none => do body.1.refuse ((← title) ++ "' needs a morph, got ") ""
  | some m => do
    let cost ← MorphMetadata.readCost (← m.cost.given.times (.real 0.8))
    let metadata : MorphMetadata :=
      { MorphMetadata.default with
        pure := m.isPure
        cost := cost
        isAsync := some m.isAsync }
    return conditional (← makeHeader id name metadata settings) predicate m

/-- The morph that changes nothing: pure, fusible and free. -/
def makeIdentity (id : Nat) (name : Value) : Except Fault Morph := do
  let metadata := { MorphMetadata.default with fusible := true, cost := .ofInt 0 }
  return identity (← makeHeader id name metadata EngineSettings.default)

/-- The shorter of two times to live, those that are zero left out. -/
def sharedTtl (a b : Option Quantity) : Except Fault (Option Quantity) :=
  match (a.toList ++ b.toList).filter fun q => q.given.truthy with
  | [] => .ok none
  | [q] => .ok (some q)
  | p :: q :: _ => do return some (if ← Value.less [] q.given p.given then q else p)

/-- Two morphs one after the other. The result is pure, fusible and memoizable only when both are,
costs what both cost, and stays fresh no longer than either. -/
def sequence (id : Nat) (a b : Morph) (name : Value) : Except Fault Morph := do
  let memoizable := a.isMemoizable && b.isMemoizable
  let name ← name.orElse (.text (a.name.plain ++ "➝" ++ b.name.plain))
  let cost ← a.cost.given.plus b.cost.given
  let ttl ← if memoizable then sharedTtl a.metadata.cacheTtl b.metadata.cacheTtl else .ok none
  let metadata : MorphMetadata :=
    { MorphMetadata.default with
      pure := a.isPure && b.isPure
      fusible := a.isFusible && b.isFusible
      cost := ← MorphMetadata.readCost cost
      memoizable := memoizable
      cacheTtl := ttl }
  return composed (← makeHeader id name metadata EngineSettings.default) [a, b] none

/-- An attribute of the first of two values, and of the second only if that one holds. -/
def bothShow (first second : Value) (name : Text) : Except Fault Value := do
  let v ← first.readAttribute name
  if ← v.truth then second.readAttribute name else return v

/-- The shorter of the times to live that are not zero or missing, as values. -/
def shorterTtl (ttls : List Value) : Except Fault Value := do
  match ← ttls.filterM Value.truth with
  | [] => return .none
  | [t] => return t
  | s :: t :: _ => return if ← Value.less [] t s then t else s

/-- How putting two values in sequence fails when one of them is no morph: the attributes of a morph
are read from both, in order, and make up metadata, before the value itself is refused. -/
def refuseSequence (first second : Value × Option Morph) (name : Value) : Except Fault Morph := do
  let (a, b) := (first.1, second.1)
  let memoizable ← bothShow a b "memoizable"
  let ttl (v : Value) : Except Fault Value := do
    (← v.readAttribute "metadata").readAttribute "cache_ttl"
  let ttls := [← ttl a, ← ttl b]
  let title ← do
    if ← name.truth then pure name
    else
      let before ← (← a.readAttribute "name").insertedOrFault
      let after ← (← b.readAttribute "name").insertedOrFault
      pure (Value.text (before ++ "➝" ++ after))
  let pure ← bothShow a b "pure"
  let fusible ← bothShow a b "fusible"
  let cost ← (← a.readAttribute "cost").plus (← b.readAttribute "cost")
  let cacheTtl ← if ← memoizable.truth then shorterTtl ttls else .ok .none
  discard (MorphMetadata.schema.construct
    [("pure", pure), ("fusible", fusible), ("cost", cost), ("memoizable", memoizable),
      ("cache_ttl", cacheTtl)])
  let refused := if first.2.isNone then a else b
  refused.refuse
    ("ComposedMorph '" ++ (← title.insertedOrFault) ++ "' can only compose morphs, got ") ""

/-- Two values one after the other, which both have to be morphs. -/
def andThen (id : Nat) (first second : Value × Option Morph) (name : Value) :
    Except Fault Morph :=
  match first.2, second.2 with
  | some a, some b => sequence id a b name
  | _, _ => refuseSequence first second name

end Morph

end MorphEngine
