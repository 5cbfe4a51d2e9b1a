import MorphEngine.Value.Attribute

/-!
Which part of a context a cached result depends on: all of it, some named keys or attributes,
nothing, or what a selector makes of it. Named parts that are missing are kept by name, so that a
missing part differs from one that is present and empty. Running a selector is left to the engine.
-/

namespace MorphEngine

inductive ProjectionKind where
  | whole
  | keys
  | ignore
  | custom
deriving DecidableEq

namespace ProjectionKind

def name : ProjectionKind → Text
  | .whole => "whole"
  | .keys => "keys"
  | .ignore => "ignore"
  | .custom => "custom"

def all : List ProjectionKind := [.whole, .keys, .ignore, .custom]

def ofName? (n : Text) : Option ProjectionKind := all.find? fun k => k.name = n

def family : Enumeration :=
  { owner := ⟨"morpheus.metadata", "ProjectionKind"⟩
    isValue := false
    names := all.map fun k => (k.name.upperAscii, .text k.name) }

def toMember (k : ProjectionKind) : Member := ⟨family, k.name.upperAscii, .text k.name⟩

def ofMember? (m : Member) : Option ProjectionKind := all.find? fun k => k.toMember = m

/-- The kind that a value names or is. -/
def read (v : Value) : Except Fault ProjectionKind :=
  let named : Option ProjectionKind :=
    match v with
    | .member m => (ofMember? m).orElse fun _ => v.text?.bind ofName?
    | v => v.text?.bind ofName?
  match named with
  | some k => .ok k
  | none => do throw (.plain .value ((← v.shownOrFault) ++ " is not a valid ProjectionKind"))

end ProjectionKind

structure ContextProjection where
  kind : ProjectionKind
  names : Value
  selector : Value

namespace ContextProjection

def owner : ClassName := ⟨"morpheus.metadata", "ContextProjection"⟩

/-- A projection from its parts. Keys need at least one name, all of them texts; a custom projection
needs something that can be called. -/
def ofParts (kind : ProjectionKind) (names selector : Value) : Except Fault ContextProjection := do
  if kind = .keys then
    unless ← areNames names do
      throw (.configuration "Key projection needs at least one string key")
  if kind = .custom ∧ !selector.isCallable then
    throw (.configuration "Custom projection needs a callable selector")
  return ⟨kind, names, selector⟩
where
  areNames (names : Value) : Except Fault Bool := do
    if ← names.truth then return (← names.iterate).all Value.isText else return false

def whole : ContextProjection := ⟨.whole, .tuple [], .none⟩

def ignore : ContextProjection := ⟨.ignore, .tuple [], .none⟩

def only (names : List Value) : Except Fault ContextProjection := ofParts .keys (.tuple names) .none

def custom (selector : Value) : Except Fault ContextProjection :=
  ofParts .custom (.tuple []) selector

def toValue (p : ContextProjection) : Value :=
  .object owner [("kind", .member p.kind.toMember), ("names", p.names), ("selector", p.selector)]

def ofValue? : Value → Option ContextProjection
  | .object c [(_, .member m), (_, names), (_, selector)] =>
    if c = owner then (ProjectionKind.ofMember? m).map (⟨·, names, selector⟩) else none
  | _ => none

/-- A projection from what stands for one: nothing for the whole context, a name, a selector, or a
collection of names. -/
def coerce (v : Value) : Except Fault ContextProjection :=
  match v, ofValue? v with
  | .none, _ => .ok whole
  | _, some p => .ok p
  | v, none =>
    if v.isText then only [v]
    else if v.isCallable then custom v
    else if v.isIterable then do only (← v.iterate)
    else v.refuse "Cannot use " " as a context projection"

/-- The names that a projection lists. -/
def nameList (p : ContextProjection) : List Value := p.names.iterate?.getD []

/-- The named parts found so far, as entries, and the names not found. -/
structure Parts where
  found : List (Value × Value)
  missing : List Value

def gather (context : Value) : Parts → List Value → Except Fault Parts
  | parts, [] => .ok parts
  | parts, n :: ns => do
    match ← context.part? n with
    | some v => gather context { parts with found := Value.insert n v parts.found } ns
    | none => gather context { parts with missing := parts.missing ++ [n] } ns

/-- The named parts of a context, with the names of those that are missing. -/
def keyed (names : List Value) (context : Value) : Except Fault Value := do
  let parts ← gather context ⟨[], []⟩ names
  return .tuple [.table parts.found, .tuple parts.missing]

end ContextProjection

end MorphEngine
