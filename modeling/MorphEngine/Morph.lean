import MorphEngine.Engine
import MorphEngine.Metadata.MorphMetadata
import MorphEngine.Metadata.Labels

/-!
Morphs: named transformations of an input under a context. A morph is backed by one function, or is
made of other morphs: in sequence, under a condition, as a fused run of stages, or as a pipeline of
stages. Each has an identity, declared metadata, and, when it is pure and memoizable, a cache whose
number is the morph's own.
-/

namespace MorphEngine

/-- How a morph's cache behaves. -/
structure CacheSlot where
  rule : CacheRule
  maxsize : Value
  clock : Clock

structure Header where
  id : Nat
  name : Name
  metadata : MorphMetadata
  cache : Option CacheSlot
  /-- Only a morph that is declared cacheable has a cache. -/
  cacheable : cache.isSome = true → metadata.isCacheable = true

/-- A run of stages that was fused: where it started among the declared stages, and their labels. -/
structure FusionGroup where
  start : Nat
  labels : List Name

structure FusionReport where
  enabled : Bool
  declared : Nat
  executed : Nat
  groups : List FusionGroup

/-- What a pipeline tells about itself. -/
structure PipelineInfo where
  labels : Labels
  fusion : FusionReport

mutual

inductive Morph where
  | simple (head : Header) (fn : Value)
  | composed (head : Header) (steps : List Morph) (finish : Option Value)
  | conditional (head : Header) (predicate : Value) (body : Morph)
  | identity (head : Header)
  | fused (head : Header) (members : List Stage)
  | pipeline (head : Header) (info : PipelineInfo) (stages declared : List Stage)

/-- A morph under the label that it has in a pipeline. -/
inductive Stage where
  | mk (label : Name) (morph : Morph)

end

namespace Stage

def label : Stage → Name
  | mk label _ => label

def morph : Stage → Morph
  | mk _ morph => morph

end Stage

namespace Morph

def head : Morph → Header
  | simple head _ | composed head _ _ | conditional head _ _ | identity head | fused head _
  | pipeline head _ _ _ => head

def kind : Morph → MorphKind
  | simple _ _ => .simple
  | composed _ _ _ => .composed
  | conditional _ _ _ => .conditional
  | identity _ => .identity
  | fused _ _ => .fused
  | pipeline _ _ _ _ => .pipeline

def id (m : Morph) : Nat := m.head.id

def name (m : Morph) : Name := m.head.name

def metadata (m : Morph) : MorphMetadata := m.head.metadata

def isPure (m : Morph) : Bool := m.metadata.pure

def isFusible (m : Morph) : Bool := m.metadata.fusible

def isMemoizable (m : Morph) : Bool := m.metadata.memoizable

def cost (m : Morph) : Quantity := m.metadata.cost

def isAsyncFunction : Value → Bool
  | .function _ isAsync => isAsync
  | _ => false

mutual

/-- Whether applying a morph gives an awaitable result: as declared, or else when a function that
it runs itself or one of the steps of a sequence is asynchronous. -/
def isAsync : Morph → Bool
  | simple head fn => head.metadata.isAsync.getD (isAsyncFunction fn)
  | composed head steps finish =>
    head.metadata.isAsync.getD (anyAsync steps || finish.any isAsyncFunction)
  | conditional head _ _ | identity head | fused head _ | pipeline head _ _ _ =>
    head.metadata.isAsync.getD false

def anyAsync : List Morph → Bool
  | [] => false
  | m :: rest => isAsync m || anyAsync rest

end

end Morph

namespace Stage

/-- A stage for a morph, under the morph's own name unless a label is given. -/
def ofMorph (m : Morph) (label : Option Name) : Stage :=
  mk (match label with
    | some l => if l.isEmpty then m.name else l
    | none => m.name) m

def cost (s : Stage) : Quantity := s.morph.cost

def shown (s : Stage) : Text :=
  if s.label.text = s.morph.name.text then "Stage(" ++ s.label.shown ++ ")"
  else "Stage(" ++ s.label.shown ++ ", morph=" ++ s.morph.name.shown ++ ")"

end Stage

/-! ### Morphs as values -/

namespace FusionGroup

def toValue (g : FusionGroup) : Value :=
  .object ⟨"morpheus.optimizer", "FusionGroup"⟩
    [("start", .ofNat g.start), ("labels", .tuple (g.labels.map (·.given)))]

end FusionGroup

namespace FusionReport

def toValue (r : FusionReport) : Value :=
  .object ⟨"morpheus.optimizer", "FusionReport"⟩
    [("enabled", .bool r.enabled), ("declared", .ofNat r.declared), ("executed", .ofNat r.executed),
      ("groups", .tuple (r.groups.map (·.toValue)))]

end FusionReport

namespace Morph

/-- The morph as it stands inside the value of another part: its number, kind and name. -/
def outline (m : Morph) : Value := .part (.morph m.kind) m.id [("name", m.name.given)] []

end Morph

namespace Stage

def outline (s : Stage) : Value := .stage s.label.given s.morph.outline

end Stage

namespace Morph

def outlines (stages : List Stage) : Value := .tuple (stages.map (·.outline))

/-- What a morph keeps by its kind. -/
def ownParts : Morph → List (Text × Value)
  | simple _ fn => [("fn", fn)]
  | composed _ steps finish =>
    [("steps", .tuple (steps.map outline)), ("post_process", finish.getD .none)]
  | conditional _ predicate body => [("predicate", predicate), ("morph", body.outline)]
  | identity _ => []
  | fused _ members => [("members", outlines members)]
  | pipeline _ info stages declared =>
    [("stages", outlines stages), ("declared_stages", outlines declared),
      ("build_metadata", info.labels.toValue), ("fusion_report", info.fusion.toValue)]

/-- What a morph works out by its kind. -/
def ownFigures : Morph → List (Text × Value)
  | pipeline _ _ stages _ => [("stage_count", .ofNat stages.length)]
  | _ => []

/-- What a loop over the morph meets: the stages of a pipeline. -/
def members : Morph → List Value
  | pipeline _ _ stages _ => stages.map (·.outline)
  | _ => []

/-- What a morph keeps under its own hidden names. A pipeline also notes whether it is asynchronous.
-/
def hiddenParts (m : Morph) (shared : List (Text × Value)) : List (Text × Value) :=
  let flags : List (Text × Value) :=
    match m with
    | pipeline _ _ _ _ => [("async", .bool m.isAsync)]
    | _ => []
  (m.ownParts ++ flags ++ shared).map fun f => ("_" ++ f.1, f.2)

/-- The morph as a value that programs pass around, given what its cache holds, if it has one. -/
def valueWith (m : Morph) (held : ResultCache) : Value :=
  let cache : Value :=
    m.head.cache.elim .none fun slot => held.look slot.rule.name slot.rule.ttl
  let kept : List (Text × Value) :=
    [("name", m.name.given), ("metadata", m.metadata.toValue), ("cache", cache)]
  let figures : List (Text × Value) :=
    [("pure", .bool m.isPure), ("fusible", .bool m.isFusible), ("cost", m.cost.given),
      ("memoizable", .bool m.isMemoizable), ("is_async", .bool m.isAsync)]
  .part (.morph m.kind) m.id
    (kept ++ figures ++ m.ownParts ++ m.ownFigures ++ m.hiddenParts kept) m.members

/-- The morph as a value, before its first use. -/
def toValue (m : Morph) : Value := m.valueWith .empty

def shown (m : Morph) : Text := m.kind.name ++ "(" ++ m.name.shown ++ ")"

end Morph

end MorphEngine
