import MorphEngine.Builder
import MorphEngine.Recipe
import MorphEngine.Timestamp

/-!
Sessions: morphs, builders and catalogs under names, with one clock and one log of function calls. A
call that fails leaves the names as they were. Reports tell parts apart by name: a part is reported
under the first name that was given to it. A part that lacks an operation answers with the fault of
missing the attribute that the operation reads first.
-/

namespace MorphEngine

/-- What a name stands for. Builders and catalogs are known by their numbers, which are the places
of their present states among the contents. -/
inductive Binding where
  | morph (m : Morph)
  | builder (number : Nat)
  | catalog (number : Nat)

/-- A builder with what it was given for a catalog. -/
structure BuilderCell where
  number : Nat
  builder : Builder
  shelf : Option Binding

structure CatalogCell where
  number : Nat
  catalog : Catalog

structure Session where
  settings : EngineSettings
  nextId : Nat
  bindings : List (Text × Binding)
  morphs : List Morph
  functions : List UserFunction
  cells : Cells
  classes : List ClassShape
  builders : List BuilderCell
  catalogs : List CatalogCell
  world : World UserState

namespace Session

abbrev Action (α : Type) := ExceptT Fault (StateM Session) α

/-- A new session; its clock shows a thousand seconds. -/
def start (settings : EngineSettings) (classes : List ClassShape) : Session :=
  { settings, nextId := 0, bindings := [], morphs := [], functions := [], cells := [], classes
    builders := [], catalogs := [], world := ⟨fun _ => .empty, ⟨1000.0, [], [], []⟩⟩ }

def current : Action Session := ExceptT.mk fun s => (.ok s, s)

def update (f : Session → Session) : Action Unit := ExceptT.mk fun s => (.ok (), f s)

def ofExcept {α : Type} (r : Except Fault α) : Action α := ExceptT.mk (pure r)

/-- The outcome of an action, as a result. -/
def attempt {α : Type} (a : Action α) : Action (Except Fault α) := ExceptT.mk fun s =>
  let (r, s) := a.run s
  (.ok r, s)

/-! ### Names -/

/-- A name bound anew; one that is there keeps its place. -/
def rebind (name : Text) (b : Binding) : List (Text × Binding) → List (Text × Binding)
  | [] => [(name, b)]
  | (n, old) :: rest => if n = name then (n, b) :: rest else (n, old) :: rebind name b rest

def bind (name : Text) (b : Binding) : Action Unit :=
  update fun s =>
    { s with
      bindings := rebind name b s.bindings
      morphs :=
        match b with
        | .morph m => m :: s.morphs
        | _ => s.morphs }

def find (name : Text) : Action Binding := do
  match (← current).bindings.lookup name with
  | some b => return b
  | none => throw (Environment.unknownName name)

/-- What a name stands for, as a value. -/
def valueOf (s : Session) : Binding → Value
  | .morph m => m.valueWith (s.world.caches m.id)
  | .builder number | .catalog number => s.cells.getD number .none

/-- The fault of an operation that a part lacks. -/
def lacking (s : Session) (b : Binding) (operation : Text) : Fault :=
  .lacking (s.valueOf b) operation

/-- The morph under a name, for an operation that other parts lack. -/
def findMorph (name operation : Text) : Action Morph := do
  match ← find name with
  | .morph m => return m
  | b => throw ((← current).lacking b operation)

/-- The number of the builder under a name, for an operation that other parts lack. -/
def findBuilder (name operation : Text) : Action Nat := do
  match ← find name with
  | .builder number => return number
  | b => throw ((← current).lacking b operation)

/-- The number of the catalog under a name, for an operation that other parts lack. -/
def findCatalog (name operation : Text) : Action Nat := do
  match ← find name with
  | .catalog number => return number
  | b => throw ((← current).lacking b operation)

/-- The morph that a value stands for. -/
def morphOf (v : Value) : Action (Value × Option Morph) := do
  match v with
  | .part (.morph _) id _ _ => return (v, (← current).morphs.find? fun m => m.id = id)
  | _ => return (v, none)

def fresh (count : Nat) : Action Nat := do
  let n := (← current).nextId
  update fun s => { s with nextId := s.nextId + count }
  return n

/-- A new value, marked when it does not equal another one of the same content. -/
def asItself (v : Value) : Action Value := do
  if v.same v then return v
  else return .marked (← fresh 1) v

def isSame : Binding → Binding → Bool
  | .morph m, .morph n => m.id = n.id
  | .builder i, .builder j | .catalog i, .catalog j => i = j
  | _, _ => false

/-- The first name that was given to a part. -/
def nameOf (s : Session) (part : Binding) : Value :=
  (s.bindings.find? fun b => isSame b.2 part).elim .none fun b => .text b.1

/-! ### Functions and their runs -/

def addFunction (f : UserFunction) : Action Value := do
  let n := (← current).functions.length
  update fun s => { s with functions := s.functions ++ [f] }
  return .function n (f.form == .async)

/-- A new content, which may refer to its own place. -/
def addCell (content : Nat → Value) : Action Value := do
  let n := (← current).cells.length
  update fun s => { s with cells := s.cells ++ [content n] }
  return content n

/-- How deep functions that apply morphs may call each other. -/
def callDepth : Nat := 163

def catalogAt? (s : Session) (number : Nat) : Option Catalog :=
  (s.catalogs.find? fun c => c.number = number).map (·.catalog)

def applicantOf (s : Session) : Binding → Applicant
  | .morph m => .morph m
  | .builder number => .other (s.valueOf (.builder number))
  | .catalog number =>
    (s.catalogAt? number).elim (.other (s.valueOf (.catalog number))) .catalog

def environment (s : Session) : Environment :=
  { functions := s.functions
    morphs := s.morphs
    named := s.bindings.map fun b => (b.1, s.applicantOf b.2)
    cells := s.cells
    classes := s.classes }

def host (s : Session) : Host UserState := s.environment.host callDepth

/-- Runs a computation of the engine. -/
def run {α : Type} (f : Host UserState → Engine UserState α) : Action α := ExceptT.mk fun s =>
  let (r, w) := (f s.host).run s.world
  (r, { s with world := w })

/-- The log since it was last taken. -/
def takeLog (s : Session) : List (Text × Value) × Session :=
  (s.world.user.log, { s with world := { s.world with user := { s.world.user with log := [] } } })

/-- How a part is applied: by its operation, by calling it, or by its deferred operation. -/
inductive Manner where
  | apply
  | call
  | async
deriving DecidableEq

/-- What comes of applying a morph, and whether the result had to be awaited. -/
structure Applied where
  outcome : Except Fault Value
  awaited : Bool

def awaitResult (f : Host UserState → Engine UserState Value) : Action Applied := do
  return ⟨← attempt (run f), true⟩

def applyMorph (m : Morph) (manner : Manner) (input context : Value) : Action Applied := do
  match manner with
  | .async => awaitResult fun h => m.applyAsync h input context
  | .apply | .call =>
    match ← attempt (run fun h => m.apply h input context) with
    | .error f => return ⟨.error f, false⟩
    | .ok (.deferred r) => awaitResult fun _ => r
    | .ok (.value v) =>
      if v.isAwaitable then awaitResult fun h => h.await v else return ⟨.ok v, false⟩

/-- Applies the target registered under a name. -/
def applyRegistered (c : Catalog) (name input context : Value) : Action Applied := do
  match c.get name with
  | .error f => return ⟨.error f, false⟩
  | .ok (some r) => applyMorph r.target .apply input context
  | .ok none => return ⟨Environment.unregistered name, false⟩

/-- Applies the part under a name. A catalog takes the input for a name and the context for the
input. -/
def apply (name : Text) (manner : Manner) (input : Value) (context : Option Value) :
    Action Applied := do
  let part ← find name
  let s ← current
  match part, manner with
  | .morph m, _ => applyMorph m manner input (context.getD .none)
  | .catalog number, .apply =>
    match s.catalogAt? number, context with
    | some c, some v => applyRegistered c input v .none
    | _, _ => throw (Environment.missingInput "MorpheusRegistry.apply")
  | _, .apply => throw (s.lacking part "apply")
  | _, .call => throw (Environment.inapplicable (s.valueOf part))
  | _, .async => throw (s.lacking part "apply_async")

/-- Moves the clock and reads it. -/
def advance (seconds : Value) : Action Float := do
  let passed ← ofExcept seconds.toFloat
  update fun s =>
    let u := s.world.user
    { s with world := { s.world with user := { u with clock := u.clock + passed } } }
  return (← current).world.user.clock

/-! ### Reports -/

def describe (m : Morph) : Action Fields := do
  return m.report (← current).world.caches

/-- The report of a part under a label. -/
def labelledReport (s : Session) (label name : Value) (kind : Text) (part : Binding) : Value :=
  .record [("label", label), ("name", name), ("kind", .text kind), ("var", s.nameOf part)]

def stageReport (s : Session) (stage : Stage) : Value :=
  s.labelledReport stage.label.given stage.morph.name.given stage.morph.kind.name
    (.morph stage.morph)

def stageReports (s : Session) (stages : List Stage) : Value := .list (stages.map s.stageReport)

def properties (m : Morph) : Fields :=
  let functional : Value :=
    match m with
    | .simple _ _ => .bool true
    | _ => .none
  [("name", m.name.given), ("pure", .bool m.isPure), ("fusible", .bool m.isFusible),
    ("cost", m.cost.given), ("memoizable", .bool m.isMemoizable), ("is_async", .bool m.isAsync),
    ("cached", .bool m.head.cache.isSome), ("cacheable", .bool m.metadata.isCacheable),
    ("declared_async", m.metadata.isAsync.elim .none .bool),
    ("context_names", m.metadata.context.names),
    ("candidate", .bool (Fusion.isCandidate m)), ("has_fn", functional)]

/-- The counters of a morph's cache, with its bound and how it is shown. -/
def cacheStats (m : Morph) : Action Value := do
  match m.head.cache with
  | none => return .none
  | some slot =>
    let c := (← current).world.caches m.id
    let shown ← ofExcept (c.shown slot.rule.name slot.rule.ttl)
    return .record (c.report slot.rule.ttl ++
      ([("maxsize", slot.maxsize), ("repr", .text shown)] : Fields))

/-- The fault of using a cache that a morph does not have. -/
def noCache (operation : Text) : Fault := .lacking .none operation

def expireCache (m : Morph) : Action Nat := do
  match m.head.cache with
  | none => throw (noCache "expire")
  | some slot => run fun h => Morph.expire h m.head slot

def clearCache (m : Morph) : Action Nat := do
  match m.head.cache with
  | none => throw (noCache "clear")
  | some _ =>
    run fun _ => Engine.modifyCache m.id MemoCache.clear
    return 0

/-! ### States of builders and catalogs -/

def builderCell? (s : Session) (number : Nat) : Option BuilderCell :=
  s.builders.find? fun c => c.number = number

def noBuilder : Fault := .typeError "no such builder"

def builderAt (number : Nat) : Action Builder := do
  match (← current).builderCell? number with
  | some cell => return cell.builder
  | none => throw noBuilder

/-- A session with a builder or catalog in a new state. -/
def setBuilder (number : Nat) (b : Builder) (s : Session) : Session :=
  { s with
    builders := s.builders.map fun c => if c.number = number then { c with builder := b } else c
    cells := s.cells.set number (b.toValue number) }

def setCatalog (number : Nat) (c : Catalog) (s : Session) : Session :=
  { s with
    catalogs := s.catalogs.map fun d => if d.number = number then { d with catalog := c } else d
    cells := s.cells.set number (c.toValue number) }

/-- The shelf of a builder as it is now. -/
def shelfOf (s : Session) : Option Binding → Shelf
  | none => .missing
  | some (.catalog number) =>
    (s.catalogAt? number).elim (.other (s.valueOf (.catalog number))) .catalog
  | some part => .other (s.valueOf part)

/-- Runs a change on a builder and on its catalog. -/
def onBuilder {α : Type} (number : Nat) (change : Builder.Change α) : Action α :=
  ExceptT.mk fun s =>
    match s.builderCell? number with
    | none => (.error noBuilder, s)
    | some cell =>
      let (r, bench) := change.run ⟨cell.builder, s.shelfOf cell.shelf⟩
      let s := s.setBuilder number bench.builder
      match cell.shelf, bench.shelf with
      | some (.catalog c), .catalog catalog => (r, s.setCatalog c catalog)
      | _, _ => (r, s)

/-! ### Making morphs -/

/-- The fault of giving an argument of a call twice. -/
def repeated (callee : Text) (taken : List Text) (options : Fields) : Except Fault Unit :=
  match options.find? fun f => taken.contains f.1 with
  | some f => .error (.typeError (callee ++ "() got multiple values for argument '" ++ f.1 ++ "'"))
  | none => .ok ()

def keep (id : Text) (m : Morph) : Action Morph := do
  bind id (.morph m)
  return m

def createMorph (id : Text) (name fn metadata : Value) (settings : CacheSettings)
    (options : Fields) : Action Morph := do
  ofExcept (repeated "create_morph" ["name", "fn", "metadata", "settings"] options)
  let n ← fresh 1
  keep id (← ofExcept (Morph.create n name fn metadata settings options))

/-- What stands for settings: those of the engine unless another value does not count as false. -/
def cacheSettings (s : Session) (settings : Value) : Except Fault CacheSettings := do
  let settings := settings.resolve s.cells
  if ← settings.truth then return .ofValue settings else return EngineSettings.default

/-- A morph made from a function that has a name of its own. -/
def decorate (id : Text) (name : Value) (fn : Value) (fnName : Text) (options : Fields) :
    Action Morph := do
  ofExcept (repeated "as_morph" ["name"] options)
  ofExcept (repeated "create_morph" ["fn"] options)
  let n ← fresh 1
  let name ← ofExcept (name.orElse (.text fnName))
  let taken : List Text := ["metadata", "settings"]
  let rest := options.filter fun f => !taken.contains f.1
  let settings ← ofExcept ((← current).cacheSettings (options.get "settings"))
  keep id (← ofExcept (Morph.create n name fn (options.get "metadata") settings rest))

def createIdentity (id : Text) (name : Value) : Action Morph := do
  keep id (← ofExcept (Morph.makeIdentity (← fresh 1) name))

def composeMorphs (id : Text) (name : Value) (steps : List Value) (finish metadata : Value)
    (settings : EngineSettings) : Action Morph := do
  let steps ← steps.mapM morphOf
  keep id (← ofExcept (Morph.compose (← fresh 1) name steps finish metadata settings))

def andThen (id : Text) (first second : Value) (name : Value) : Action Morph := do
  keep id (← ofExcept (Morph.andThen (← fresh 1) (← morphOf first) (← morphOf second) name))

/-- The operation that puts one thing behind another. For a value that is no morph it is whatever
the value shows under that name, and what comes of it is no morph either. -/
def continueWith (id : Text) (first second : Value) (name : Value) : Action Morph := do
  if (← morphOf first).2.isSome then andThen id first second name
  else
    let operation ← ofExcept (first.readAttribute "then")
    let made ← ofExcept ((← current).environment.callNaming operation second "name" name)
    throw (.lacking made "describe")

/-- The shift of a value by another one. A morph gets the other one behind it, a builder takes it as
a stage and is then no morph itself, and whole numbers make a number, which is none either. -/
def shift (id : Text) (first second : Value) : Action Morph := do
  match first with
  | .part (.morph _) _ _ _ => andThen id first second .none
  | .part .builder number _ _ => do
    let second ← morphOf second
    onBuilder number (Builder.pipe second .none)
    throw ((← current).lacking (.builder number) "describe")
  | _ =>
    match first.int?, second.int? with
    | some a, some b =>
      if b < 0 then throw (.plain .value "negative shift count")
      else throw (.lacking (.int a) "describe")
    | _, _ => throw (.unsupportedOperands ">>" first second)

def conditional (id : Text) (name predicate body : Value) (settings : EngineSettings) :
    Action Morph := do
  keep id (← ofExcept (Morph.conditionalOn (← fresh 1) name predicate (← morphOf body) settings))

/-! ### Pipelines -/

def startBuilder (id : Text) (name : Value) (shelf : Option Text) (settings : EngineSettings) :
    Action Builder := do
  let shelf ←
    match shelf with
    | none => pure none
    | some part => some <$> find part
  let b ← ofExcept (Builder.start name settings)
  let number := (← current).cells.length
  discard (addCell b.toValue)
  update fun s => { s with builders := s.builders ++ [⟨number, b, shelf⟩] }
  bind id (.builder number)
  return b

/-- Adds a function as a stage. -/
def mapStage (i : Nat) (fn name metadata : Value) (options : Fields) : Action Unit := do
  ofExcept (repeated "PipelineBuilder.map" ["self", "fn", "name", "metadata"] options)
  let n ← fresh 1
  onBuilder i (Builder.map n fn name metadata options)

/-- What is told after adding a stage: whether the builder itself was the result, how many stages
there are, and the last of them. -/
def growthReport (s : Session) (chained : Bool) (stages : List Stage) : Fields :=
  [("chained", .bool chained), ("len", .ofNat stages.length),
    ("last", stages.getLast?.elim .none s.stageReport)]

/-- What a builder tells after a stage was added. -/
def lastStage (number : Nat) : Action Fields := do
  let b ← builderAt number
  return (← current).growthReport true b.stages

/-- Puts a value behind the part under a name. Behind a morph it makes up a sequence, which is not
kept, and the stages of the morph itself are told. -/
def putBehind (name : Text) (v : Value) : Action Fields := do
  let part ← find name
  let second ← morphOf v
  match part with
  | .builder number =>
    onBuilder number (Builder.pipe second .none)
    lastStage number
  | .catalog _ =>
    throw (.unsupportedOperands ">>" ((← current).valueOf part) v)
  | .morph m =>
    discard (ofExcept (Morph.andThen (← fresh 1) (m.toValue, some m) second .none))
    match m with
    | .pipeline _ _ stages _ => return (← current).growthReport false stages
    | m => throw m.toValue.unsized

/-- What a builder tells about itself, or what keeps another part from telling the same. -/
def builderReport (name : Text) : Action Fields := do
  match ← find name with
  | .catalog number => throw ((← current).lacking (.catalog number) "name")
  | .morph m => throw (.lacking m.toValue "frozen")
  | .builder number =>
    let b ← builderAt number
    let s ← current
    return [("name", b.name.given), ("frozen", .bool b.isFrozen), ("len", .ofNat b.stages.length),
      ("stages", s.stageReports b.stages), ("repr", .text b.shown)]

/-- The part under a name as shown. -/
def shownPart (name : Text) : Action Text := do
  let part ← find name
  ofExcept ((← current).valueOf part).shownOrFault

/-- The properties of the morph under a name. A builder has a name but is not pure or impure. -/
def propertiesOf (name : Text) : Action Fields := do
  match ← find name with
  | .morph m => return properties m
  | .builder number => throw ((← current).lacking (.builder number) "pure")
  | .catalog number => throw ((← current).lacking (.catalog number) "name")

def build (number : Nat) (id : Text) (metadata : Value) (options : Fields) : Action Morph := do
  ofExcept (repeated "PipelineBuilder.build" ["self", "metadata"] options)
  let b ← builderAt number
  let n ← fresh (b.stages.length + 1)
  let cells := (← current).cells
  keep id (← onBuilder number (Builder.build cells n (n + 1) metadata options))

/-- The parts of a pipeline, or the fault of asking something else for them. -/
def pipelineParts (m : Morph) (part : Text) : Action (PipelineInfo × List Stage × List Stage) := do
  match m with
  | .pipeline _ info stages declared => return (info, stages, declared)
  | m => throw (.lacking m.toValue part)

def listing (m : Morph) : Action Text := do
  let (info, _, declared) ← pipelineParts m "debug"
  ofExcept (Morph.listing m.name m.cost info declared)

def pipelineState (m : Morph) : Action Fields := do
  let (info, stages, declared) ← pipelineParts m "stage_count"
  let s ← current
  return [("count", .ofNat stages.length), ("len", .ofNat stages.length),
    ("stages", s.stageReports stages), ("declared", s.stageReports declared),
    ("stage_reprs", .list (stages.map fun stage => .text stage.shown)),
    ("costs", .list (stages.map fun stage => stage.morph.cost.given)),
    ("build_metadata", .record info.labels.report), ("fusion", .record info.fusion.report),
    ("group_sizes", .list (info.fusion.groups.map fun g => .ofNat g.labels.length))]

/-- The stages of the part under a name, with the morphs that are run. -/
def stagesOf (name : Text) : Action (List Stage) := do
  match ← find name with
  | .morph m => return (← pipelineParts m "stages").2.1
  | .builder number => return (← builderAt number).stages
  | .catalog number => throw ((← current).lacking (.catalog number) "stages")

/-- Binds the morph of a stage; a negative index counts from the end. -/
def take (id name : Text) (index : Value) : Action Morph := do
  let stages ← stagesOf name
  match index.int? with
  | none =>
    throw (.typeError ("tuple indices must be integers or slices, not " ++ index.longTypeName))
  | some i =>
    let outside (message : Text) : Fault := .plain (.other "IndexError") message
    let place := if i < 0 then i + stages.length else i
    match if place < 0 then none else stages[place.toNat]? with
    | some stage => keep id stage.morph
    | none =>
      if Value.isIndex i then throw (outside "tuple index out of range")
      else throw (outside (Value.tooLargeIndex index))

/-- A stage for a part, which must have a name of its own unless a label is given. -/
def stageOf (s : Session) (part : Binding) (label : Option Name) :
    Except Fault (Binding × Name) := do
  match label.filter fun l => !l.isEmpty with
  | some l => return (part, l)
  | none =>
    let v ← (s.valueOf part).readAttribute "name"
    match Name.ofValue? v with
    | some n => return (part, n)
    | none => throw (s.lacking part "name")

/-- Fuses stages, or leaves them as they are, and tells what came of it. Only morphs can be fused;
other parts can be left as they are if they have a name. -/
def fuse (parts : List (Binding × Option Name)) (enabled : Bool) : Action Fields := do
  let s ← current
  let labelled ← parts.mapM fun p => ofExcept (s.stageOf p.1 p.2)
  let n ← fresh (parts.length + 1)
  let stages ← labelled.filterMapM fun p => do
    match p.1 with
    | .morph m => return some (Stage.mk p.2 m)
    | part => if enabled then throw (s.lacking part "fusible") else return none
  let members (stage : Stage) : Value :=
    match stage.morph with
    | .fused _ ms => Morph.labelList ms
    | _ => .none
  if enabled then
    let (result, report) ← ofExcept (Fusion.fuse n stages)
    return [("stages", s.stageReports result), ("report", .record report.report),
      ("members", .list (result.map members))]
  else
    let reports ← labelled.mapM fun p => do
      let v := s.valueOf p.1
      return s.labelledReport p.2.given (← ofExcept (v.readAttribute "name")) v.typeName p.1
    let report : FusionReport := ⟨false, labelled.length, labelled.length, []⟩
    let listed (p : Binding × Name) : Value :=
      match p.1 with
      | .morph m => members (.mk p.2 m)
      | _ => .none
    return [("stages", .list reports), ("report", .record report.report),
      ("members", .list (labelled.map listed))]

/-! ### Catalogs -/

def startCatalog (id : Text) : Action Catalog := do
  let number := (← current).cells.length
  discard (addCell Catalog.empty.toValue)
  update fun s => { s with catalogs := s.catalogs ++ [⟨number, .empty⟩] }
  bind id (.catalog number)
  return .empty

def catalogAt (number : Nat) : Action Catalog := do
  return ((← current).catalogAt? number).getD .empty

def clearCatalog (number : Nat) : Action Unit := update fun s => s.setCatalog number .empty

def recordReport (s : Session) (r : CatalogRecord) : Value :=
  .record [("name", r.name), ("kind", .text r.target.kind.name),
    ("target", s.nameOf (.morph r.target)), ("metadata", .record r.labels.report)]

def define (number : Nat) (target metadata overwrite name : Value) : Action Value := do
  let target ← morphOf target
  let (r, c) := (Catalog.define target metadata overwrite name).run (← catalogAt number)
  update fun s => s.setCatalog number c
  return (← current).recordReport (← ofExcept r)

def getRecord (number : Nat) (name : Value) : Action Value := do
  let r ← ofExcept ((← catalogAt number).get name)
  return r.elim .none (← current).recordReport

def removeRecord (number : Nat) (name : Value) : Action Bool := do
  let (removed, c) ← ofExcept ((← catalogAt number).remove name)
  update fun s => s.setCatalog number c
  return removed

/-- Whether the part under a name contains a value: a catalog the name of a record, a pipeline a
stage. -/
def contains (part : Text) (v : Value) : Action Bool := do
  let found ← find part
  match found with
  | .catalog number => return (← ofExcept ((← catalogAt number).get v)).isSome
  | _ =>
    let whole := (← current).valueOf found
    match whole.iterate? with
    | some members => return members.any (·.same v)
    | none =>
      throw (.typeError ("argument of type '" ++ whole.longTypeName ++ "' is not iterable"))

def categoryNames (number : Nat) (category : Value) : Action (List Value) := do
  ofExcept ((← catalogAt number).namesInCategory category)

def searchNames (number : Nat) (search : Search) : Action (List Value) := do
  return (← ofExcept ((← catalogAt number).search search)).map (·.name)

def catalogListing (number : Nat) : Action Fields := do
  let c ← catalogAt number
  let s ← current
  let headings (i : Index) : Value := .list (i.headings.map (·.given))
  return [("names", .list c.names), ("categories", headings c.categories),
    ("tags", headings c.tags), ("len", .ofNat c.size),
    ("iter", .list (c.records.map s.recordReport)), ("repr", .text c.shown)]

/-- The catalog as exported, without the time of the export. -/
def snapshot (number : Nat) : Action Fields := do
  let c ← catalogAt number
  return [("version", .text "1.0"),
    ("keys", .list [.text "exported_at", .text "morphs", .text "version"]),
    ("morphs", .list (c.records.map fun r => .list [r.name, .record r.report]))]

/-- What a report of fusion tells when its parts are any values: each group shows where it started
and its labels. -/
def fusionReport (fusion : Value) : Except Fault Value := do
  let names : List Text := ["enabled", "declared", "executed", "eliminated"]
  let counts ← names.mapM fun name => do return (name, ← fusion.readAttribute name)
  let groups ← (← (← fusion.readAttribute "groups").iterate).mapM fun group => do
    let start ← group.readAttribute "start"
    let labels ← (← group.readAttribute "labels").iterate
    return Value.record [("start", start), ("labels", .list labels)]
  return .record (counts ++ [(("groups" : Text), Value.list groups)])

/-- What metadata tells about itself: what comes of the operation that it shows for that. -/
def metadataReport (e : Environment) (v : Value) : Except Fault Value :=
  match MorphMetadata.ofValue? v, Labels.ofValue? v, v with
  | some m, _, _ => .ok (.record m.report)
  | _, some l, _ => .ok (.record l.report)
  | _, _, .object owner _ =>
    if owner.name = "FusionReport" then fusionReport v
    else do e.callBare (← v.readAttribute "to_dict")
  | _, _, v => do e.callBare (← v.readAttribute "to_dict")

/-- The report of a record made for a target at a given time. Anything with metadata can be the
target of such a record. -/
def recordAt (name target metadata time : Value) : Action Fields := do
  let labels ← ofExcept (Labels.coerceRecord metadata [])
  let text ← ofExcept (Timestamp.ofValue time)
  let e := (← current).environment
  let declared ← ofExcept (do metadataReport e (← target.readAttribute "metadata"))
  return CatalogRecord.reportOf name target.typeName declared labels ++
    ([("registered_at", .text text)] : Fields)

end Session

end MorphEngine
