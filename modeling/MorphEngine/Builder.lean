import MorphEngine.Catalog

/-!
Building pipelines. A builder collects stages until it is built once; from then on it refuses every
change. With a catalog it can take up registered morphs by name, and what it builds is registered
there; anything else that it was given in place of a catalog fails when it is first used. A call
that fails leaves stages, catalog and state of the builder as they were.
-/

namespace MorphEngine

structure Builder where
  name : Name
  settings : EngineSettings
  stages : List Stage
  built : Option Morph

/-- Where a builder looks names up and registers what it builds. -/
inductive Shelf where
  | missing
  | catalog (c : Catalog)
  | other (v : Value)

/-- A builder with the shelf that it works on. -/
structure Workbench where
  builder : Builder
  shelf : Shelf

namespace Builder

/-- Computations on a builder and its catalog; the state at the point of a fault is kept. -/
abbrev Change (α : Type) := ExceptT Fault (StateM Workbench) α

def start (name : Value) (settings : EngineSettings) : Except Fault Builder :=
  let refused : Except Fault Builder :=
    name.refuse "Pipeline name must be a non-empty string, got " ""
  match Name.ofValue? name with
  | some n => if n.isEmpty then refused else .ok ⟨n, settings, [], none⟩
  | none => refused

def isFrozen (b : Builder) : Bool := b.built.isSome

def ofExcept {α : Type} (r : Except Fault α) : Change α := ExceptT.mk (pure r)

def current : Change Builder := ExceptT.mk fun w => (.ok w.builder, w)

def set (b : Builder) : Change Unit := ExceptT.mk fun w => (.ok (), { w with builder := b })

def refuseWhenBuilt (b : Builder) : Except Fault Unit :=
  if b.isFrozen then .error (.configuration ("Pipeline '" ++ b.name.plain ++ "' is already built"))
  else .ok ()

/-- Adds a stage at the end. -/
def append (s : Stage) : Change Unit := do
  let b ← current
  ofExcept b.refuseWhenBuilt
  set { b with stages := b.stages ++ [s] }

/-- The label that a stage is to have, if one is given. -/
def readLabel (label : Value) : Except Fault (Option Name) :=
  match label, Name.ofValue? label with
  | .none, _ => .ok none
  | _, some n => if n.isEmpty then refused else .ok (some n)
  | _, none => refused
where
  refused : Except Fault (Option Name) :=
    label.refuse "Stage label must be a non-empty string, got " ""

/-- Appends a morph, under its name or under a label. -/
def pipe (m : Value × Option Morph) (label : Value) : Change Unit := do
  let b ← current
  match m.2 with
  | none =>
    ofExcept (m.1.refuse ("Pipeline '" ++ b.name.plain ++ "' can only pipe morphs, got ") "")
  | some morph =>
    let label ← ofExcept (readLabel label)
    append (Stage.ofMorph morph label)

/-- Appends a function as a stage, named by its place unless a name is given. -/
def map (id : Nat) (fn name metadata : Value) (options : Fields) : Change Unit := do
  let b ← current
  let name ← ofExcept (name.orElse (.text ("map_" ++ Text.ofNat b.stages.length)))
  let m ← ofExcept (Morph.create id name fn metadata b.settings options)
  append (Stage.ofMorph m none)

/-- Appends a morph that runs only when a predicate holds. -/
def when (id : Nat) (predicate : Value) (m : Value × Option Morph) (label : Value) :
    Change Unit := do
  let b ← current
  let name ←
    ofExcept (label.orElse (.text (m.2.elim ("when" : Text) fun m => "when_" ++ m.name.plain)))
  let conditional ← ofExcept (Morph.conditionalOn id name predicate m b.settings)
  append (Stage.ofMorph conditional none)

/-- Appends the morph that is registered under a name. -/
def pipeTo (name label : Value) : Change Unit := do
  let b ← current
  let shelf : Shelf ← ExceptT.mk fun w => (.ok w.shelf, w)
  match shelf with
  | .missing =>
    throw (.configuration ("Pipeline '" ++ b.name.plain ++ "' has no registry to resolve '" ++
      (← ofExcept name.insertedOrFault) ++ "'"))
  | .other v => throw (.lacking v "get")
  | .catalog c =>
    match ← ofExcept (c.get name) with
    | none =>
      let shown ← ofExcept name.insertedOrFault
      throw (.configuration ("Morph '" ++ shown ++ "' is not registered"))
    | some r => pipe (r.target.toValue, some r.target) label

/-- The labels that several stages share, each as its first stage has it, in ascending order. -/
def sharedLabels (stages : List Stage) : List Name :=
  let labels := stages.map (·.label)
  let texts := labels.map (·.text)
  let shared := texts.eraseDups.filter fun t => 1 < texts.count t
  Name.sort (shared.filterMap fun t => labels.find? (·.text = t))

def checkLabels (b : Builder) : Except Fault Unit :=
  let shared := sharedLabels b.stages
  if shared.isEmpty then .ok ()
  else
    .error (.configuration ("Pipeline '" ++ b.name.plain ++ "' has several stages named " ++
      Text.join ", " (shared.map (·.shown)) ++ "; pass label= to tell them apart"))

/-- The labels of the pipeline, with a description made from its name when there is none. -/
def readLabels (b : Builder) (metadata : Value) (options : Fields) : Except Fault Labels := do
  let labels ← Labels.coerceBuild metadata options
  if labels.description.isEmpty then
    Labels.coerceBuild labels.toValue [("description", .text ("Pipeline: " ++ b.name.plain))]
  else return labels

/-- The stages that are run, after fusion when that is on. -/
def optimize (b : Builder) (fusing : Bool) (firstId : Nat) :
    Except Fault (List Stage × FusionReport) :=
  if fusing then Fusion.fuse firstId b.stages else .ok (b.stages, Fusion.unfused b.stages)

/-- The pipeline of the stages. It is pure when all declared stages are, costs what they cost
together, and is asynchronous when a stage that is run is. -/
def assemble (b : Builder) (id : Nat) (labels : Labels) (stages : List Stage)
    (fusion : FusionReport) : Except Fault Morph := do
  let declared := b.stages.map (·.morph)
  let cost ← MorphMetadata.readCost (← Morph.costSum declared)
  let metadata : MorphMetadata :=
    { MorphMetadata.default with
      pure := declared.all Morph.isPure
      cost := cost
      isAsync := some (stages.any fun s => s.morph.isAsync) }
  let head ← Morph.makeHeader id b.name.given metadata b.settings
  return .pipeline head ⟨labels, fusion⟩ stages b.stages

/-- Registers a pipeline on the shelf, if there is one. -/
def register (m : Morph) : Change Unit := ExceptT.mk fun w =>
  match w.shelf with
  | .missing => (.ok (), w)
  | .other v => (.error (.lacking v "define"), w)
  | .catalog c =>
    let (result, c) := (Catalog.define (m.toValue, some m) .none (.bool false) .none).run c
    (result.map fun _ => (), { w with shelf := .catalog c })

/-- Freezes the builder into a pipeline, whose settings are read with the contents as they are now.
Fused morphs get identities from `firstId` on, the pipeline gets `id`. -/
def build (cells : Cells) (id firstId : Nat) (metadata : Value) (options : Fields) :
    Change Morph := do
  let b ← current
  ofExcept b.refuseWhenBuilt
  let labels ← ofExcept (b.readLabels metadata options)
  ofExcept b.checkLabels
  let (stages, fusion) ← ofExcept (b.optimize (← b.settings.isFusing cells) firstId)
  let pipeline ← ofExcept (b.assemble id labels stages fusion)
  register pipeline
  set { b with built := some pipeline }
  return pipeline

def shown (b : Builder) : Text :=
  "PipelineBuilder(" ++ b.name.shown ++ ", stages=" ++ Text.ofNat b.stages.length ++ ", " ++
    (if b.isFrozen then "built" else "open") ++ ")"

/-- The builder with the given number as a value that programs pass around. -/
def toValue (b : Builder) (number : Nat) : Value :=
  .part .builder number
    [("name", b.name.given), ("frozen", .bool b.isFrozen), ("stages", Morph.outlines b.stages)]
    (b.stages.map (·.outline))

end Builder

end MorphEngine
