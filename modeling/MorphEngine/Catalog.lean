import MorphEngine.Morph.Describe

/-!
A catalog of named morphs with labels for finding them. Records stand in the order of their last
registration; an index by category and one by tag list the records that carry each. Names are any
values that can be keys; a record is found by its name and from then on known by its serial number,
since a name need not equal itself. A registration that is refused changes nothing.
-/

namespace MorphEngine

structure CatalogRecord where
  serial : Nat
  name : Value
  target : Morph
  labels : Labels

/-- A heading with the serial numbers of the records that carry it. -/
structure IndexEntry where
  heading : Name
  serials : List Nat

abbrev Index := List IndexEntry

namespace Index

/-- Files a record under a heading, which is made when it is not there. -/
def file (serial : Nat) (heading : Name) : Index → Index
  | [] => [⟨heading, [serial]⟩]
  | e :: rest =>
    if e.heading.text = heading.text then { e with serials := e.serials ++ [serial] } :: rest
    else e :: file serial heading rest

/-- Takes a record from under a heading; a heading with no records left goes too. -/
def unfile (serial : Nat) (heading : Name) : Index → Index
  | [] => []
  | e :: rest =>
    if e.heading.text = heading.text then
      let left := e.serials.filter (· != serial)
      if left.isEmpty then rest else { e with serials := left } :: rest
    else e :: unfile serial heading rest

def headings (i : Index) : List Name := Name.sort (i.map (·.heading))

def serials (i : Index) (heading : Text) : List Nat :=
  (i.find? fun e => e.heading.text = heading).elim [] (·.serials)

end Index

structure Catalog where
  records : List CatalogRecord
  categories : Index
  tags : Index
  nextSerial : Nat

/-- What a search asks for; what is left out does not matter. -/
structure Search where
  category : Value
  tags : Value
  inputType : Value
  outputType : Value

namespace Catalog

def empty : Catalog := ⟨[], [], [], 0⟩

instance : Inhabited Catalog := ⟨empty⟩

def find? (c : Catalog) (name : Value) : Option CatalogRecord :=
  c.records.find? fun r => r.name.same name

/-- The record under a name, which must be one that can be looked up. -/
def get (c : Catalog) (name : Value) : Except Fault (Option CatalogRecord) := do
  name.checkKeyAmong (c.records.map (·.name))
  return c.find? name

/-- The labels that a target has of its own: those of a pipeline come from the pipeline, and made-up
morphs list their parts. -/
def defaultLabels : Morph → Except Fault Labels
  | .pipeline _ info _ declared =>
    Labels.coerceRecord info.labels.toValue
      [(.text "composition", Morph.labelList declared)]
  | .composed head steps _ =>
    .ok { Labels.defaultRecord with
      description := ("Composite: " ++ head.name.plain : Text)
      composition := some (steps.map fun m => m.name.given) }
  | m => .ok { Labels.defaultRecord with description := ("Morph: " ++ m.name.plain : Text) }

/-- The entries of a mapping as keywords of a call, which have to be texts. -/
def keywords (entries : List (Value × Value)) : Except Fault (List (Value × Value)) :=
  if entries.all fun e => e.1.isText then .ok entries
  else .error (.typeError "keywords must be strings")

/-- The labels of a new record, from what is given for it and from the target's own. -/
def recordLabels (target : Morph) (metadata : Value) : Except Fault Labels := do
  let own ← defaultLabels target
  match metadata, Labels.ofValue? metadata with
  | .none, _ => return own
  | _, some _ =>
    let given ← Labels.coerceRecord metadata []
    let listed (l : Labels) : List Value := l.composition.getD []
    if (listed given).isEmpty && !(listed own).isEmpty then
      Labels.coerceRecord given.toValue [(.text "composition", .tuple (listed own))]
    else return given
  | _, none =>
    match metadata.entries? with
    | some es => Labels.coerceRecord own.toValue (← keywords es)
    | none => metadata.refuse "Cannot use " " as registry metadata"

def unindex (r : CatalogRecord) (c : Catalog) : Catalog :=
  { c with
    categories := c.categories.unfile r.serial r.labels.category
    tags := r.labels.tags.foldl (fun i tag => i.unfile r.serial tag) c.tags }

def index (r : CatalogRecord) (c : Catalog) : Catalog :=
  { c with
    categories := c.categories.file r.serial r.labels.category
    tags := r.labels.tags.foldl (fun i tag => i.file r.serial tag) c.tags }

/-- The catalog without a record. -/
def drop (r : CatalogRecord) (c : Catalog) : Catalog :=
  unindex r { c with records := c.records.filter (·.serial != r.serial) }

/-- The catalog with a new record behind all others. -/
def add (name : Value) (target : Morph) (labels : Labels) (c : Catalog) : CatalogRecord × Catalog :=
  let r : CatalogRecord := ⟨c.nextSerial, name, target, labels⟩
  (r, index r { c with records := c.records ++ [r], nextSerial := c.nextSerial + 1 })

/-- Computations on a catalog; a fault keeps the catalog as it is at that point. -/
abbrev Change (α : Type) := ExceptT Fault (StateM Catalog) α

def ofExcept {α : Type} (r : Except Fault α) : Change α := ExceptT.mk (pure r)

def current : Change Catalog := ExceptT.mk fun c => (.ok c, c)

/-- Registers a target under its own name or a given one. -/
def define (target : Value × Option Morph) (metadata : Value) (overwrite : Value) (name : Value) :
    Change CatalogRecord := do
  let some m := target.2
    | ofExcept (target.1.refuse "Only morphs and pipelines can be registered, got " "")
  let name ← ofExcept (name.orElse m.name.given)
  let labels ← ofExcept (recordLabels m metadata)
  match ← ofExcept ((← current).get name) with
  | some old =>
    unless ← ofExcept overwrite.truth do
      throw (.configuration ("'" ++ (← ofExcept name.insertedOrFault) ++
        "' is already registered; pass overwrite=True to replace it"))
    change fun c => ((), c.drop old)
  | none => pure ()
  change (add name m labels)
where
  change {α : Type} (f : Catalog → α × Catalog) : Change α := ExceptT.mk fun c =>
    let (a, c) := f c
    (.ok a, c)

/-- Removes the record under a name and says whether there was one. A catalog without records has
none under any value, even under one that cannot be a key. -/
def remove (name : Value) (c : Catalog) : Except Fault (Bool × Catalog) := do
  if c.records.isEmpty then return (false, c)
  match ← c.get name with
  | some r => return (true, c.drop r)
  | none => return (false, c)

/-- The tags that a search asks for; a text alone is one tag. -/
def wantedTags (tags : Value) : Except Fault (List Value) := do
  if tags.isText then return [tags]
  else if ← tags.truth then Value.setOf (← tags.iterate)
  else return []

def agrees (wanted : Value) (label : Name) : Bool :=
  match wanted with
  | .none => true
  | v => label.given.same v

/-- The records that meet all criteria, in the order of registration. -/
def search (c : Catalog) (s : Search) : Except Fault (List CatalogRecord) := do
  let tags ← wantedTags s.tags
  return c.records.filter fun r =>
    agrees s.category r.labels.category &&
      tags.all (fun t => r.labels.tags.any fun l => l.given.same t) &&
      agrees s.inputType r.labels.inputType && agrees s.outputType r.labels.outputType

def names (c : Catalog) : List Value := c.records.map (·.name)

/-- The names filed under a category, in the order of registration. -/
def namesInCategory (c : Catalog) (category : Value) : Except Fault (List Value) := do
  category.checkKey
  let filed := category.text?.elim [] c.categories.serials
  return (c.records.filter fun r => filed.contains r.serial).map (·.name)

def size (c : Catalog) : Nat := c.records.length

def shown (c : Catalog) : Text := "MorpheusRegistry(" ++ Text.ofNat c.size ++ " records)"

end Catalog

namespace CatalogRecord

/-- The report of a record for a target of some kind, given what is declared about the target and
the labels, without the time of the registration. -/
def reportOf (name : Value) (kind : Text) (declared : Value) (labels : Labels) : Fields :=
  let head : Fields := [("name", name), ("kind", .text kind), ("morph", declared)]
  head ++ labels.report

def report (r : CatalogRecord) : Fields :=
  reportOf r.name r.target.kind.name (.record r.target.metadata.report) r.labels

/-- A record as a value, without the time of its registration. -/
def toValue (r : CatalogRecord) : Value :=
  .object ⟨"morpheus.registry", "RegistryRecord"⟩
    [("name", r.name), ("target", r.target.outline), ("metadata", r.labels.toValue)]

end CatalogRecord

/-- The catalog with the given number as a value that programs pass around. -/
def Catalog.toValue (c : Catalog) (number : Nat) : Value :=
  .part .catalog number [] (c.records.map (·.toValue))

end MorphEngine
