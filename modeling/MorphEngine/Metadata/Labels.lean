import MorphEngine.Metadata.Schema

/-!
Labels that document pipelines and catalog records: a description, a category, tags and the names of
the input and output types. Labels of a record also list what their target is composed of.
-/

namespace MorphEngine

structure Labels where
  description : Name
  category : Name
  tags : List Name
  inputType : Name
  outputType : Name
  /-- What a record's target is composed of; labels of a pipeline have no such list. -/
  composition : Option (List Value)

namespace Labels

def buildOwner : ClassName := ⟨"morpheus.metadata", "BuildMetadata"⟩

def recordOwner : ClassName := ⟨"morpheus.metadata", "RecordMetadata"⟩

def isRecord (l : Labels) : Bool := l.composition.isSome

def owner (l : Labels) : ClassName := if l.isRecord then recordOwner else buildOwner

def defaultBuild : Labels := ⟨"", "pipeline", [], "unknown", "unknown", none⟩

def defaultRecord : Labels := ⟨"", "uncategorized", [], "unknown", "unknown", some []⟩

def readLabel (fs : Fields) (name : Text) : Except Fault Name :=
  let v := fs.get name
  match Name.ofValue? v with
  | some label => .ok label
  | none => v.refuse ("'" ++ name ++ "' must be a string, got ") ""

/-- Tags from a collection of texts, without repetitions. A single text is refused, since it would
be taken for its characters. -/
def readTags (v : Value) : Except Fault (List Name) :=
  match v with
  | .none => .ok []
  | v =>
    if v.isText || !v.isIterable then v.refuse "'tags' must be a collection of strings, got " ""
    else do
      let members ← Value.setOf (← v.iterate)
      match members.mapM Name.ofValue? with
      | some tags => return tags
      | none => (Value.frozenSet members).refuse "'tags' must only contain strings, got " ""

def readComposition (v : Value) : Except Fault (List Value) :=
  if v.isText || !v.isIterable then v.refuse "'composition' must be a sequence of names, got " ""
  else v.iterate

def read (fs : Fields) : Except Fault Labels := do
  let description ← readLabel fs "description"
  let category ← readLabel fs "category"
  let inputType ← readLabel fs "input_type"
  let outputType ← readLabel fs "output_type"
  let tags ← readTags (fs.get "tags")
  let composition ←
    match fs.get? "composition" with
    | some v => (readComposition v).map some
    | none => pure none
  return { description, category, tags, inputType, outputType, composition }

def buildFields (l : Labels) : Fields :=
  [("description", l.description.given), ("category", l.category.given),
    ("tags", .frozenSet (l.tags.map (·.given))), ("input_type", l.inputType.given),
    ("output_type", l.outputType.given)]

def toFields (l : Labels) : Fields :=
  let composition : Option (Text × Value) :=
    l.composition.map fun names => ("composition", .tuple names)
  l.buildFields ++ composition.toList

def toValue (l : Labels) : Value := .object l.owner l.toFields

def ofValue? : Value → Option Labels
  | .object c fs => if c = buildOwner ∨ c = recordOwner then (read fs).toOption else none
  | _ => none

def ofRecordValue? (v : Value) : Option Labels := (ofValue? v).filter isRecord

def aliases : List (Text × Text) := [("inputType", "input_type"), ("outputType", "output_type")]

def buildSchema : Schema Labels where
  name := buildOwner.name
  defaults := defaultBuild.toFields
  aliases := aliases
  read := read
  ofValue? := ofValue?
  replace l given := read (Fields.overlay l.toFields given)

def recordSchema : Schema Labels where
  name := recordOwner.name
  defaults := defaultRecord.toFields
  aliases := aliases
  read := read
  ofValue? := ofRecordValue?
  replace l given := read (Fields.overlay l.toFields given)

def coerceBuild (v : Value) (overrides : Fields) : Except Fault Labels :=
  buildSchema.coerceCall "coerce_build_metadata" v overrides.entries

/-- What labels of a record are made from: labels of a pipeline count as a mapping of their fields.
-/
def recordSource (v : Value) : Value :=
  match ofValue? v with
  | some l => if l.isRecord then v else .record l.buildFields
  | none => v

def coerceRecord (v : Value) (overrides : List (Value × Value)) : Except Fault Labels :=
  recordSchema.coerceCall "coerce_record_metadata" (recordSource v) overrides

def report (l : Labels) : Fields :=
  let shared : Fields :=
    [("description", l.description.given), ("category", l.category.given),
      ("tags", .list ((Name.sort l.tags).map (·.given))), ("input_type", l.inputType.given),
      ("output_type", l.outputType.given)]
  shared ++ (l.composition.map fun names => (("composition" : Text), Value.list names)).toList

end Labels

end MorphEngine
