import MorphEngine.Proofs.Assembly
import MorphEngine.Proofs.Catalog.Consistent

/-!
# How a pipeline gets into a catalog

The labels of a pipeline are kept in a form that can be read back, so the labels of its record can
always be made: they list the declared labels as what the pipeline is composed of. Therefore a
catalog takes a pipeline up exactly when it has no record under the pipeline's name.
-/

namespace MorphEngine

namespace Labels

/-- Texts are all names. -/
theorem exists_names {members : List Value} (texts : ∀ v ∈ members, v.isText = true) :
    ∃ names, members.mapM Name.ofValue? = some names := by
  induction members with
  | nil => exact ⟨[], rfl⟩
  | cons v rest ih =>
    rw [List.forall_mem_cons] at texts
    obtain ⟨t, reads⟩ := Option.isSome_iff_exists.mp texts.1
    obtain ⟨names, tail⟩ := ih texts.2
    have head : Name.ofValue? v = some ⟨v, t, reads⟩ := Name.ofValue?_given ⟨v, t, reads⟩
    exact ⟨⟨v, t, reads⟩ :: names, by simp [head, tail]⟩

/-- A set of names can be read as tags. -/
theorem exists_readTags (tags : List Name) :
    ∃ names, readTags (.frozenSet (tags.map (·.given))) = .ok names := by
  have texts : ∀ v ∈ tags.map (·.given), v.isText = true := by
    intro v hv
    obtain ⟨tag, _, rfl⟩ := List.mem_map.mp hv
    exact tag.isText_given
  obtain ⟨members, joined, isText, _⟩ := Value.setOf_texts texts
  obtain ⟨names, named⟩ := exists_names isText
  have iterated : (Value.frozenSet (tags.map (·.given))).iterate = .ok (tags.map (·.given)) := rfl
  refine ⟨names, ?_⟩
  simp only [readTags, iterated]
  simp [Value.isText, Value.text?, Value.isIterable, Value.iterate?, Value.bare, joined, named,
    bind, Except.bind, pure, Except.pure]

/-- The fields hold what the labels are made of; what is listed as composition is left open. -/
structure HeldBy (l : Labels) (fs : Fields) : Prop where
  description : fs.get "description" = l.description.given
  category : fs.get "category" = l.category.given
  tags : fs.get "tags" = .frozenSet (l.tags.map (·.given))
  inputType : fs.get "input_type" = l.inputType.given
  outputType : fs.get "output_type" = l.outputType.given

theorem readLabel_eq {fs : Fields} {name : Text} {n : Name} (held : fs.get name = n.given) :
    readLabel fs name = .ok n := by
  simp only [readLabel, held, n.ofValue?_given]

/-- Fields that hold labels can be read, when the composition can. -/
theorem HeldBy.read {l : Labels} {fs : Fields} {composition : Option (List Value)}
    (held : l.HeldBy fs) (listed : (fs.get? "composition").mapM readComposition = .ok composition) :
    ∃ l', Labels.read fs = .ok l' ∧ l'.composition = composition := by
  obtain ⟨names, tags⟩ := exists_readTags l.tags
  refine ⟨⟨l.description, l.category, names, l.inputType, l.outputType, composition⟩, ?_, rfl⟩
  simp only [Labels.read, readLabel_eq held.description, readLabel_eq held.category,
    readLabel_eq held.inputType, readLabel_eq held.outputType, held.tags, tags]
  cases given : fs.get? "composition" with
  | none =>
    rw [given] at listed
    cases listed
    rfl
  | some v =>
    rw [given] at listed
    cases known : readComposition v with
    | error f =>
      rw [Option.mapM_some, known] at listed
      cases listed
    | ok xs =>
      rw [Option.mapM_some, known] at listed
      cases listed
      simp only [known]
      rfl

/-- Labels can be read back from their fields. -/
theorem exists_read_toFields (l : Labels) :
    ∃ l', Labels.read l.toFields = .ok l' ∧ l'.composition = l.composition := by
  refine HeldBy.read ⟨rfl, rfl, rfl, rfl, rfl⟩ ?_
  obtain ⟨_, _, _, _, _, none | names⟩ := l <;> rfl

/-- Labels given as a value are labels that list the same. -/
theorem exists_ofValue?_toValue (l : Labels) :
    ∃ l', ofValue? l.toValue = some l' ∧ l'.composition = l.composition := by
  obtain ⟨l', read, same⟩ := exists_read_toFields l
  have owned : l.owner = buildOwner ∨ l.owner = recordOwner := by
    rw [owner]
    split
    · exact Or.inr rfl
    · exact Or.inl rfl
  refine ⟨l', ?_, same⟩
  rw [toValue, ofValue?, if_pos owned, read]
  rfl

/-- Labels of a record stand for themselves. -/
theorem base_of_record {v : Value} {l : Labels} (known : ofValue? v = some l)
    (record : l.isRecord = true) : recordSchema.base v = .ok l := by
  have taken : recordSchema.ofValue? v = some l := by
    have filtered : recordSchema.ofValue? v = (ofValue? v).filter isRecord := rfl
    rw [filtered, known, Option.filter_some, if_pos record]
  cases v with
  | object => simp only [Schema.base, taken]
  | _ => cases known

/-- Labels of a pipeline stand for labels of a record that list nothing yet. -/
theorem exists_base_of_known {v : Value} {l : Labels} (known : ofValue? v = some l) :
    ∃ l', recordSchema.base (recordSource v) = .ok l' ∧ l'.isRecord = true := by
  -- Labels that list a composition are those of a record already; others overlay the defaults.
  by_cases record : l.isRecord = true
  · have source : recordSource v = v := by
      simp only [recordSource, known, record, if_true]
    exact ⟨l, by rw [source, base_of_record known record], record⟩
  · have source : recordSource v = .record l.buildFields := by
      simp only [recordSource, known, record, if_false, Bool.false_eq_true]
    have based : recordSchema.base (.record l.buildFields) =
        Labels.read (Fields.overlay defaultRecord.toFields l.buildFields) := rfl
    have held : l.HeldBy (Fields.overlay defaultRecord.toFields l.buildFields) :=
      ⟨rfl, rfl, rfl, rfl, rfl⟩
    have unlisted : (Fields.get? (Fields.overlay defaultRecord.toFields l.buildFields)
        "composition").mapM readComposition = .ok (some []) := rfl
    obtain ⟨l', read, listed⟩ := held.read unlisted
    refine ⟨l', by rw [source, based, read], ?_⟩
    rw [isRecord, listed]
    rfl

theorem exists_base (l : Labels) :
    ∃ l', recordSchema.base (recordSource l.toValue) = .ok l' ∧ l'.isRecord = true := by
  obtain ⟨_, known, _⟩ := exists_ofValue?_toValue l
  exact exists_base_of_known known

/-- Whatever labels a pipeline has, those of its record list the names that are given. -/
theorem exists_coerceRecord (l : Labels) {given : Value} {names : List Value}
    (reads : readComposition given = .ok names) :
    ∃ l', coerceRecord l.toValue [(.text "composition", given)] = .ok l' ∧
      l'.composition = some names := by
  obtain ⟨base, based, record⟩ := exists_base l
  obtain ⟨old, listed⟩ := Option.isSome_iff_exists.mp record
  have held : base.HeldBy (Fields.overlay base.toFields [("composition", given)]) :=
    ⟨rfl, rfl, rfl, rfl, rfl⟩
  have overlaid : (Fields.get? (Fields.overlay base.toFields [("composition", given)])
      "composition").mapM readComposition = .ok (some names) := by
    rw [toFields, listed]
    show (some given).mapM readComposition = _
    rw [Option.mapM_some, reads]
    rfl
  obtain ⟨l', read, lists⟩ := held.read overlaid
  refine ⟨l', ?_, lists⟩
  have replaced : coerceRecord l.toValue [(.text "composition", given)] =
      (recordSchema.base (recordSource l.toValue) >>= fun m =>
        Labels.read (Fields.overlay m.toFields [("composition", given)])) := rfl
  rw [replaced, based]
  exact read

end Labels

namespace Catalog

/-- A name is always one that can be looked up. -/
theorem get_name (c : Catalog) (n : Name) : c.get n.given = .ok (c.find? n.given) := by
  rw [get, (Value.checkKeyAmong_of_text n.reads _).2]
  rfl

variable {c : Catalog} (info : PipelineInfo) (stages declared : List Stage)

/-- The record of a pipeline lists the declared labels. -/
theorem exists_recordLabels (head : Header) :
    ∃ l, recordLabels (.pipeline head info stages declared) .none = .ok l ∧
      l.composition = some (declared.map (·.label.given)) := by
  obtain ⟨l, own, lists⟩ :=
    Labels.exists_coerceRecord info.labels
      (rfl : Labels.readComposition (.list (declared.map (·.label.given))) = _)
  refine ⟨l, ?_, lists⟩
  have labels : defaultLabels (.pipeline head info stages declared) = .ok l := own
  rw [recordLabels, labels]
  rfl

variable {head : Header}

/-- A pipeline is registered under its own name when that is free. -/
theorem entered_free (free : c.find? head.name.given = none) :
    ∃ l, l.composition = some (declared.map (·.label.given)) ∧
      c.entered (.pipeline head info stages declared) .none (.bool false) head.name.given =
        .ok (c.add head.name.given (.pipeline head info stages declared) l) := by
  obtain ⟨l, labels, lists⟩ := exists_recordLabels info stages declared head
  refine ⟨l, lists, ?_⟩
  rw [entered, labels, get_name, free]
  rfl

theorem entered_taken {r : CatalogRecord} (taken : c.find? head.name.given = some r) :
    ∃ f, c.entered (.pipeline head info stages declared) .none (.bool false) head.name.given =
      .error f := by
  obtain ⟨l, labels, _⟩ := exists_recordLabels info stages declared head
  simp only [entered, labels, get_name, taken]
  rcases head.name.given.insertedOrFault with f | t
  · exact ⟨f, rfl⟩
  · exact ⟨_, rfl⟩

end Catalog

namespace Shelf

/-- Whether a pipeline of some name can be put there. -/
def hasPlaceFor (n : Name) : Shelf → Bool
  | missing => true
  | catalog c => (c.find? n.given).isNone
  | other _ => false

/-- The shelf with a pipeline put there. -/
def takeUp (m : Morph) : Shelf → Except Fault Shelf
  | missing => .ok missing
  | catalog c =>
    (c.registered (m.toValue, some m) .none (.bool false) .none).map fun added => catalog added.2
  | other v => .error (.lacking v "define")

/-- Putting a pipeline on a shelf leads to another shelf: a catalog gets one record more, of the
pipeline under its own name, which lists the given labels. -/
inductive Enrols (m : Morph) (listed : List Value) : Shelf → Shelf → Prop
  | missing : Enrols m listed missing missing
  | catalog {c c' : Catalog} {r : CatalogRecord} (added : c.add m.name.given m r.labels = (r, c'))
    (records : c'.records = c.records ++ [r]) (named : r.name = m.name.given)
    (target : r.target = m) (lists : r.labels.composition = some listed) :
    Enrols m listed (catalog c) (catalog c')

variable {head : Header} {info : PipelineInfo} {stages declared : List Stage}

theorem takeUp_catalog (c : Catalog) :
    takeUp (.pipeline head info stages declared) (catalog c) =
      (c.entered (.pipeline head info stages declared) .none (.bool false) head.name.given).map
        fun added => catalog added.2 := rfl

theorem takeUp_of_place {shelf : Shelf} (place : shelf.hasPlaceFor head.name = true) :
    ∃ shelf', takeUp (.pipeline head info stages declared) shelf = .ok shelf' ∧
      Enrols (.pipeline head info stages declared) (declared.map (·.label.given)) shelf shelf' := by
  cases shelf with
  | missing => exact ⟨missing, rfl, .missing⟩
  | other v => cases place
  | catalog c =>
    obtain ⟨l, lists, entered⟩ :=
      Catalog.entered_free info stages declared (Option.isNone_iff_eq_none.mp place)
    exact ⟨_, by rw [takeUp_catalog, entered]; rfl, .catalog rfl rfl rfl rfl lists⟩

theorem takeUp_of_no_place {shelf : Shelf} (none : shelf.hasPlaceFor head.name = false) :
    ∃ f, takeUp (.pipeline head info stages declared) shelf = .error f := by
  cases shelf with
  | missing => cases none
  | other v => exact ⟨_, rfl⟩
  | catalog c =>
    cases found : c.find? head.name.given with
    | none =>
      rw [hasPlaceFor, found] at none
      cases none
    | some r =>
      obtain ⟨f, refused⟩ := Catalog.entered_taken info stages declared found
      exact ⟨f, by rw [takeUp_catalog, refused]; rfl⟩

end Shelf

end MorphEngine
