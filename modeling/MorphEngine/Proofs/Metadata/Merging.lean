import MorphEngine.Proofs.Metadata.Rules
import MorphEngine.Proofs.Metadata.Spellings

/-!
# Metadata as a merge

Coercion merges field by field: a field holds what the overrides give, or else what the metadata
give, or else the default, each made by the rule of the field. It does not matter in which order and
under which spellings the fields are given, and a field that is given twice or under no known name
is refused.
-/

namespace MorphEngine

open Fusion (bind_eq_ok)

namespace Schema

variable {α : Type} {S : Schema α} {v v' : Value} {o o' es es' : List (Value × Value)} {m : α}
  {name : Text}

/-- Values that stand for the same metadata: the same value, or two mappings of which one respells
the other. -/
inductive Alike (S : Schema α) : Value → Value → Prop
  | refl (v : Value) : Alike S v v
  | table {es es' : List (Value × Value)} (respelt : S.Respells es es') :
    Alike S (.table es) (.table es')

/-- The fields of a base with entries laid over them. -/
def laid (S : Schema α) (base : Fields) (es : List (Value × Value)) : Except Fault α := do
  S.read (base.overlay (← S.normalize es))

theorem laid_of_isClean (base : Fields) (clean : S.IsClean es) :
    S.laid base es = S.read (base.overlay (S.fieldsOf es)) := by
  rw [laid, normalize_of_isClean clean]
  rfl

theorem laid_of_not_isClean (base : Fields) (unclean : ¬S.IsClean es) :
    ∃ f, S.laid base es = .error f ∧ (f.kind = .configuration ∨ S.CannotName es f) := by
  obtain ⟨f, fails, blamed⟩ := normalize_of_not_isClean unclean
  exact ⟨f, by rw [laid, fails]; rfl, blamed⟩

/-- Respelt entries are laid over a base alike, save for the message when both are refused. -/
theorem Respells.laid (respelt : S.Respells es es') (base : Fields) :
    (S.laid base es).toOption = (S.laid base es').toOption := by
  by_cases clean : S.IsClean es
  · have same : base.overlay (S.fieldsOf es) = base.overlay (S.fieldsOf es') :=
      Fields.overlay_congr fun _ => Fields.get?_perm clean.distinct respelt.fieldsOf
    rw [laid_of_isClean base clean, laid_of_isClean base (respelt.isClean clean), same]
  · obtain ⟨f, fails, _⟩ := laid_of_not_isClean base clean
    obtain ⟨f', fails', _⟩ := laid_of_not_isClean base (respelt.isClean_iff.not.mp clean)
    rw [fails, fails']
    rfl

namespace Fieldwise

variable (F : S.Fieldwise)

/-- What a value gives to a field: metadata what they hold there, a mapping what it has under any
spelling of the field. -/
def held? (v : Value) (name : Text) : Option Value :=
  match S.ofValue? v with
  | some m => (F.fields m).get? name
  | none => S.entryFor name (v.entries?.getD [])

/-- What is given for a field: by the overrides, or else by the metadata, or else by default. -/
def chosen (v : Value) (o : List (Value × Value)) (name : Text) : Value :=
  ((S.entryFor name o).or (F.held? v name)).getD (S.defaults.get name)

theorem base_table (F : S.Fieldwise) (es : List (Value × Value)) :
    S.base (.table es) = S.laid S.defaults es := by
  unfold base
  rw [F.table_unknown]
  rfl

/-- Fields that are laid over others are made from what was given for them. -/
theorem rule_of_laid {base : Fields} (made : S.laid base es = .ok m)
    (has : name ∈ (F.fields m).names) (based : name ∈ base.names) :
    F.rule name ((S.entryFor name es).getD (base.get name)) = .ok ((F.fields m).get name) := by
  obtain ⟨fs, normal, made⟩ := bind_eq_ok made
  obtain ⟨clean, rfl⟩ := isClean_of_normalize normal
  rw [← entryFor_eq clean, ← Fields.get_overlay base _ based]
  exact F.rule_of_read made has

theorem names_of_laid {base : Fields} (made : S.laid base es = .ok m) (name : Text) :
    name ∈ (F.fields m).names ↔ name ∈ F.order base.names := by
  obtain ⟨fs, normal, made⟩ := bind_eq_ok made
  rw [F.names_of_read made, Fields.names_overlay]

/-- Metadata that a value stands for have all fields of the defaults. -/
theorem names_of_base (based : S.base v = .ok m) (has : name ∈ S.defaults.names) :
    name ∈ (F.fields m).names := by
  unfold base at based
  split at based
  · exact (F.names_of_read based name).mpr ((F.order_defaults name).mpr has)
  · next shown =>
    cases based
    exact (F.known shown).2 name has
  · split at based
    · exact (F.names_of_laid based name).mpr ((F.order_defaults name).mpr has)
    · obtain ⟨_, _, refused⟩ := bind_eq_ok based
      cases refused

/-- What the fields of metadata hold is made from what the value gives for them. -/
theorem rule_of_base (based : S.base v = .ok m) (has : name ∈ (F.fields m).names) :
    F.rule name ((F.held? v name).getD (S.defaults.get name)) = .ok ((F.fields m).get name) := by
  unfold base at based
  unfold held?
  split at based
  · rw [F.none_unknown]
    exact F.rule_of_read based has
  · next shown =>
    cases based
    obtain ⟨w, holds⟩ := Fields.mem_names.mp has
    obtain ⟨fs, made⟩ := (F.known shown).1
    rw [shown]
    dsimp only
    rw [holds, Option.getD_some, ← Fields.get_of_get? holds]
    exact F.stable (F.rule_of_read made has)
  · next unknown =>
    rw [unknown]
    split at based
    · next es entries =>
      have defaulted := (F.order_defaults name).mp ((F.names_of_laid based name).mp has)
      rw [entries]
      exact F.rule_of_laid based has defaulted
    · obtain ⟨_, _, refused⟩ := bind_eq_ok based
      cases refused

/-- Metadata with overrides laid over them, if there are any. -/
def overlaid (o : List (Value × Value)) (own : α) : Except Fault α :=
  if o.isEmpty then .ok own else S.laid (F.fields own) o

theorem coerce_eq (v : Value) (o : List (Value × Value)) :
    S.coerce v o = S.base v >>= F.overlaid o := by
  unfold coerce
  refine bind_congr fun own => ?_
  unfold overlaid laid
  simp only [F.replace_eq]
  rfl

theorem exists_of_coerce (coerced : S.coerce v o = .ok m) :
    ∃ own, S.base v = .ok own ∧ (o = [] ∧ m = own ∨ S.laid (F.fields own) o = .ok m) := by
  rw [F.coerce_eq] at coerced
  obtain ⟨own, based, made⟩ := bind_eq_ok coerced
  refine ⟨own, based, ?_⟩
  unfold overlaid at made
  split at made
  · next empty =>
    cases made
    exact Or.inl ⟨List.isEmpty_iff.mp empty, rfl⟩
  · exact Or.inr made

theorem names_of_coerce (coerced : S.coerce v o = .ok m) (has : name ∈ S.defaults.names) :
    name ∈ (F.fields m).names := by
  obtain ⟨own, based, ⟨rfl, rfl⟩ | made⟩ := F.exists_of_coerce coerced
  · exact F.names_of_base based has
  · rw [F.names_of_laid made, F.order_fields]
    exact F.names_of_base based has

/-- Every field of coerced metadata is made from what was chosen for it. -/
theorem rule_of_coerce (coerced : S.coerce v o = .ok m) (has : name ∈ (F.fields m).names) :
    F.rule name (F.chosen v o name) = .ok ((F.fields m).get name) := by
  obtain ⟨own, based, ⟨rfl, rfl⟩ | made⟩ := F.exists_of_coerce coerced
  · exact F.rule_of_base based has
  · have owned := (F.order_fields own name).mp ((F.names_of_laid made name).mp has)
    have own_made := F.rule_of_base based owned
    have laid_made := F.rule_of_laid made has owned
    unfold chosen
    cases given : S.entryFor name o with
    | some w =>
      rw [given] at laid_made
      exact laid_made
    | none =>
      -- Nothing is laid over the field, so its own value is read again and stays as it is.
      rw [given, Option.getD_none, F.stable own_made] at laid_made
      rw [Option.none_or, own_made]
      exact laid_made

theorem overlaid_congr (respelt : S.Respells o o') (own : α) :
    (F.overlaid o own).toOption = (F.overlaid o' own).toOption := by
  have lengths := List.Perm.length_eq respelt
  rw [List.length_map, List.length_map] at lengths
  have empty : (o.isEmpty = true) = (o'.isEmpty = true) := by
    rw [List.isEmpty_iff_length_eq_zero, List.isEmpty_iff_length_eq_zero, lengths]
  unfold overlaid
  simp only [empty]
  split
  · rfl
  · exact respelt.laid _

/-- Coercion does not depend on the order and the spelling of what is given, save for the message
when it is refused. -/
theorem coerce_congr (F : S.Fieldwise) (alike : S.Alike v v') (respelt : S.Respells o o') :
    (S.coerce v o).toOption = (S.coerce v' o').toOption := by
  rw [F.coerce_eq, F.coerce_eq]
  refine toOption_bind ?_ (F.overlaid_congr respelt)
  cases alike with
  | refl => rfl
  | table respelt => rw [F.base_table, F.base_table, respelt.laid]

/-- A mapping whose keys are not clean is refused, unless a foreign key cannot be written. -/
theorem coerce_fails (F : S.Fieldwise) (unclean : ¬S.IsClean es) (o : List (Value × Value)) :
    ∃ f, S.coerce (.table es) o = .error f ∧ (f.kind = .configuration ∨ S.CannotName es f) := by
  obtain ⟨f, fails, blamed⟩ := laid_of_not_isClean S.defaults unclean
  exact ⟨f, by rw [F.coerce_eq, F.base_table, fails]; rfl, blamed⟩

/-- So are overrides, when the metadata are accepted without them. -/
theorem overrides_fail (F : S.Fieldwise) (accepted : S.coerce v [] = .ok m)
    (unclean : ¬S.IsClean o) :
    ∃ f, S.coerce v o = .error f ∧ (f.kind = .configuration ∨ S.CannotName o f) := by
  obtain ⟨own, based, _⟩ := F.exists_of_coerce accepted
  obtain ⟨f, fails, blamed⟩ := laid_of_not_isClean (F.fields own) unclean
  have filled : ¬o.isEmpty = true := by
    intro empty
    rw [List.isEmpty_iff.mp empty] at unclean
    exact unclean ⟨nofun, List.nodup_nil⟩
  refine ⟨f, ?_, blamed⟩
  rw [F.coerce_eq, based]
  show F.overlaid o own = .error f
  rw [overlaid, if_neg filled, fails]

end Fieldwise

end Schema

/-! ### The kinds of metadata -/

/-- What metadata can be about: a morph, a pipeline that is built, or a record of a catalog. -/
inductive MetadataKind where
  | morph
  | build
  | record

namespace MetadataKind

def Meta : MetadataKind → Type
  | morph => MorphMetadata
  | build | record => Labels

def coerce : (k : MetadataKind) → Value → Fields → Except Fault k.Meta
  | morph, v, o => MorphMetadata.coerce v o
  | build, v, o => Labels.coerceBuild v o
  | record, v, o => Labels.coerceRecord v o.entries

def schema : (k : MetadataKind) → Schema k.Meta
  | morph => MorphMetadata.schema
  | build => Labels.buildSchema
  | record => Labels.recordSchema

def fieldwise : (k : MetadataKind) → k.schema.Fieldwise
  | morph => MorphMetadata.fieldwise
  | build => Labels.fieldwiseBuild
  | record => Labels.fieldwiseRecord

variable (k : MetadataKind)

def fields (m : k.Meta) : Fields := k.fieldwise.fields m

def rule : FieldRule := k.fieldwise.rule

/-- The fields of metadata that a value is already. Labels of a pipeline will do for a record. -/
def instance? (v : Value) : Option Fields :=
  match k with
  | morph => (MorphMetadata.ofValue? v).map (·.toFields)
  | build | record => (Labels.ofValue? v).map (·.toFields)

/-- What a value gives to a field: metadata what they hold there, a mapping what it has under any
spelling of the field. -/
def held? (v : Value) (name : Text) : Option Value :=
  match k.instance? v with
  | some fs => fs.get? name
  | none => k.schema.entryFor name (v.entries?.getD [])

/-- What is given for a field: by the overrides, or else by the value, or else by default. -/
def chosen (v : Value) (o : Fields) (name : Text) : Value :=
  ((k.schema.entryFor name o.entries).or (k.held? v name)).getD (k.schema.defaults.get name)

/-- The metadata have all fields of their kind, and each field holds what its rule makes of what is
chosen for it. -/
structure IsMerge (v : Value) (o : Fields) (m : k.Meta) : Prop where
  complete : ∀ name ∈ k.schema.defaults.names, name ∈ (k.fields m).names
  settled : ∀ name w, (k.fields m).get? name = some w → k.rule name (k.chosen v o name) = .ok w

/-- What stands in for a value in the schema: labels of a pipeline are taken apart for a record. -/
def source : MetadataKind → Value → Value
  | record, v => Labels.recordSource v
  | _, v => v

variable {k} {v v' : Value} {o : Fields}

/-- The parameter of the metadata themselves is not overridden. -/
theorem coerce_eq (named : ∀ f ∈ o, f.1 ≠ "value") :
    k.coerce v o = k.schema.coerce (k.source v) o.entries := by
  have free : (o.entries.any fun e => e.1.text? == some "value") = false := by
    rw [List.any_eq_false]
    intro e he
    obtain ⟨f, hf, rfl⟩ := List.mem_map.mp he
    have other : ¬some f.1 = some "value" := fun same => named f hf (Option.some.inj same)
    rw [Value.text?, beq_iff_eq]
    exact other
  cases k <;> exact if_neg (Bool.eq_false_iff.mp free)

theorem source_table (es : List (Value × Value)) : k.source (.table es) = .table es := by
  cases k <;> rfl

theorem held?_source (v : Value) (name : Text) :
    k.fieldwise.held? (k.source v) name = k.held? v name := by
  cases k with
  | morph =>
    have shown : MorphMetadata.schema.ofValue? v = MorphMetadata.ofValue? v := rfl
    show MorphMetadata.fieldwise.held? v name = _
    rw [Schema.Fieldwise.held?, shown, held?, instance?]
    cases MorphMetadata.ofValue? v <;> rfl
  | build =>
    have shown : Labels.buildSchema.ofValue? v = Labels.ofValue? v := rfl
    show Labels.fieldwiseBuild.held? v name = _
    rw [Schema.Fieldwise.held?, shown, held?, instance?]
    cases Labels.ofValue? v <;> rfl
  | record =>
    have shown (v : Value) :
        Labels.recordSchema.ofValue? v = (Labels.ofValue? v).filter (·.isRecord) := rfl
    show Labels.fieldwiseRecord.held? (Labels.recordSource v) name = _
    rw [Schema.Fieldwise.held?, shown, held?, instance?, Labels.recordSource]
    cases known : Labels.ofValue? v with
    | none =>
      rw [known]
      rfl
    | some l =>
      dsimp only
      by_cases record : l.isRecord = true
      · rw [if_pos record, known, Option.filter_some, if_pos record]
        rfl
      · have plain : l.toFields = l.buildFields := by
          obtain ⟨_, _, _, _, _, none | names⟩ := l
          · rfl
          · exact absurd rfl record
        have own : ∀ f ∈ l.buildFields, Labels.recordSchema.fieldOf f.1 = f.1 := by
          simp only [Labels.buildFields, List.forall_mem_cons]
          exact ⟨rfl, rfl, rfl, rfl, rfl, List.forall_mem_nil _⟩
        rw [if_neg record]
        exact (Schema.entryFor_entries own name).trans (by rw [Option.map_some, plain])

theorem chosen_eq (v : Value) (o : Fields) (name : Text) :
    k.fieldwise.chosen (k.source v) o.entries name = k.chosen v o name := by
  rw [Schema.Fieldwise.chosen, held?_source, chosen]

theorem isMerge_of_coerce (named : ∀ f ∈ o, f.1 ≠ "value") {m : k.Meta}
    (coerced : k.coerce v o = .ok m) : k.IsMerge v o m := by
  rw [coerce_eq named] at coerced
  refine ⟨fun name has => k.fieldwise.names_of_coerce coerced has, fun name w holds => ?_⟩
  have made := k.fieldwise.rule_of_coerce coerced (Fields.mem_names.mpr ⟨w, holds⟩)
  have held : (k.fieldwise.fields m).get name = w := Fields.get_of_get? holds
  rwa [chosen_eq, held] at made

/-- A text can always be written into a message. -/
theorem not_cannotName (o : Fields) (f : Fault) : ¬k.schema.CannotName o.entries f := by
  rintro ⟨e, he, _, unwritten⟩
  obtain ⟨given, _, rfl⟩ := List.mem_map.mp he
  have written : (Value.text given.1).insertedOrFault = .ok given.1 := rfl
  rw [written] at unwritten
  cases unwritten

/-- Coercion merges metadata field by field, whatever the order and the spelling in which they are
given. Keys that stand for no field or for the same one are refused as badly configured, save for a
foreign key of a mapping that cannot be written into the message: then the fault is that one. -/
theorem coerce_merges (k : MetadataKind) (v : Value) (o : Fields)
    (named : ∀ f ∈ o, f.1 ≠ "value") :
    (∀ m, k.coerce v o = .ok m → k.IsMerge v o m) ∧
    (∀ (v' : Value) (o' : Fields), k.schema.Alike v v' → k.schema.Respells o.entries o'.entries →
      (∀ f ∈ o', f.1 ≠ "value") → (k.coerce v o).toOption = (k.coerce v' o').toOption) ∧
    (∀ es, v = .table es → ¬k.schema.IsClean es → ∃ f, k.coerce v o = .error f ∧
      (f.kind = .configuration ∨ k.schema.CannotName es f)) ∧
    (∀ m, k.coerce v [] = .ok m → ¬k.schema.IsClean o.entries →
      ∃ f, k.coerce v o = .error f ∧ f.kind = .configuration) := by
  refine ⟨fun m => isMerge_of_coerce named, fun v' o' alike respelt named' => ?_, ?_, ?_⟩
  · rw [coerce_eq named, coerce_eq named']
    refine k.fieldwise.coerce_congr ?_ respelt
    cases alike with
    | refl => exact .refl _
    | table respelt =>
      rw [source_table, source_table]
      exact .table respelt
  · rintro es rfl unclean
    rw [coerce_eq named, source_table]
    exact k.fieldwise.coerce_fails unclean o.entries
  · intro m accepted unclean
    rw [coerce_eq fun f hf => absurd hf List.not_mem_nil] at accepted
    obtain ⟨f, fails, blamed⟩ := k.fieldwise.overrides_fail accepted unclean
    exact ⟨f, by rw [coerce_eq named, fails], blamed.resolve_right (not_cannotName o f)⟩

/-- A mapping that says how long results last, and another that says the same. -/
def lastingBriefly : Value := .table [(.text "ttl", .int 5), (.text "pure", .bool false)]

def lastingBriefly' : Value := .table [(.text "pure", .bool false), (.text "cacheTtl", .int 5)]

def lastingLonger : Fields := [("cacheTTL", .int 6)]

/-- The override wins under any spelling; a second spelling and a foreign name are refused. -/
theorem coerce_merges_ttl :
    (∃ m, MorphMetadata.coerce lastingBriefly lastingLonger = .ok m ∧
      morph.IsMerge lastingBriefly lastingLonger m) ∧
    (MorphMetadata.coerce lastingBriefly lastingLonger).toOption =
      (MorphMetadata.coerce lastingBriefly' [("cache_ttl", .int 6)]).toOption ∧
    (∃ f, MorphMetadata.coerce (.table [(.text "ttl", .int 5), (.text "cache_ttl", .int 5)]) [] =
      .error f ∧ (f.kind = .configuration ∨ MorphMetadata.schema.CannotName
        [(.text "ttl", .int 5), (.text "cache_ttl", .int 5)] f)) ∧
    ∃ f, MorphMetadata.coerce lastingBriefly [("speed", .int 1)] = .error f ∧
      f.kind = .configuration := by
  have named : ∀ f ∈ lastingLonger, f.1 ≠ "value" := by decide
  have merges := coerce_merges morph lastingBriefly lastingLonger named
  have twice := coerce_merges morph
    (.table [(.text "ttl", .int 5), (.text "cache_ttl", .int 5)]) [] (by simp)
  have foreign := coerce_merges morph lastingBriefly [("speed", .int 1)] (by decide)
  have alike : MorphMetadata.schema.Alike lastingBriefly lastingBriefly' :=
    .table (List.Perm.swap _ _ _)
  have respelt : MorphMetadata.schema.Respells (Fields.entries lastingLonger)
      (Fields.entries [("cache_ttl", .int 6)]) := .refl _
  refine ⟨⟨_, rfl, merges.1 _ rfl⟩, merges.2.1 _ _ alike respelt (by decide),
    twice.2.2.1 _ rfl fun clean => ?_, foreign.2.2.2 _ rfl fun clean => ?_⟩
  · have distinct := clean.distinct
    revert distinct
    decide
  · cases clean.known (.text "speed", .int 1) List.mem_cons_self

end MetadataKind

end MorphEngine
