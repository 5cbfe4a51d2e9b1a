import MorphEngine.Proofs.Builder.LifeCycle
import MorphEngine.Proofs.Metadata.Refusals

/-!
# Faults of metadata, wherever they are given

Metadata are coerced on their own, when a morph is created, when a pipeline is built, and when a
target is registered. A fault that comes out of their handling either says that the configuration is
bad, or is due to a culprit among what was given, and every culprit comes out in that way. What the
engine itself adds to metadata, such as a description or a composition, is never to blame.
-/

namespace MorphEngine

open Fusion (bind_eq_ok)

/-! ### Coercion -/

namespace MetadataKind

def callee : MetadataKind → Text
  | morph => "coerce_morph_metadata"
  | build => "coerce_build_metadata"
  | record => "coerce_record_metadata"

/-- What a fault comes from, unless the configuration is to blame: a value of no use that cannot be
shown, a foreign key that cannot be written, a value in the way of its field, or the name of the
parameter among the overrides. -/
inductive Culprit (k : MetadataKind) (v : Value) (o : Fields) (f : Fault) : Prop
  | value (plain : v.entries? = none) (unwritten : v.shownOrFault = .error f)
  | key {es : List (Value × Value)} (entries : v.entries? = some es)
    (foreign : k.schema.CannotName es f)
  | item {name : Text} {w : Value}
    (given : k.schema.entryFor name (v.entries?.getD []) = some w ∨
      k.schema.entryFor name o.entries = some w)
    (thwarts : w.Thwarts f)
  | parameter (named : ∃ g ∈ o, g.1 = "value")
    (fault : f = .typeError (k.callee ++ "() got multiple values for argument 'value'"))

variable {k : MetadataKind} {name : Text} {v w : Value} {o : Fields} {f : Fault}

theorem of_rule (fails : k.rule name w = .error f) : f.kind = .configuration ∨ w.Thwarts f := by
  cases k with
  | morph => exact MorphMetadata.of_rule fails
  | build => exact Labels.of_rule fails
  | record => exact Labels.of_rule fails

/-- A value stands for itself, unless it is the labels of a pipeline: these are taken apart into
fields which settle. -/
theorem source_cases (k : MetadataKind) (v : Value) :
    k.source v = v ∨ ∃ fs : Fields, k.source v = .record fs ∧ ∀ g ∈ fs,
      k.schema.fieldFor? (.text g.1) = some g.1 ∧ k.rule g.1 g.2 = .ok g.2 := by
  cases k with
  | morph => exact Or.inl rfl
  | build => exact Or.inl rfl
  | record =>
    show Labels.recordSource v = v ∨ ∃ fs : Fields, Labels.recordSource v = .record fs ∧ _
    unfold Labels.recordSource
    cases known : Labels.ofValue? v with
    | none => exact Or.inl rfl
    | some l =>
      dsimp only
      split
      · exact Or.inl rfl
      · refine Or.inr ⟨l.buildFields, rfl, ?_⟩
        obtain ⟨fs, made⟩ := Labels.read_of_ofValue? known
        have settles (name : Text) (common : name ∈ Labels.commonOrder) :
            Labels.rule name (Fields.get l.toFields name) =
              .ok (Fields.get l.toFields name) :=
          Labels.rule_stable
            (Labels.fieldwiseRecord.rule_of_read made (Labels.common_mem l common))
        simp only [Labels.buildFields, List.forall_mem_cons]
        exact ⟨⟨rfl, settles "description" (by decide)⟩, ⟨rfl, settles "category" (by decide)⟩,
          ⟨rfl, settles "tags" (by decide)⟩, ⟨rfl, settles "input_type" (by decide)⟩,
          ⟨rfl, settles "output_type" (by decide)⟩, List.forall_mem_nil _⟩

/-- The parameter of the metadata themselves cannot be overridden. -/
theorem coerce_named (named : ∃ g ∈ o, g.1 = "value") :
    k.coerce v o =
      .error (.typeError (k.callee ++ "() got multiple values for argument 'value'")) := by
  obtain ⟨g, hg, same⟩ := named
  have taken : (o.entries.any fun e => e.1.text? == some "value") = true := by
    refine List.any_eq_true.mpr ⟨(.text g.1, g.2), List.mem_map_of_mem hg, ?_⟩
    rw [Value.text?, same]
    exact beq_self_eq_true _
  cases k <;> exact if_pos taken

/-- What is given is to blame for every fault of coercion. -/
theorem of_coerce (fails : k.coerce v o = .error f) :
    f.kind = .configuration ∨ k.Culprit v o f := by
  by_cases named : ∃ g ∈ o, g.1 = "value"
  · rw [coerce_named named] at fails
    cases fails
    exact Or.inr (.parameter named rfl)
  rw [coerce_eq fun g hg same => named ⟨g, hg, same⟩] at fails
  rcases k.fieldwise.of_coerce fails with configured | culprit
  · exact Or.inl configured
  have thwarted {name : Text} {w : Value}
      (given : k.schema.entryFor name (v.entries?.getD []) = some w ∨
        k.schema.entryFor name o.entries = some w) (ruled : k.rule name w = .error f) :
      f.kind = .configuration ∨ k.Culprit v o f :=
    (of_rule ruled).imp_right (.item given)
  rcases source_cases k v with own | ⟨fs, apart, settled⟩
  · rw [own] at culprit
    cases culprit with
    | value plain unwritten => exact Or.inr (.value plain unwritten)
    | key given foreign =>
      rcases given with rfl | rfl
      · cases entries : v.entries? with
        | none =>
          rw [entries] at foreign
          obtain ⟨_, none, _⟩ := foreign
          cases none
        | some es =>
          rw [entries] at foreign
          exact Or.inr (.key entries foreign)
      · exact absurd foreign (not_cannotName o f)
    | item given holds ruled =>
      rcases given with rfl | rfl
      · exact thwarted (Or.inl holds) ruled
      · exact thwarted (Or.inr holds) ruled
  · -- The labels of a pipeline have no foreign keys, and all their fields settle.
    rw [apart] at culprit
    cases culprit with
    | value plain => cases plain
    | key given foreign =>
      rcases given with rfl | rfl
      · obtain ⟨e, he, unknown, _⟩ := foreign
        obtain ⟨g, hg, rfl⟩ := List.mem_map.mp he
        rw [(settled g hg).1] at unknown
        cases unknown
      · exact absurd foreign (not_cannotName o f)
    | @item _ name w given holds ruled =>
      rcases given with rfl | rfl
      · have plain : ∀ g ∈ fs, k.schema.fieldOf g.1 = g.1 := by
          intro g hg
          obtain ⟨reads, _⟩ := Option.filter_eq_some_iff.mp (settled g hg).1
          exact Option.some.inj reads
        have listed : fs.get? name = some w :=
          (Schema.entryFor_entries plain name).symm.trans holds
        obtain ⟨before, after, rfl, _⟩ := List.lookup_eq_some_iff.mp listed
        have fine := (settled (name, w) (List.mem_append_right _ List.mem_cons_self)).2
        have ruled : k.rule name w = .error f := ruled
        rw [fine] at ruled
        cases ruled
      · exact thwarted (Or.inr holds) ruled

/-- A culprit makes a fault of one of three kinds. -/
theorem Culprit.kind (culprit : k.Culprit v o f) : f.kind ∈ [.type, .value, .recursion] := by
  cases culprit with
  | value _ unwritten => rcases Value.of_written unwritten with kind | kind <;> simp [kind]
  | key _ foreign =>
    obtain ⟨e, _, _, unwritten⟩ := foreign
    rcases Value.of_written unwritten with kind | kind <;> simp [kind]
  | item _ thwarts => exact thwarts.kind
  | parameter _ fault =>
    rw [fault]
    exact List.mem_cons_self

theorem coerce_single (key w : Value) :
    k.coerce (.table [(key, w)]) [] = k.schema.coerce (.table [(key, w)]) [] := by
  rw [coerce_eq fun g hg => absurd hg List.not_mem_nil, source_table]
  rfl

theorem fieldOf_name (k : MetadataKind) : ∀ name ∈ k.schema.defaults.names,
    k.schema.fieldOf name = name := by
  cases k <;> decide

/-- What a field does not take is refused with the fault of the field. -/
theorem coerce_item_fails (has : name ∈ k.schema.defaults.names)
    (fails : k.rule name w = .error f) : k.coerce (.table [(.text name, w)]) [] = .error f := by
  rw [coerce_single]
  exact k.fieldwise.coerce_item_fails has (fieldOf_name k name has) fails

/-- A foreign key that cannot be written is refused with the fault of writing it. -/
theorem coerce_key_fails {key : Value} (foreign : k.schema.fieldFor? key = none)
    (unwritten : key.insertedOrFault = .error f) : k.coerce (.table [(key, w)]) [] = .error f := by
  rw [coerce_single]
  exact k.fieldwise.coerce_key_fails foreign unwritten

end MetadataKind

/-! ### Creation of morphs -/

namespace Morph

variable {id : Nat} {name fn metadata : Value} {settings : CacheSettings} {options : Fields}
  {f : Fault}

theorem of_create (fails : create id name fn metadata settings options = .error f) :
    (f.kind = .configuration ∨ MetadataKind.morph.Culprit metadata options f) ∨
      ∃ m, MorphMetadata.coerce metadata options = .ok m ∧
        ofFunction id name fn m settings = .error f := by
  rcases bind_eq_error fails with refused | made
  · exact Or.inl (MetadataKind.of_coerce (k := .morph) refused)
  · exact Or.inr made

end Morph

/-! ### Builds -/

namespace Labels

/-- Labels take any text for their description. -/
theorem exists_described (l : Labels) (t : Text) :
    ∃ l', coerceBuild l.toValue [("description", .text t)] = .ok l' := by
  obtain ⟨own, known, _⟩ := exists_ofValue?_toValue l
  have based : buildSchema.base l.toValue = .ok own := by
    have taken : buildSchema.ofValue? l.toValue = some own := known
    rw [toValue] at taken ⊢
    simp only [Schema.base, taken]
  have held : Labels.HeldBy { own with description := t }
      (Fields.overlay own.toFields [("description", .text t)]) := ⟨rfl, rfl, rfl, rfl, rfl⟩
  have listed : (Fields.get? (Fields.overlay own.toFields [("description", .text t)])
      "composition").mapM readComposition = .ok own.composition := by
    obtain ⟨_, _, _, _, _, none | names⟩ := own <;> rfl
  obtain ⟨l', read, _⟩ := held.read listed
  refine ⟨l', ?_⟩
  have replaced : coerceBuild l.toValue [("description", .text t)] =
      (buildSchema.base l.toValue >>= fun m =>
        Labels.read (Fields.overlay m.toFields [("description", .text t)])) := rfl
  rw [replaced, based]
  exact read

end Labels

namespace Builder

variable {b : Builder} {metadata : Value} {options : Fields} {f : Fault}

/-- The labels of a build fail only where the metadata do. -/
theorem of_readLabels (fails : b.readLabels metadata options = .error f) :
    Labels.coerceBuild metadata options = .error f := by
  rcases bind_eq_error fails with refused | ⟨labels, _, described⟩
  · exact refused
  · split at described
    · obtain ⟨l, fine⟩ := labels.exists_described ("Pipeline: " ++ b.name.plain)
      rw [fine] at described
      cases described
    · cases described

theorem run_build_of_readLabels {w : Workbench} (cells : Cells) (id firstId : Nat)
    (opened : w.builder.refuseWhenBuilt = .ok ())
    (fails : w.builder.readLabels metadata options = .error f) :
    (Builder.build cells id firstId metadata options).run w = (.error f, w) := by
  rw [run_build, draft, opened]
  simp only [fails, bind, Except.bind]
  rfl

end Builder

/-! ### Registrations -/

namespace Value

/-- Whatever form a text has, it can be written into a message. -/
theorem insertedOrFault_of_isText {v : Value} (isText : v.isText = true) :
    ∃ t, v.insertedOrFault = .ok t := by
  obtain ⟨t, reads⟩ := Option.isSome_iff_exists.mp isText
  rcases text_cases reads with rfl | ⟨m, rfl⟩ | ⟨⟨type, bs⟩, rfl, n, little, kind⟩
  · exact ⟨t, rfl⟩
  · obtain ⟨s, plain⟩ := Option.isSome_iff_exists.mp (Name.plain_isSome ⟨_, t, reads⟩)
    have shallow : ¬(member m).isDeeperThan nestingLimit = true := Bool.false_ne_true
    refine ⟨s, ?_⟩
    show (member m).written Value.plain = _
    rw [written, if_neg shallow, plain]
  · cases kind
    exact ⟨_, rfl⟩

end Value

namespace Catalog

/-- What a fault of a registration comes from, unless the configuration is to blame: metadata of no
use that cannot be shown, a key of the metadata that is no keyword, the name of a parameter among
the keys, or a value in the way of its field. -/
inductive Culprit (metadata : Value) (f : Fault) : Prop
  | value (plain : metadata.entries? = none) (unwritten : metadata.shownOrFault = .error f)
  | keyword {es : List (Value × Value)} {e : Value × Value}
    (entries : metadata.entries? = some es) (listed : e ∈ es) (noText : e.1.isText = false)
    (fault : f = .typeError "keywords must be strings")
  | parameter {es : List (Value × Value)} {e : Value × Value}
    (entries : metadata.entries? = some es) (listed : e ∈ es) (named : e.1.text? = some "value")
    (fault : f = .typeError "coerce_record_metadata() got multiple values for argument 'value'")
  | item {es : List (Value × Value)} {name : Text} {w : Value}
    (entries : metadata.entries? = some es)
    (holds : Labels.recordSchema.entryFor name es = some w) (thwarts : w.Thwarts f)

/-- The labels that a target has of its own can always be made. -/
theorem exists_defaultLabels (m : Morph) : ∃ l, defaultLabels m = .ok l := by
  cases m with
  | pipeline head info stages declared =>
    obtain ⟨l, made, _⟩ := Labels.exists_coerceRecord info.labels
      (rfl : Labels.readComposition (Morph.labelList declared) = _)
    exact ⟨l, made⟩
  | composed head steps finish => exact ⟨_, rfl⟩
  | simple head fn => exact ⟨_, rfl⟩
  | conditional head predicate body => exact ⟨_, rfl⟩
  | identity head => exact ⟨_, rfl⟩
  | fused head members => exact ⟨_, rfl⟩

variable {m : Morph} {metadata : Value} {es : List (Value × Value)} {f : Fault}

/-- Labels take entries over, unless one of these is to blame. -/
theorem of_coerceRecord {l : Labels} (texts : ∀ e ∈ es, e.1.isText = true)
    (entries : metadata.entries? = some es)
    (fails : Labels.coerceRecord l.toValue es = .error f) :
    f.kind = .configuration ∨ Culprit metadata f := by
  obtain ⟨own, based, _⟩ := Labels.exists_base l
  unfold Labels.coerceRecord Schema.coerceCall at fails
  split at fails
  · next named =>
    obtain ⟨e, he, reads⟩ := List.any_eq_true.mp named
    cases fails
    exact Or.inr (.parameter entries he (beq_iff_eq.mp reads) rfl)
  · let F := Labels.fieldwiseRecord
    rw [F.coerce_eq, based] at fails
    rcases F.of_overlaid based fails with configured | foreign | ⟨name, w, holds, ruled⟩
    · exact Or.inl configured
    · obtain ⟨e, he, _, unwritten⟩ := foreign
      obtain ⟨t, written⟩ := Value.insertedOrFault_of_isText (texts e he)
      rw [written] at unwritten
      cases unwritten
    · exact (Labels.of_rule ruled).imp_right (.item entries holds)

/-- Labels that are given as such are always taken over. -/
theorem exists_completed {l : Labels} (known : Labels.ofValue? metadata = some l)
    (names : List Value) :
    ∃ given, Labels.coerceRecord metadata [] = .ok given ∧
      ∃ l', Labels.coerceRecord given.toValue [(.text "composition", .tuple names)] = .ok l' := by
  obtain ⟨given, based, _⟩ := Labels.exists_base_of_known known
  have taken : Labels.coerceRecord metadata [] =
      (Labels.recordSchema.base (Labels.recordSource metadata) >>= Except.ok) := rfl
  obtain ⟨l', made, _⟩ := given.exists_coerceRecord
    (rfl : Labels.readComposition (.tuple names) = _)
  exact ⟨given, by rw [taken, based]; rfl, l', made⟩

/-- What is given with a registration is to blame for every fault of its labels. -/
theorem of_recordLabels (fails : recordLabels m metadata = .error f) :
    f.kind = .configuration ∨ Culprit metadata f := by
  obtain ⟨own, default⟩ := exists_defaultLabels m
  unfold recordLabels at fails
  rw [default] at fails
  simp only [bind, Except.bind] at fails
  split at fails
  · cases fails
  · next metadata _ _ _ _ known =>
    obtain ⟨given, taken, _, made⟩ := exists_completed known (own.composition.getD [])
    rw [taken] at fails
    dsimp only at fails
    split at fails
    · rw [made] at fails
      cases fails
    · cases fails
  · split at fails
    · next es entries =>
      cases named : keywords es with
      | error g =>
        rw [named] at fails
        cases fails
        unfold keywords at named
        split at named
        · cases named
        · next notAll =>
          cases named
          obtain ⟨e, he, noText⟩ := List.all_eq_false.mp (Bool.eq_false_iff.mpr notAll)
          exact Or.inr (.keyword entries he (Bool.eq_false_iff.mpr noText) rfl)
      | ok es' =>
        have texts : ∀ e ∈ es, e.1.isText = true := by
          unfold keywords at named
          split at named
          · next all => exact List.all_eq_true.mp all
          · cases named
        rw [named, keywords_eq named] at fails
        exact of_coerceRecord texts entries fails
    · next plain => exact (Value.of_refuse fails).imp_right (.value plain)

theorem Culprit.kind (culprit : Culprit metadata f) : f.kind ∈ [.type, .value, .recursion] := by
  cases culprit with
  | value _ unwritten => rcases Value.of_written unwritten with kind | kind <;> simp [kind]
  | item _ _ thwarts => exact thwarts.kind
  | keyword _ _ _ fault | parameter _ _ _ fault =>
    rw [fault]
    exact List.mem_cons_self

/-- A key that is no text is no keyword, so labels of its mapping cannot be made. -/
theorem recordLabels_keyword (m : Morph) {e : Value × Value} (listed : e ∈ es)
    (noText : e.1.isText = false) :
    recordLabels m (.table es) = .error (.typeError "keywords must be strings") := by
  obtain ⟨own, default⟩ := exists_defaultLabels m
  have refused : keywords es = .error (.typeError "keywords must be strings") := by
    rw [keywords, if_neg]
    exact fun all => Bool.eq_false_iff.mp noText (List.all_eq_true.mp all e listed)
  have expanded : recordLabels m (.table es) = (defaultLabels m >>= fun own =>
      keywords es >>= fun given => Labels.coerceRecord own.toValue given) := rfl
  rw [expanded, default, refused]
  rfl

/-- A registration ends with the fault of its labels, and leaves the catalog as it was. -/
theorem run_define_of_recordLabels (c : Catalog) (v overwrite : Value) {name title : Value}
    (titled : name.orElse m.name.given = .ok title) (fails : recordLabels m metadata = .error f) :
    (define (v, some m) metadata overwrite name).run c = (.error f, c) := by
  have comes : registered (v, some m) metadata overwrite name c = .error f := by
    simp only [registered, entered, titled, fails, bind, Except.bind]
  rw [run_define, comes]

end Catalog

/-! ### All of them -/

/-- Wherever metadata are given, a fault of their handling says that the configuration is bad, or
has a culprit among what was given. A culprit does come out so: what a field does not take, a
foreign key that cannot be written, and a key of a registration that is no text. -/
theorem metadata_faults_have_culprits (metadata : Value) (options : Fields) (f : Fault) :
    (∀ k : MetadataKind, k.coerce metadata options = .error f →
      f.kind = .configuration ∨ k.Culprit metadata options f) ∧
    (∀ k : MetadataKind, k.Culprit metadata options f → f.kind ∈ [.type, .value, .recursion]) ∧
    (∀ (k : MetadataKind) name w, name ∈ k.schema.defaults.names → k.rule name w = .error f →
      k.coerce (.table [(.text name, w)]) [] = .error f) ∧
    (∀ (k : MetadataKind) key w, k.schema.fieldFor? key = none →
      key.insertedOrFault = .error f → k.coerce (.table [(key, w)]) [] = .error f) ∧
    (∀ id name fn settings, Morph.create id name fn metadata settings options = .error f →
      (f.kind = .configuration ∨ MetadataKind.morph.Culprit metadata options f) ∨
        ∃ m, MorphMetadata.coerce metadata options = .ok m ∧
          Morph.ofFunction id name fn m settings = .error f) ∧
    (∀ (w : Workbench) cells id firstId,
      w.builder.refuseWhenBuilt = .ok () → w.builder.readLabels metadata options = .error f →
      (Builder.build cells id firstId metadata options).run w = (.error f, w) ∧
        (f.kind = .configuration ∨ MetadataKind.build.Culprit metadata options f)) ∧
    (∀ (c : Catalog) v m overwrite name title,
      name.orElse m.name.given = .ok title → Catalog.recordLabels m metadata = .error f →
      (Catalog.define (v, some m) metadata overwrite name).run c = (.error f, c) ∧
        (f.kind = .configuration ∨ Catalog.Culprit metadata f)) ∧
    ∀ m es e, metadata = .table es → e ∈ es → e.1.isText = false →
      Catalog.recordLabels m metadata = .error (.typeError "keywords must be strings") := by
  refine ⟨fun k => MetadataKind.of_coerce, fun k => MetadataKind.Culprit.kind,
    fun k name w => MetadataKind.coerce_item_fails, fun k key w => MetadataKind.coerce_key_fails,
    fun id name fn settings => Morph.of_create, ?_, ?_, ?_⟩
  · intro w cells id firstId opened fails
    exact ⟨Builder.run_build_of_readLabels cells id firstId opened fails,
      MetadataKind.of_coerce (Builder.of_readLabels fails)⟩
  · intro c v m overwrite name title titled fails
    exact ⟨Catalog.run_define_of_recordLabels c v overwrite titled fails,
      Catalog.of_recordLabels fails⟩
  · rintro m es e rfl
    exact Catalog.recordLabels_keyword m

theorem Value.insertedOrFault_of_isUnwritable {n : Int} (long : Number.isUnwritable n = true) :
    (Value.int n).insertedOrFault = .error .tooManyDigits := by
  have bare : (Value.int n).insertedAs = .int n := rfl
  have flat : (Value.int n).isDeeperThan Value.nestingLimit = false := rfl
  have plain : (Value.int n).plain = Option.none := by
    show (Value.int n).shown = Option.none
    rw [Value.shown, Value.shownInt, if_pos long]
  rw [Value.insertedOrFault, bare, Value.plainOrFault, Value.written, flat, plain]
  rfl

/-- Tags that cannot make up a set, for the only one of them is a list. -/
def nestedTags : Value := .table [(.text "tags", .list [.list []])]

def unhashableList : Fault := .typeError "unhashable type: 'list'"

/-- A part of the context that looks like several, and is none. -/
def pointContext : Value := .table [(.text "context", .objectArray [] [.none])]

def pointFault : Fault := .typeError "iteration over a 0-d array"

/-- A mapping from a number of too many digits. -/
def longKey : Value := .table [(.int (Int.ofNat (Nat.pow 10 5000)), .int 2)]

def openWorkbench : Workbench := ⟨⟨"p", EngineSettings.default, [], none⟩, .missing⟩

def plainIdentity : Morph := .identity (Fusion.bareHead 0 "i" .default)

/-- Tags that nest end a build, a projection without parts ends a creation, and a key that is no
text ends a registration, all of them otherwise than as a bad configuration; so does a long key. -/
theorem metadata_faults_nestedTags :
    MetadataKind.build.coerce nestedTags [] = .error unhashableList ∧
    MetadataKind.build.Culprit nestedTags [] unhashableList ∧
    MetadataKind.record.coerce longKey [] = .error .tooManyDigits ∧
    MetadataKind.morph.Culprit pointContext [] pointFault ∧
    (Builder.build [] 1 2 nestedTags []).run openWorkbench =
      (.error unhashableList, openWorkbench) ∧
    (Catalog.define (plainIdentity.toValue, some plainIdentity) longKey (.bool false) .none).run
      Catalog.empty = (.error (.typeError "keywords must be strings"), Catalog.empty) := by
  obtain ⟨traced, _, item, _, _, built, _, _⟩ :=
    metadata_faults_have_culprits nestedTags [] unhashableList
  obtain ⟨_, _, _, key, _, _, _, keyword⟩ :=
    metadata_faults_have_culprits longKey [] .tooManyDigits
  obtain ⟨_, _, _, _, created, _, _, _⟩ := metadata_faults_have_culprits pointContext [] pointFault
  obtain ⟨_, _, _, _, _, _, registered, _⟩ :=
    metadata_faults_have_culprits longKey [] (.typeError "keywords must be strings")
  have refused : MetadataKind.build.coerce nestedTags [] = .error unhashableList :=
    item .build "tags" (.list [.list []]) (by decide) rfl
  have unnamed : Catalog.recordLabels plainIdentity longKey = _ :=
    keyword plainIdentity _ (.int (Int.ofNat (Nat.pow 10 5000)), .int 2) rfl List.mem_cons_self rfl
  have culprit := (traced .build refused).resolve_left nofun
  refine ⟨refused, culprit, ?_, ?_, ?_, ?_⟩
  · exact key .record _ (.int 2) rfl (Value.insertedOrFault_of_isUnwritable (by decide +kernel))
  · rcases created 0 (.text "m") (.function 0 false) EngineSettings.default rfl with
      (kind | culprit) | ⟨m, coerced, _⟩
    · cases kind
    · exact culprit
    · have refused : MorphMetadata.coerce pointContext [] = .error pointFault := rfl
      rw [coerced] at refused
      cases refused
  · exact (built openWorkbench [] 1 2 rfl rfl).1
  · exact (registered Catalog.empty plainIdentity.toValue plainIdentity (.bool false) .none
      _ rfl unnamed).1

end MorphEngine
