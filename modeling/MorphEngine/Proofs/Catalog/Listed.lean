import MorphEngine.Proofs.Builder.Enrolment
import MorphEngine.Proofs.Catalog.Ledger

/-!
# What a record lists as its composition

Metadata for a record are laid over each other: the defaults, the target's own labels, and what is
given with the registration. A record lists as its composition whatever the given metadata list
there, and the names of its target's parts when they list nothing. So each live record of a catalog
lists what one of the requests to the catalog listed.
-/

namespace MorphEngine

open Fusion (bind_eq_ok)

/-! ### Layers of fields -/

namespace Fields

/-- An overlay has the fields of its base, each as it is laid over, if it is. -/
theorem get?_overlay (base given : Fields) (name : Text) :
    (overlay base given).get? name = (base.get? name).map fun v => (given.get? name).getD v := by
  induction base with
  | nil => rfl
  | cons f base ih =>
    obtain ⟨key, v⟩ := f
    simp only [get?, overlay] at ih ⊢
    rw [List.map_cons, List.lookup_cons, List.lookup_cons]
    cases same : name == key with
    | true =>
      rw [beq_iff_eq] at same
      subst same
      rfl
    | false => exact ih

end Fields

namespace Schema

variable {α : Type} (S : Schema α)

/-- What the first of the entries that stand for a field holds. -/
def entryFor (name : Text) (es : List (Value × Value)) : Option Value :=
  (es.find? fun e => e.1.text?.map S.fieldOf = some name).map (·.2)

theorem get?_go {done fs : Fields} {es : List (Value × Value)}
    (normal : normalize.go S done es = .ok fs) (name : Text) :
    fs.get? name = (done.get? name).or (S.entryFor name es) := by
  induction es generalizing done with
  | nil =>
    cases normal
    exact Option.or_none.symm
  | cons e es ih =>
    obtain ⟨key, v⟩ := e
    rw [normalize.go] at normal
    cases reads : key.text?.map S.fieldOf with
    | none =>
      rw [reads] at normal
      obtain ⟨_, _, refused⟩ := bind_eq_ok normal
      cases refused
    | some field =>
      simp only [reads] at normal
      split at normal
      · split at normal
        · cases normal
        · have appended : (done ++ [(field, v)]).get? name =
              (done.get? name).or (Fields.get? [(field, v)] name) := List.lookup_append
          rw [ih normal, appended, Option.or_assoc, entryFor, entryFor, List.find?_cons, reads]
          by_cases same : field = name
          · subst same
            simp [Fields.get?]
          · have other : (name == field) = false := beq_eq_false_iff_ne.mpr (Ne.symm same)
            simp [Fields.get?, List.lookup_cons, same, other]
      · obtain ⟨_, _, refused⟩ := bind_eq_ok normal
        cases refused

/-- Entries that can be read as fields give each field what the first entry for it holds. -/
theorem get?_normalize {fs : Fields} {es : List (Value × Value)} (normal : S.normalize es = .ok fs)
    (name : Text) : fs.get? name = S.entryFor name es := by
  rw [get?_go S normal]
  rfl

end Schema

/-! ### Labels -/

namespace Labels

/-- What entries of a mapping list as a composition. -/
def listing? (es : List (Value × Value)) : Option (List Value) :=
  (recordSchema.entryFor "composition" es).map fun v => v.iterate?.getD []

/-- What metadata list as the composition of a record. Labels that list nothing leave it open, as
labels of a pipeline do. -/
def listedIn? (metadata : Value) : Option (List Value) :=
  match ofValue? metadata with
  | some l => l.composition.filter (!·.isEmpty)
  | none => listing? (metadata.entries?.getD [])

theorem iterate?_of_readComposition {v : Value} {xs : List Value}
    (reads : readComposition v = .ok xs) : v.iterate? = some xs := by
  unfold readComposition at reads
  split at reads
  · obtain ⟨_, _, refused⟩ := bind_eq_ok reads
    cases refused
  · unfold Value.iterate at reads
    split at reads
    · next members =>
      cases reads
      exact members
    · split at reads <;> cases reads

theorem composition_of_read {fs : Fields} {l : Labels} (made : read fs = .ok l) :
    (fs.get? "composition").mapM readComposition = .ok l.composition := by
  obtain ⟨description, _, made⟩ := bind_eq_ok made
  obtain ⟨category, _, made⟩ := bind_eq_ok made
  obtain ⟨inputType, _, made⟩ := bind_eq_ok made
  obtain ⟨outputType, _, made⟩ := bind_eq_ok made
  obtain ⟨tags, _, made⟩ := bind_eq_ok made
  cases given : fs.get? "composition" with
  | none =>
    rw [given] at made
    cases made
    rfl
  | some v =>
    rw [given] at made
    obtain ⟨composition, listed, made⟩ := bind_eq_ok made
    cases made
    rw [Option.mapM_some]
    exact listed

/-- Labels with fields laid over them list what these list, or what they listed before. -/
theorem composition_of_overlay {l l' : Labels} {names : List Value} {given : Fields}
    (lists : l.composition = some names) (made : read (Fields.overlay l.toFields given) = .ok l') :
    l'.composition =
      some (((given.get? "composition").map fun v => v.iterate?.getD []).getD names) := by
  have listed := composition_of_read made
  have own : Fields.get? l.toFields "composition" = some (.tuple names) := by
    rw [toFields, lists]
    rfl
  rw [Fields.get?_overlay, own, Option.map_some, Option.mapM_some] at listed
  cases laid : given.get? "composition" with
  | none =>
    rw [laid] at listed
    exact (Except.ok.inj listed).symm
  | some v =>
    rw [laid, Option.getD_some] at listed
    obtain ⟨xs, reads, listed⟩ := bind_eq_ok listed
    rw [Option.map_some, Option.getD_some, iterate?_of_readComposition reads]
    exact (Except.ok.inj listed).symm

/-- Metadata of no labels are a mapping, or nothing; what these list is laid over the defaults. -/
theorem composition_of_unknown {v : Value} {l : Labels} (unknown : ofValue? v = none)
    (based : recordSchema.base v = .ok l) :
    l.composition = some ((listing? (v.entries?.getD [])).getD []) := by
  have taken : recordSchema.ofValue? v = none := by
    have filtered : recordSchema.ofValue? v = (ofValue? v).filter isRecord := rfl
    rw [filtered, unknown, Option.filter_none]
  unfold Schema.base at based
  rw [taken] at based
  split at based
  · have made : read (Fields.overlay defaultRecord.toFields []) = .ok l := based
    exact composition_of_overlay rfl made
  · next found => cases found
  · split at based
    · next entries =>
      obtain ⟨given, normal, made⟩ := bind_eq_ok based
      have made : read (Fields.overlay defaultRecord.toFields given) = .ok l := made
      rw [composition_of_overlay rfl made, recordSchema.get?_normalize normal, entries]
      rfl
    · obtain ⟨_, _, refused⟩ := bind_eq_ok based
      cases refused

/-- Metadata taken for labels of a record list what they listed before. -/
theorem composition_of_base {v : Value} {l : Labels}
    (based : recordSchema.base (recordSource v) = .ok l) :
    l.composition = some ((listedIn? v).getD []) := by
  unfold recordSource at based
  unfold listedIn?
  cases known : ofValue? v with
  | none =>
    rw [known] at based
    exact composition_of_unknown known based
  | some own =>
    rw [known] at based
    dsimp only at based ⊢
    cases lists : own.composition with
    | none =>
      rw [isRecord, lists] at based
      have made : read (Fields.overlay defaultRecord.toFields own.buildFields) = .ok l := based
      exact composition_of_overlay rfl made
    | some names =>
      have record : own.isRecord = true := by
        rw [isRecord, lists]
        rfl
      rw [if_pos record, base_of_record known record] at based
      cases based
      rw [lists]
      cases names <;> rfl

theorem composition_of_coerceRecord {v : Value} {overrides : List (Value × Value)} {l : Labels}
    (coerced : coerceRecord v overrides = .ok l) :
    l.composition = some ((listing? overrides).getD ((listedIn? v).getD [])) := by
  unfold coerceRecord Schema.coerceCall at coerced
  split at coerced
  · cases coerced
  · obtain ⟨base, based, coerced⟩ := bind_eq_ok coerced
    have lists := composition_of_base based
    split at coerced
    · next none =>
      cases coerced
      rw [List.isEmpty_iff.mp none, lists]
      rfl
    · obtain ⟨given, normal, made⟩ := bind_eq_ok coerced
      rw [composition_of_overlay lists made, recordSchema.get?_normalize normal]
      rfl

/-- Labels given as metadata list what they list. -/
theorem listedIn?_toValue {l : Labels} {names : List Value} (lists : l.composition = some names) :
    (listedIn? l.toValue).getD [] = names := by
  obtain ⟨l', known, same⟩ := exists_ofValue?_toValue l
  rw [listedIn?, known]
  dsimp only
  rw [same, lists]
  cases names <;> rfl

end Labels

/-- The names of what a target is made of: the declared stages of a pipeline, and the steps of a
sequence. -/
def Morph.partNames : Morph → List Value
  | .pipeline _ _ _ declared => declared.map (·.label.given)
  | .composed _ steps _ => steps.map (·.name.given)
  | _ => []

theorem Morph.isText_of_mem_partNames (m : Morph) : ∀ v ∈ m.partNames, v.isText = true := by
  intro v hv
  cases m with
  | pipeline =>
    obtain ⟨s, _, rfl⟩ := List.mem_map.mp hv
    exact s.label.isText_given
  | composed =>
    obtain ⟨m, _, rfl⟩ := List.mem_map.mp hv
    exact m.name.isText_given
  | _ => cases hv

namespace Catalog

theorem composition_of_defaultLabels {m : Morph} {l : Labels} (own : defaultLabels m = .ok l) :
    l.composition = some m.partNames := by
  cases m with
  | pipeline head info stages declared =>
    exact Labels.composition_of_coerceRecord own
  | _ =>
    cases own
    rfl

theorem keywords_eq {es given : List (Value × Value)} (named : keywords es = .ok given) :
    given = es := by
  unfold keywords at named
  split at named
  · cases named
    rfl
  · cases named

/-- Labels that list nothing are completed by the names of the target's parts. -/
theorem composition_of_completed {given l : Labels} {names parts : List Value}
    (lists : given.composition = some names)
    (completed : (if (names.isEmpty && !parts.isEmpty) = true then
        Labels.coerceRecord given.toValue [(.text "composition", .tuple parts)]
      else return given) = .ok l) :
    l.composition = some (if names.isEmpty then parts else names) := by
  cases names with
  | cons name names =>
    cases completed
    exact lists
  | nil =>
    cases parts with
    | nil =>
      cases completed
      exact lists
    | cons part parts => exact Labels.composition_of_coerceRecord completed

/-- A record lists what the metadata given for it list, or else the names of its target's parts. -/
theorem composition_of_recordLabels {m : Morph} {metadata : Value} {l : Labels}
    (made : recordLabels m metadata = .ok l) :
    l.composition = some ((Labels.listedIn? metadata).getD m.partNames) := by
  obtain ⟨own, default, labels⟩ := bind_eq_ok made
  have parts := composition_of_defaultLabels default
  split at labels
  · cases labels
    exact parts
  · next metadata _ _ _ _ known =>
    obtain ⟨given, coerced, completed⟩ := bind_eq_ok labels
    have lists : given.composition = some ((Labels.listedIn? metadata).getD []) :=
      Labels.composition_of_coerceRecord coerced
    simp only [lists, parts, Option.getD_some] at completed
    rw [composition_of_completed lists completed]
    cases listed : Labels.listedIn? metadata with
    | none => rfl
    | some names =>
      have filled : names.isEmpty = false := by
        rw [Labels.listedIn?, known] at listed
        simpa using (Option.filter_eq_some_iff.mp listed).2
      rw [Option.getD_some, filled]
      rfl
  · next metadata _ _ _ unknown =>
    split at labels
    · next es entries =>
      obtain ⟨given, named, labels⟩ := bind_eq_ok labels
      rw [Labels.composition_of_coerceRecord labels, Labels.listedIn?_toValue parts,
        Labels.listedIn?, unknown, entries, keywords_eq named]
      rfl
    · obtain ⟨_, _, refused⟩ := bind_eq_ok labels
      cases refused

/-! ### Runs -/

namespace Request

/-- A request is the registration that a record comes from. -/
def Enters (r : CatalogRecord) : Request → Prop
  | define target metadata _ _ =>
    target.2 = some r.target ∧ recordLabels r.target metadata = .ok r.labels
  | remove _ | clear => False

variable {c c' : Catalog} {r s : CatalogRecord}

theorem mem_drop (hr : r ∈ (c.drop s).records) : r ∈ c.records := (List.mem_filter.mp hr).1

theorem mem_of_entered {m : Morph} {metadata overwrite name : Value}
    (entered : c.entered m metadata overwrite name = .ok (s, c')) (hr : r ∈ c'.records) :
    r ∈ c.records ∨ r.target = m ∧ recordLabels m metadata = .ok r.labels := by
  obtain ⟨labels, made, entered⟩ := bind_eq_ok entered
  -- What is added is added to the catalog itself, or to what is left of it.
  have added {d : Catalog} (left : ∀ x ∈ d.records, x ∈ c.records)
      (adds : d.add name m labels = (s, c')) :
      r ∈ c.records ∨ r.target = m ∧ recordLabels m metadata = .ok r.labels := by
    cases adds
    rcases List.mem_append.mp hr with old | new
    · exact Or.inl (left r old)
    · rw [List.mem_singleton.mp new]
      exact Or.inr ⟨rfl, made⟩
  obtain ⟨old, found, entered⟩ := bind_eq_ok entered
  cases old with
  | none => exact added (fun x hx => hx) (Except.ok.inj entered)
  | some old =>
    obtain ⟨allowed, may, entered⟩ := bind_eq_ok entered
    cases allowed with
    | true => exact added (fun x hx => mem_drop hx) (Except.ok.inj entered)
    | false =>
      obtain ⟨_, _, refused⟩ := bind_eq_ok entered
      cases refused

theorem mem_of_removed {name : Value} {was : Bool} (removed : c.remove name = .ok (was, c'))
    (hr : r ∈ c'.records) : r ∈ c.records := by
  unfold Catalog.remove at removed
  split at removed
  · cases removed
    exact hr
  · obtain ⟨old, _, removed⟩ := bind_eq_ok removed
    cases old with
    | none =>
      cases removed
      exact hr
    | some old =>
      cases removed
      exact mem_drop hr

/-- A record that is there after a request was there before, or comes from the request. -/
theorem mem_run {req : Request} (hr : r ∈ (req.run c).2.records) :
    r ∈ c.records ∨ req.Enters r := by
  cases req with
  | define target metadata overwrite name =>
    rw [run, run_define] at hr
    cases registers : registered target metadata overwrite name c with
    | error f =>
      rw [registers] at hr
      exact Or.inl hr
    | ok added =>
      obtain ⟨s, c'⟩ := added
      rw [registers] at hr
      obtain ⟨v, m | m⟩ := target
      · obtain ⟨_, _, refused⟩ := bind_eq_ok registers
        cases refused
      · obtain ⟨name, _, entered⟩ := bind_eq_ok registers
        refine (mem_of_entered entered hr).imp_right ?_
        rintro ⟨rfl, made⟩
        exact ⟨rfl, made⟩
  | remove name =>
    rw [run] at hr
    cases removes : c.remove name with
    | error f =>
      rw [removes] at hr
      exact Or.inl hr
    | ok removed =>
      obtain ⟨was, c'⟩ := removed
      rw [removes] at hr
      exact Or.inl (mem_of_removed removes hr)
  | clear => cases hr

end Request

theorem mem_foldl {rs : List Request} {c : Catalog} {r : CatalogRecord}
    (hr : r ∈ (rs.foldl (fun c req => (req.run c).2) c).records) :
    r ∈ c.records ∨ ∃ req ∈ rs, req.Enters r := by
  induction rs generalizing c with
  | nil => exact Or.inl hr
  | cons req rs ih =>
    rcases ih hr with before | ⟨later, mem, enters⟩
    · rcases Request.mem_run before with old | enters
      · exact Or.inl old
      · exact Or.inr ⟨req, List.mem_cons_self, enters⟩
    · exact Or.inr ⟨later, List.mem_cons_of_mem req mem, enters⟩

/-- A live record comes from one of the requests. -/
theorem exists_enters {rs : List Request} {r : CatalogRecord} (hr : r ∈ (after rs).records) :
    ∃ req ∈ rs, req.Enters r := by
  rcases mem_foldl hr with none | made
  · cases none
  · exact made

end Catalog

end MorphEngine
