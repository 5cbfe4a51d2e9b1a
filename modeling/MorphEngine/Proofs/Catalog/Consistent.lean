import MorphEngine.Proofs.Catalog.Indexed
import MorphEngine.Proofs.Engine

/-!
# Catalogs whose parts agree

The records of a catalog are told apart by their numbers and by their names, and its indexes reflect
what the records carry. Dropping a record and adding one under a new name keep this up. A
registration is decided before it changes anything, so one that is refused leaves the catalog as it
was.
-/

namespace MorphEngine

/-- Refusing a value is a fault, whatever the result would be. -/
theorem Value.exists_refuse (v : Value) (before after : Text) :
    ∃ f, ∀ α, (v.refuse before after : Except Fault α) = .error f := by
  unfold refuse
  rcases v.shownOrFault with f | shown
  · exact ⟨f, fun α => rfl⟩
  · exact ⟨_, fun α => rfl⟩

namespace Catalog

/-- A record with a number carries a heading. -/
def Carries (headings : Labels → List Name) (records : List CatalogRecord) (t : Text) (n : Nat) :
    Prop :=
  ∃ r ∈ records, (∃ h ∈ headings r.labels, h.text = t) ∧ r.serial = n

/-- Records are told apart by their numbers and by their names, and the indexes reflect what they
carry. -/
structure Consistent (c : Catalog) : Prop where
  fresh : ∀ r ∈ c.records, r.serial < c.nextSerial
  serials : ∀ r ∈ c.records, ∀ s ∈ c.records, r.serial = s.serial → r = s
  named : ∀ r ∈ c.records, r.name.isText = true
  names : ∀ r ∈ c.records, ∀ s ∈ c.records, r.name.text? = s.name.text? → r = s
  categories : c.categories.Reflects (Carries (fun l => [l.category]) c.records)
  tags : c.tags.Reflects (Carries Labels.tags c.records)

variable {c : Catalog} {r : CatalogRecord} {i : Index} {headings : Labels → List Name}

theorem empty_consistent : Consistent .empty where
  fresh := fun r hr => absurd hr List.not_mem_nil
  serials := fun r hr => absurd hr List.not_mem_nil
  named := fun r hr => absurd hr List.not_mem_nil
  names := fun r hr => absurd hr List.not_mem_nil
  categories := Index.reflects_nil.congr fun t n => by simp [Carries, empty]
  tags := Index.reflects_nil.congr fun t n => by simp [Carries, empty]

/-- Unfiling a record from all its headings leaves what the other records carry. -/
theorem reflects_drop {records : List CatalogRecord}
    (apart : ∀ r ∈ records, ∀ s ∈ records, r.serial = s.serial → r = s) (hr : r ∈ records)
    (reflects : i.Reflects (Carries headings records)) :
    Index.Reflects ((headings r.labels).foldl (fun i h => Index.unfile r.serial h i) i)
      (Carries headings (records.filter (·.serial != r.serial))) := by
  refine (reflects.unfileAll r.serial (headings r.labels)).congr fun t n => ?_
  constructor
  · rintro ⟨⟨s, hs, carried, rfl⟩, other⟩
    have differs : s.serial ≠ r.serial := by
      intro same
      have one : s = r := apart s hs r hr same
      rw [one] at carried
      exact other ⟨carried, same⟩
    exact ⟨s, List.mem_filter.mpr ⟨hs, bne_iff_ne.mpr differs⟩, carried, rfl⟩
  · rintro ⟨s, hs, carried, rfl⟩
    obtain ⟨hs, differs⟩ := List.mem_filter.mp hs
    exact ⟨⟨s, hs, carried, rfl⟩, fun same => bne_iff_ne.mp differs same.2⟩

/-- Filing a record under all its headings adds what it carries. -/
theorem reflects_add {records : List CatalogRecord} (r : CatalogRecord)
    (reflects : i.Reflects (Carries headings records)) :
    Index.Reflects ((headings r.labels).foldl (fun i h => Index.file r.serial h i) i)
      (Carries headings (records ++ [r])) := by
  refine (reflects.fileAll r.serial (headings r.labels)).congr fun t n => ?_
  constructor
  · rintro (⟨s, hs, carried⟩ | ⟨carried, rfl⟩)
    · exact ⟨s, List.mem_append_left _ hs, carried⟩
    · exact ⟨r, List.mem_append_right _ List.mem_cons_self, carried, rfl⟩
  · rintro ⟨s, hs, carried, rfl⟩
    rcases List.mem_append.mp hs with hs | hs
    · exact Or.inl ⟨s, hs, carried, rfl⟩
    · cases List.mem_singleton.mp hs
      exact Or.inr ⟨carried, rfl⟩

theorem Consistent.drop (hc : c.Consistent) (hr : r ∈ c.records) : (c.drop r).Consistent where
  fresh s hs := hc.fresh s (List.mem_filter.mp hs).1
  serials s hs t ht := hc.serials s (List.mem_filter.mp hs).1 t (List.mem_filter.mp ht).1
  named s hs := hc.named s (List.mem_filter.mp hs).1
  names s hs t ht := hc.names s (List.mem_filter.mp hs).1 t (List.mem_filter.mp ht).1
  categories := reflects_drop hc.serials hr hc.categories
  tags := reflects_drop hc.serials hr hc.tags

theorem Consistent.add (hc : c.Consistent) {name : Value} (isText : name.isText = true)
    (new : ∀ r ∈ c.records, r.name.text? ≠ name.text?) (target : Morph) (labels : Labels) :
    (c.add name target labels).2.Consistent where
  fresh s hs := by
    have later : (c.add name target labels).2.nextSerial = c.nextSerial + 1 := rfl
    rw [later]
    rcases List.mem_append.mp hs with hs | hs
    · have := hc.fresh s hs
      omega
    · cases List.mem_singleton.mp hs
      exact Nat.lt_succ_self _
  serials s hs t ht same := by
    rcases List.mem_append.mp hs with hs | hs
    · rcases List.mem_append.mp ht with ht | ht
      · exact hc.serials s hs t ht same
      · cases List.mem_singleton.mp ht
        exact absurd same (Nat.ne_of_lt (hc.fresh s hs))
    · cases List.mem_singleton.mp hs
      rcases List.mem_append.mp ht with ht | ht
      · exact absurd same.symm (Nat.ne_of_lt (hc.fresh t ht))
      · exact (List.mem_singleton.mp ht).symm
  named s hs := by
    rcases List.mem_append.mp hs with hs | hs
    · exact hc.named s hs
    · cases List.mem_singleton.mp hs
      exact isText
  names s hs t ht same := by
    rcases List.mem_append.mp hs with hs | hs
    · rcases List.mem_append.mp ht with ht | ht
      · exact hc.names s hs t ht same
      · cases List.mem_singleton.mp ht
        exact absurd same (new s hs)
    · cases List.mem_singleton.mp hs
      rcases List.mem_append.mp ht with ht | ht
      · exact absurd same.symm (new t ht)
      · exact (List.mem_singleton.mp ht).symm
  categories := reflects_add ⟨c.nextSerial, name, target, labels⟩ hc.categories
  tags := reflects_add ⟨c.nextSerial, name, target, labels⟩ hc.tags

/-! ### Finding a record -/

theorem Consistent.same_name (hc : c.Consistent) {name : Value} (isText : name.isText = true)
    (hr : r ∈ c.records) : r.name.same name = decide (r.name.text? = name.text?) := by
  obtain ⟨t, ht⟩ := Option.isSome_iff_exists.mp isText
  obtain ⟨s, hs⟩ := Option.isSome_iff_exists.mp (hc.named r hr)
  rw [Value.same_of_texts hs ht, hs, ht]
  simp only [Option.some.injEq]

/-- Looking for a text finds the one record under it, or there is none. -/
theorem Consistent.get_cases (hc : c.Consistent) {name : Value} (isText : name.isText = true) :
    (∃ r ∈ c.records, r.name.text? = name.text? ∧ c.get name = .ok (some r)) ∨
      (∀ r ∈ c.records, r.name.text? ≠ name.text?) ∧ c.get name = .ok none := by
  obtain ⟨t, ht⟩ := Option.isSome_iff_exists.mp isText
  have looked : c.get name = .ok (c.find? name) := by
    rw [get, (Value.checkKeyAmong_of_text ht _).2]
    rfl
  cases found : c.find? name with
  | some r =>
    have hr : r ∈ c.records := List.mem_of_find?_eq_some found
    have same : r.name.same name = true :=
      List.find?_some (p := fun r : CatalogRecord => r.name.same name) found
    rw [hc.same_name isText hr, decide_eq_true_eq] at same
    exact Or.inl ⟨r, hr, same, by rw [looked, found]⟩
  | none =>
    refine Or.inr ⟨fun r hr same => ?_, by rw [looked, found]⟩
    have differs : r.name.same name ≠ true := List.find?_eq_none.mp found r hr
    rw [hc.same_name isText hr] at differs
    exact differs (decide_eq_true same)

/-- Dropping a record drops what is under its name. -/
theorem Consistent.records_drop (hc : c.Consistent) (hr : r ∈ c.records) :
    (c.drop r).records = c.records.filter fun s => s.name.text? ≠ r.name.text? := by
  refine List.filter_congr fun s hs => ?_
  have both : s.serial = r.serial ↔ s.name.text? = r.name.text? := by
    constructor
    · intro same
      rw [hc.serials s hs r hr same]
    · intro same
      rw [hc.names s hs r hr same]
  rw [Bool.eq_iff_iff, bne_iff_ne, decide_eq_true_eq, Ne, both]

/-! ### Registration -/

/-- What registering a target under a name comes to: the new record and the catalog with it. -/
def entered (m : Morph) (metadata overwrite name : Value) (c : Catalog) :
    Except Fault (CatalogRecord × Catalog) := do
  let labels ← recordLabels m metadata
  match ← c.get name with
  | some old =>
    unless ← overwrite.truth do
      throw (.configuration ("'" ++ (← name.insertedOrFault) ++
        "' is already registered; pass overwrite=True to replace it"))
    return (c.drop old).add name m labels
  | none => return c.add name m labels

/-- What a registration comes to. -/
def registered (target : Value × Option Morph) (metadata overwrite name : Value) (c : Catalog) :
    Except Fault (CatalogRecord × Catalog) := do
  let some m := target.2 | target.1.refuse "Only morphs and pipelines can be registered, got " ""
  c.entered m metadata overwrite (← name.orElse m.name.given)

theorem run_ofExcept {α : Type} (x : Except Fault α) (c : Catalog) :
    (ofExcept x).run c = (x, c) := rfl

theorem run_current (c : Catalog) : current.run c = (.ok c, c) := rfl

/-- A registration changes the catalog only once everything that can fail is done. -/
theorem run_define (target : Value × Option Morph) (metadata overwrite name : Value)
    (c : Catalog) :
    (define target metadata overwrite name).run c =
      match registered target metadata overwrite name c with
      | .ok (r, c') => (.ok r, c')
      | .error f => (.error f, c) := by
  obtain ⟨v, m | m⟩ := target
  · obtain ⟨f, refused⟩ :=
      v.exists_refuse "Only morphs and pipelines can be registered, got " ""
    simp only [define, registered, run_ofExcept, refused]
  · simp only [define, registered, entered, run_bind, run_ofExcept, run_current]
    simp only [bind, Except.bind]
    rcases name.orElse m.name.given with f | name'
    · rfl
    · dsimp only
      rcases recordLabels m metadata with f | labels
      · rfl
      · dsimp only
        rcases c.get name' with f | (_ | old)
        · rfl
        · rfl
        · dsimp only
          rcases overwrite.truth with f | allowed
          · rfl
          · cases allowed with
            | true => rfl
            | false =>
              dsimp only
              rcases name'.insertedOrFault with f | shown
              · rfl
              · rfl

end Catalog

end MorphEngine
