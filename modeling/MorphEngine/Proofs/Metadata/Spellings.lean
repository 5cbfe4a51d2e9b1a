import MorphEngine.Proofs.Metadata.Fields

/-!
# Spellings of fields

A key stands for a field when it is the name of the field or an alias. Entries can be read when each
key stands for a field and no two stand for the same one; neither the order of the entries nor the
spelling of their keys matters. Otherwise they are refused, which only a foreign key that cannot be
written into the message makes fail in another way.
-/

namespace MorphEngine

open Fusion (bind_eq_ok)

namespace Fields

variable {fs gs : Fields} {name : Text}

theorem get?_eq_some_iff (distinct : fs.names.Nodup) {v : Value} :
    fs.get? name = some v ↔ (name, v) ∈ fs := by
  induction fs with
  | nil => simp [get?]
  | cons f fs ih =>
    obtain ⟨key, w⟩ := f
    rw [names, List.map_cons, List.nodup_cons] at distinct
    have rest := ih distinct.2
    rw [get?] at rest ⊢
    rw [List.lookup_cons, List.mem_cons, Prod.mk.injEq]
    by_cases same : name = key
    · subst same
      have only : (name, v) ∉ fs := fun there => distinct.1 (List.mem_map.mpr ⟨_, there, rfl⟩)
      simp [only, eq_comm]
    · simp [same, beq_eq_false_iff_ne.mpr same, rest]

theorem get?_perm (distinct : fs.names.Nodup) (perm : fs.Perm gs) : fs.get? name = gs.get? name := by
  have distinct' : gs.names.Nodup := (perm.map _).nodup_iff.mp distinct
  refine Option.ext fun v => ?_
  rw [get?_eq_some_iff distinct, get?_eq_some_iff distinct', perm.mem_iff]

end Fields

namespace Schema

variable {α : Type} (S : Schema α)

/-- The field that a key stands for, if it stands for one. -/
def fieldFor? (key : Value) : Option Text := (key.text?.map S.fieldOf).filter S.hasField

/-- What the entries give to fields, foreign keys left out. -/
def fieldsOf (es : List (Value × Value)) : Fields :=
  es.filterMap fun e => (S.fieldFor? e.1).map fun name => (name, e.2)

/-- Every key stands for a field, and no two for the same. -/
structure IsClean (es : List (Value × Value)) : Prop where
  known : ∀ e ∈ es, (S.fieldFor? e.1).isSome = true
  distinct : (S.fieldsOf es).names.Nodup

/-- Entries that say the same about the same fields, in any order and under any spelling. -/
def Respells (es es' : List (Value × Value)) : Prop :=
  (es.map fun e => (S.fieldFor? e.1, e.2)).Perm (es'.map fun e => (S.fieldFor? e.1, e.2))

/-- Some key is foreign to the schema, and the fault is that of writing it into a message. -/
def CannotName (es : List (Value × Value)) (f : Fault) : Prop :=
  ∃ e ∈ es, S.fieldFor? e.1 = none ∧ e.1.insertedOrFault = .error f

variable {S} {es es' : List (Value × Value)} {done : Fields}

/-! ### Respelling -/

theorem Respells.refl (es : List (Value × Value)) : S.Respells es es := List.Perm.refl _

theorem Respells.fieldsOf (respelt : S.Respells es es') :
    (S.fieldsOf es).Perm (S.fieldsOf es') := by
  have perm := List.Perm.filterMap (fun r => r.1.map fun name : Text => (name, r.2)) respelt
  rw [List.filterMap_map, List.filterMap_map] at perm
  exact perm

theorem Respells.isClean (respelt : S.Respells es es') (clean : S.IsClean es) : S.IsClean es' := by
  refine ⟨fun e he => ?_, (respelt.fieldsOf.map _).nodup_iff.mp clean.distinct⟩
  obtain ⟨e', he', same⟩ := List.mem_map.mp (respelt.mem_iff.mpr (List.mem_map_of_mem he))
  rw [← (Prod.mk.inj same).1]
  exact clean.known e' he'

theorem Respells.isClean_iff (respelt : S.Respells es es') : S.IsClean es ↔ S.IsClean es' :=
  ⟨respelt.isClean, Respells.isClean (List.Perm.symm respelt)⟩

/-! ### Reading entries -/

/-- A key that is foreign to the schema is refused. -/
theorem unknown_fails (key : Value) :
    ∃ f, normalize.unknown S key = .error f ∧
      (f.kind = .configuration ∨ key.insertedOrFault = .error f) := by
  unfold normalize.unknown
  cases written : key.insertedOrFault with
  | error f => exact ⟨f, rfl, Or.inr rfl⟩
  | ok t => exact ⟨_, rfl, Or.inl rfl⟩

theorem go_cons (key v : Value) :
    normalize.go S done ((key, v) :: es) =
      match S.fieldFor? key with
      | none => normalize.unknown S key
      | some name =>
        if name ∈ done.names then
          .error (.configuration (S.name ++ " key '" ++ name ++ "' given twice"))
        else normalize.go S (done ++ [(name, v)]) es := by
  have taken (name : Text) : done.any (·.1 = name) = decide (name ∈ done.names) := by
    rw [Bool.eq_iff_iff, decide_eq_true_iff]
    simp [Fields.names]
  rw [normalize.go, fieldFor?]
  cases key.text?.map S.fieldOf with
  | none => rfl
  | some name =>
    dsimp only
    rw [Option.filter_some, taken]
    by_cases has : S.hasField name = true <;> simp [has]

/-- Reading goes on behind what is read already. It succeeds just when all keys that are left stand
for fields which are not there yet. -/
theorem go_cases (done : Fields) (es : List (Value × Value)) (fresh : done.names.Nodup) :
    (normalize.go S done es = .ok (done ++ S.fieldsOf es) ∧
      (∀ e ∈ es, (S.fieldFor? e.1).isSome = true) ∧ (done ++ S.fieldsOf es).names.Nodup) ∨
    ((∃ f, normalize.go S done es = .error f ∧
        (f.kind = .configuration ∨ S.CannotName es f)) ∧
      ¬((∀ e ∈ es, (S.fieldFor? e.1).isSome = true) ∧ (done ++ S.fieldsOf es).names.Nodup)) := by
  induction es generalizing done with
  | nil =>
    left
    rw [fieldsOf, List.filterMap_nil, List.append_nil]
    exact ⟨rfl, nofun, fresh⟩
  | cons e es ih =>
    obtain ⟨key, v⟩ := e
    rw [go_cons, List.forall_mem_cons]
    cases reads : S.fieldFor? key with
    | none =>
      right
      obtain ⟨f, fails, blamed⟩ := S.unknown_fails key
      refine ⟨⟨f, fails, blamed.imp_right fun unwritten => ?_⟩, fun clean => nomatch clean.1.1⟩
      exact ⟨(key, v), List.mem_cons_self, reads, unwritten⟩
    | some name =>
      have fields : S.fieldsOf ((key, v) :: es) = (name, v) :: S.fieldsOf es := by
        rw [fieldsOf, List.filterMap_cons, reads]
        rfl
      have behind : done ++ S.fieldsOf ((key, v) :: es) =
          done ++ [(name, v)] ++ S.fieldsOf es := by
        rw [fields, List.append_assoc, List.singleton_append]
      rw [behind]
      dsimp only
      by_cases taken : name ∈ done.names
      · right
        rw [if_pos taken]
        refine ⟨⟨_, rfl, Or.inl rfl⟩, fun clean => ?_⟩
        have distinct := clean.2
        rw [List.append_assoc, Fields.names, List.map_append] at distinct
        exact List.disjoint_of_nodup_append distinct taken List.mem_cons_self
      · rw [if_neg taken]
        have fresh' : Fields.names (done ++ [(name, v)]) |>.Nodup := by
          rw [Fields.names, List.map_append]
          exact fresh.append (List.nodup_singleton _)
            (List.disjoint_singleton.mpr taken)
        rcases ih _ fresh' with ⟨made, known, distinct⟩ | ⟨⟨f, fails, blamed⟩, unclean⟩
        · exact Or.inl ⟨made, ⟨rfl, known⟩, distinct⟩
        · refine Or.inr ⟨⟨f, fails, blamed.imp_right ?_⟩, fun clean => ?_⟩
          · rintro ⟨e, he, foreign⟩
            exact ⟨e, List.mem_cons_of_mem _ he, foreign⟩
          · exact unclean ⟨clean.1.2, clean.2⟩

/-- Clean entries are read as the fields that they give. -/
theorem normalize_of_isClean (clean : S.IsClean es) : S.normalize es = .ok (S.fieldsOf es) := by
  rcases S.go_cases [] es List.nodup_nil with ⟨made, _⟩ | ⟨_, unclean⟩
  · exact made
  · exact absurd ⟨clean.known, clean.distinct⟩ unclean

/-- Entries that are not clean are refused, unless a foreign key cannot be written. -/
theorem normalize_of_not_isClean (unclean : ¬S.IsClean es) :
    ∃ f, S.normalize es = .error f ∧ (f.kind = .configuration ∨ S.CannotName es f) := by
  rcases S.go_cases [] es List.nodup_nil with ⟨_, known, distinct⟩ | ⟨fails, _⟩
  · exact absurd ⟨known, distinct⟩ unclean
  · exact fails

theorem isClean_of_normalize {fs : Fields} (normal : S.normalize es = .ok fs) :
    S.IsClean es ∧ fs = S.fieldsOf es := by
  by_cases clean : S.IsClean es
  · rw [normalize_of_isClean clean] at normal
    exact ⟨clean, (Except.ok.inj normal).symm⟩
  · obtain ⟨f, fails, _⟩ := normalize_of_not_isClean clean
    rw [fails] at normal
    cases normal

theorem entryFor_eq (clean : S.IsClean es) (name : Text) :
    (S.fieldsOf es).get? name = S.entryFor name es :=
  S.get?_normalize (normalize_of_isClean clean) name

/-- Fields under their own names give what they hold. -/
theorem entryFor_entries {fs : Fields} (own : ∀ f ∈ fs, S.fieldOf f.1 = f.1) (name : Text) :
    S.entryFor name fs.entries = fs.get? name := by
  induction fs with
  | nil => rfl
  | cons f fs ih =>
    obtain ⟨key, v⟩ := f
    rw [List.forall_mem_cons] at own
    have rest := ih own.2
    rw [entryFor, Fields.entries, Fields.get?] at rest ⊢
    rw [List.map_cons, List.find?_cons, List.lookup_cons]
    dsimp only at own ⊢
    rw [Value.text?, Option.map_some, own.1]
    by_cases same : key = name
    · simp [same]
    · have other : (name == key) = false := beq_eq_false_iff_ne.mpr (Ne.symm same)
      have other' : decide (some key = some name) = false :=
        decide_eq_false fun equal => same (Option.some.inj equal)
      rw [other, other']
      exact rest

end Schema

end MorphEngine
