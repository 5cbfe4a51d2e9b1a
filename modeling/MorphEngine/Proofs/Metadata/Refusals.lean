import MorphEngine.Proofs.Metadata.Merging

/-!
# How metadata are refused

What cannot be used as metadata is refused as badly configured, with a message that shows it. There
are a few values that get in the way of that: some cannot be written into a message, some look as if
they could be gone through and cannot, and some cannot be members of a set. A fault of any other
kind than the configuration comes from such a value among what was given.
-/

namespace MorphEngine

open Fusion (bind_eq_ok)

/-- A value gets in the way of the check of a field: it cannot be shown or gone through, or its
members cannot be put into a set, or the set of them cannot be shown. -/
inductive Value.Thwarts (v : Value) (f : Fault) : Prop
  | unwritten (fails : v.shownOrFault = .error f)
  | unopened (fails : v.iterate = .error f)
  | unkeyed {xs : List Value} (members : v.iterate = .ok xs) (fails : Value.setOf xs = .error f)
  | unshown {xs tags : List Value} (members : v.iterate = .ok xs)
    (joined : Value.setOf xs = .ok tags) (fails : (Value.frozenSet tags).shownOrFault = .error f)

namespace Value

variable {v : Value} {f : Fault}

theorem of_refuse {α : Type} {before after : Text}
    (fails : (v.refuse before after : Except Fault α) = .error f) :
    f.kind = .configuration ∨ v.shownOrFault = .error f := by
  unfold refuse at fails
  cases shown : v.shownOrFault with
  | error g =>
    rw [shown] at fails
    cases fails
    exact Or.inr rfl
  | ok t =>
    rw [shown] at fails
    cases fails
    exact Or.inl rfl

/-- A value that cannot be written nests too deep, or holds a number of too many digits. -/
theorem of_written {text : Value → Option Text} (fails : v.written text = .error f) :
    f.kind = .value ∨ f.kind = .recursion := by
  unfold written at fails
  split at fails
  · cases fails
    exact Or.inr rfl
  · split at fails
    · cases fails
    · cases fails
      exact Or.inl rfl

theorem of_iterate (fails : v.iterate = .error f) : f.kind = .type := by
  unfold iterate at fails
  split at fails
  · cases fails
  · split at fails
    · cases fails
      rfl
    · cases fails
      rfl

theorem of_join {members : List Value} (fails : join members v = .error f) :
    f.kind = .type ∨ f.kind = .recursion := by
  unfold join checkKeyAmong at fails
  rcases bind_eq_error fails with checked | ⟨_, _, impossible⟩
  · rcases bind_eq_error checked with hashed | ⟨_, _, met⟩
    · unfold checkKey at hashed
      split at hashed
      · cases hashed
        exact Or.inl rfl
      · cases hashed
    · unfold checkMeeting at met
      split at met
      · cases met
        exact Or.inr rfl
      · cases met
  · cases impossible

theorem of_foldlM_join {members xs : List Value} (fails : xs.foldlM join members = .error f) :
    f.kind = .type ∨ f.kind = .recursion := by
  induction xs generalizing members with
  | nil => cases fails
  | cons x xs ih =>
    rw [List.foldlM_cons] at fails
    rcases bind_eq_error fails with first | ⟨more, _, rest⟩
    · exact of_join first
    · exact ih rest

/-- Values get in the way with faults of three kinds. -/
theorem Thwarts.kind (thwarts : v.Thwarts f) : f.kind ∈ [.type, .value, .recursion] := by
  have unwritten {v : Value} (fails : v.shownOrFault = .error f) :
      f.kind ∈ [.type, .value, .recursion] := by
    rcases of_written fails with kind | kind <;> simp [kind]
  cases thwarts with
  | unwritten fails => exact unwritten fails
  | unopened fails => simp [of_iterate fails]
  | unkeyed _ fails => rcases of_foldlM_join fails with kind | kind <;> simp [kind]
  | unshown _ _ fails => exact unwritten fails

end Value

/-! ### Refused fields -/

theorem of_map_eq_error {α β : Type} {g : α → β} {m : Except Fault α} {f : Fault}
    (fails : m.map g = .error f) : m = .error f := by
  cases m with
  | error f' =>
    cases fails
    rfl
  | ok a => cases fails

namespace ContextProjection

variable {v : Value} {xs : List Value} {f : Fault}

/-- Names make up a projection, or are refused as badly configured. -/
theorem only_fails (fails : only xs = .error f) : f.kind = .configuration := by
  have named : ofParts.areNames (.tuple xs) = .ok (!xs.isEmpty && xs.all Value.isText) := by
    cases xs <;> rfl
  unfold only ofParts at fails
  rw [named] at fails
  cases names : !xs.isEmpty && xs.all Value.isText with
  | false =>
    rw [names] at fails
    cases fails
    rfl
  | true =>
    rw [names] at fails
    cases fails

theorem custom_eq (callable : v.isCallable = true) :
    custom v = .ok ⟨.custom, .tuple [], v⟩ := by
  unfold custom ofParts
  rw [callable]
  rfl

theorem of_coerce (fails : coerce v = .error f) : f.kind = .configuration ∨ v.Thwarts f := by
  unfold coerce at fails
  split at fails
  · cases fails
  · cases fails
  · split at fails
    · exact Or.inl (only_fails fails)
    split at fails
    · next callable =>
      rw [custom_eq callable] at fails
      cases fails
    split at fails
    · rcases bind_eq_error fails with unopened | ⟨xs, _, unnamed⟩
      · exact Or.inr (.unopened unopened)
      · exact Or.inl (only_fails unnamed)
    · exact (Value.of_refuse fails).imp_right .unwritten

end ContextProjection

namespace MorphMetadata

variable {name : Text} {v : Value} {f : Fault}

theorem of_rule (fails : rule name v = .error f) : f.kind = .configuration ∨ v.Thwarts f := by
  unfold rule at fails
  split at fails
  · have fails := of_map_eq_error fails
    unfold readCost at fails
    split at fails
    · split at fails
      · exact (Value.of_refuse fails).imp_right .unwritten
      · cases fails
    · exact (Value.of_refuse fails).imp_right .unwritten
  split at fails
  · have fails := of_map_eq_error fails
    unfold readTtl at fails
    split at fails
    · cases fails
    · split at fails
      · split at fails
        · exact (Value.of_refuse fails).imp_right .unwritten
        · cases fails
      · exact (Value.of_refuse fails).imp_right .unwritten
  split at fails
  · have fails := of_map_eq_error fails
    unfold readAsync at fails
    split at fails
    · cases fails
    · cases fails
    · cases fails
      exact Or.inl rfl
  split at fails
  · exact ContextProjection.of_coerce (of_map_eq_error fails)
  · have fails := of_map_eq_error fails
    have given : Fields.get [(name, v)] name = v := by simp [Fields.get, Fields.get?]
    unfold readFlag at fails
    rw [given] at fails
    split at fails
    · cases fails
    · exact (Value.of_refuse fails).imp_right .unwritten

end MorphMetadata

namespace Labels

variable {name : Text} {v : Value} {f : Fault}

theorem of_readTags (fails : readTags v = .error f) : f.kind = .configuration ∨ v.Thwarts f := by
  unfold readTags at fails
  split at fails
  · cases fails
  · split at fails
    · exact (Value.of_refuse fails).imp_right .unwritten
    · rcases bind_eq_error fails with unopened | ⟨xs, members, fails⟩
      · exact Or.inr (.unopened unopened)
      rcases bind_eq_error fails with unkeyed | ⟨tags, joined, fails⟩
      · exact Or.inr (.unkeyed members unkeyed)
      split at fails
      · cases fails
      · exact (Value.of_refuse fails).imp_right (.unshown members joined)

theorem of_readComposition (fails : readComposition v = .error f) :
    f.kind = .configuration ∨ v.Thwarts f := by
  unfold readComposition at fails
  split at fails
  · exact (Value.of_refuse fails).imp_right .unwritten
  · exact Or.inr (.unopened fails)

theorem of_rule (fails : rule name v = .error f) : f.kind = .configuration ∨ v.Thwarts f := by
  unfold rule at fails
  split at fails
  · exact of_readTags (of_map_eq_error fails)
  split at fails
  · exact of_readComposition (of_map_eq_error fails)
  · have fails := of_map_eq_error fails
    have given : Fields.get [(name, v)] name = v := by simp [Fields.get, Fields.get?]
    unfold readLabel at fails
    rw [given] at fails
    dsimp only at fails
    split at fails
    · cases fails
    · exact (Value.of_refuse fails).imp_right .unwritten

end Labels

/-! ### Refused metadata -/

namespace Schema

variable {α : Type} {S : Schema α} {v : Value} {o es : List (Value × Value)} {f : Fault}

namespace Fieldwise

variable (F : S.Fieldwise)

/-- What a fault of coercion comes from, unless the configuration is to blame: a value of no use
that cannot be shown, a foreign key that cannot be written, or what is given for some field. -/
inductive Culprit (v : Value) (o : List (Value × Value)) (f : Fault) : Prop
  | value (plain : v.entries? = none) (unwritten : v.shownOrFault = .error f)
  | key {es : List (Value × Value)} (given : es = v.entries?.getD [] ∨ es = o)
    (foreign : S.CannotName es f)
  | item {es : List (Value × Value)} {name : Text} {w : Value}
    (given : es = v.entries?.getD [] ∨ es = o) (holds : S.entryFor name es = some w)
    (fails : F.rule name w = .error f)

/-- Entries over fields that settle are refused for what they give themselves. -/
theorem of_laid {base : Fields} (own : ∀ name, name ∈ F.order base.names ↔ name ∈ base.names)
    (settles : ∀ name ∈ base.names, ∃ w, F.rule name (base.get name) = .ok w)
    (fails : S.laid base es = .error f) :
    f.kind = .configuration ∨ S.CannotName es f ∨
      ∃ name w, S.entryFor name es = some w ∧ F.rule name w = .error f := by
  by_cases clean : S.IsClean es
  · rw [laid_of_isClean base clean] at fails
    obtain ⟨name, listed, ruled⟩ := F.exists_of_read_error fails
    rw [Fields.names_overlay, own] at listed
    rw [Fields.get_overlay base _ listed, entryFor_eq clean] at ruled
    cases given : S.entryFor name es with
    | some w =>
      rw [given] at ruled
      exact Or.inr (Or.inr ⟨name, w, given, ruled⟩)
    | none =>
      obtain ⟨w, fine⟩ := settles name listed
      rw [given, Option.getD_none, fine] at ruled
      cases ruled
  · obtain ⟨f', fails', blamed⟩ := laid_of_not_isClean base clean
    rw [fails] at fails'
    cases fails'
    exact blamed.imp_right Or.inl

theorem of_base (fails : S.base v = .error f) : f.kind = .configuration ∨ F.Culprit v o f := by
  have settles (name : Text) (has : name ∈ S.defaults.names) := F.default_settles has
  unfold base at fails
  split at fails
  · obtain ⟨m, made⟩ := F.exists_read fun name listed =>
      settles name ((F.order_defaults name).mp listed)
    rw [made] at fails
    cases fails
  · cases fails
  · split at fails
    · next es entries =>
      rcases F.of_laid F.order_defaults settles fails with
        configured | foreign | ⟨name, w, holds, ruled⟩
      · exact Or.inl configured
      · exact Or.inr (.key (Or.inl (by rw [entries]; rfl)) foreign)
      · exact Or.inr (.item (Or.inl (by rw [entries]; rfl)) holds ruled)
    · next plain => exact (Value.of_refuse fails).imp_right (.value plain)

theorem of_overlaid {own : α} (based : S.base v = .ok own) (fails : F.overlaid o own = .error f) :
    f.kind = .configuration ∨ S.CannotName o f ∨
      ∃ name w, S.entryFor name o = some w ∧ F.rule name w = .error f := by
  have settles (name : Text) (has : name ∈ (F.fields own).names) :
      ∃ w, F.rule name ((F.fields own).get name) = .ok w :=
    ⟨_, F.stable (F.rule_of_base based has)⟩
  unfold overlaid at fails
  split at fails
  · cases fails
  · exact F.of_laid (F.order_fields own) settles fails

/-- What is given is to blame for every fault of coercion. -/
theorem of_coerce (fails : S.coerce v o = .error f) :
    f.kind = .configuration ∨ F.Culprit v o f := by
  rw [F.coerce_eq] at fails
  rcases bind_eq_error fails with unbased | ⟨own, based, unlaid⟩
  · exact F.of_base unbased
  · rcases F.of_overlaid based unlaid with configured | foreign | ⟨name, w, holds, ruled⟩
    · exact Or.inl configured
    · exact Or.inr (.key (Or.inr rfl) foreign)
    · exact Or.inr (.item (Or.inr rfl) holds ruled)

variable {name : Text} {key w : Value}

/-- What a field does not take is refused with the fault of the field. -/
theorem coerce_item_fails (has : name ∈ S.defaults.names) (own : S.fieldOf name = name)
    (fails : F.rule name w = .error f) : S.coerce (.table [(.text name, w)]) [] = .error f := by
  have hasField : S.hasField name = true := by
    obtain ⟨g, hg, same⟩ := List.mem_map.mp has
    exact List.any_eq_true.mpr ⟨g, hg, decide_eq_true same⟩
  have reads : S.fieldFor? (.text name) = some name := by
    rw [fieldFor?, Value.text?, Option.map_some, own, Option.filter_some, if_pos hasField]
  have fields : S.fieldsOf [(.text name, w)] = [(name, w)] := by
    rw [fieldsOf, List.filterMap_cons, reads]
    rfl
  have clean : S.IsClean [(.text name, w)] := by
    refine ⟨fun e he => ?_, ?_⟩
    · rw [List.mem_singleton.mp he, reads]
      rfl
    · rw [fields]
      exact List.nodup_singleton _
  rw [F.coerce_eq, F.base_table, laid_of_isClean _ clean, fields]
  have get (other : Text) (listed : other ∈ S.defaults.names) :=
    Fields.get_overlay S.defaults [(name, w)] listed
  cases made : S.read (S.defaults.overlay [(name, w)]) with
  | ok m =>
    have listed : name ∈ (F.fields m).names := by
      rw [F.names_of_read made, Fields.names_overlay]
      exact (F.order_defaults name).mpr has
    have ruled := F.rule_of_read made listed
    rw [get name has, Fields.get?, List.lookup_cons_self, Option.getD_some, fails] at ruled
    cases ruled
  | error g =>
    obtain ⟨other, listed, ruled⟩ := F.exists_of_read_error made
    rw [Fields.names_overlay, F.order_defaults] at listed
    rw [get other listed, Fields.get?] at ruled
    by_cases same : other = name
    · rw [same, List.lookup_cons_self, Option.getD_some, fails] at ruled
      cases ruled
      rfl
    · obtain ⟨u, fine⟩ := F.default_settles listed
      rw [List.lookup_cons, beq_eq_false_iff_ne.mpr same, List.lookup_nil, Option.getD_none,
        fine] at ruled
      cases ruled

/-- A foreign key that cannot be written is refused with the fault of writing it. -/
theorem coerce_key_fails (F : S.Fieldwise) (foreign : S.fieldFor? key = none)
    (unwritten : key.insertedOrFault = .error f) : S.coerce (.table [(key, w)]) [] = .error f := by
  have unknown : normalize.unknown S key = .error f := by
    rw [normalize.unknown, unwritten]
    rfl
  rw [F.coerce_eq, F.base_table, laid, normalize, go_cons, foreign, unknown]
  rfl

end Fieldwise

end Schema

end MorphEngine
