import MorphEngine.Proofs.Catalog.Listed

/-!
# Metadata field by field

Every field of metadata has a rule of its own, which makes what the field holds out of what is given
for it. Metadata of all kinds are read by these rules, one field after the other. What a rule has
made it makes again out of that, so it does no harm that fields of metadata are read a second time
when others are laid over them.
-/

namespace MorphEngine

open Fusion (bind_eq_ok)

theorem of_map_eq_ok {α β : Type} {g : α → β} {m : Except Fault α} {b : β}
    (mapped : m.map g = .ok b) : ∃ a, m = .ok a ∧ g a = b := by
  cases m with
  | error f => cases mapped
  | ok a => exact ⟨a, rfl, Except.ok.inj mapped⟩

theorem eq_ok_of_toOption {α : Type} {m : Except Fault α} {a : α} (some : m.toOption = some a) :
    m = .ok a := by
  cases m with
  | error f => cases some
  | ok b =>
    cases some
    rfl

theorem toOption_bind {α β : Type} {m m' : Except Fault α} {k k' : α → Except Fault β}
    (same : m.toOption = m'.toOption) (same' : ∀ a, (k a).toOption = (k' a).toOption) :
    (m >>= k).toOption = (m' >>= k').toOption := by
  cases m with
  | error f =>
    cases m' with
    | error f' => rfl
    | ok a => cases same
  | ok a =>
    rw [eq_ok_of_toOption same.symm]
    exact same' a

/-- How the field of a name makes what it holds out of what is given for it. -/
abbrev FieldRule := Text → Value → Except Fault Value

namespace Fields

def names (fs : Fields) : List Text := fs.map (·.1)

/-- The named fields, one after the other, each made by its rule out of what is given. -/
def settled (rule : FieldRule) (order : List Text) (fs : Fields) : Except Fault Fields :=
  order.mapM fun name => (rule name (fs.get name)).map fun v => (name, v)

variable {rule : FieldRule} {order : List Text} {fs : Fields} {f : Fault}

theorem names_overlay (base given : Fields) : (overlay base given).names = base.names := by
  rw [names, names, overlay, List.map_map]
  rfl

theorem mem_names {name : Text} : name ∈ fs.names ↔ ∃ v, fs.get? name = some v := by
  rw [← Option.isSome_iff_exists, get?, List.lookup_isSome_iff, names, List.mem_map]
  simp only [beq_iff_eq, @eq_comm _ name]

theorem get_of_get? {name : Text} {v : Value} (holds : fs.get? name = some v) :
    fs.get name = v := by
  rw [get, holds, Option.getD_some]

theorem get_overlay (base given : Fields) {name : Text} (has : name ∈ base.names) :
    (overlay base given).get name = (given.get? name).getD (base.get name) := by
  obtain ⟨v, holds⟩ := mem_names.mp has
  rw [get, get?_overlay, holds, get_of_get? holds]
  rfl

/-- Fields are overlaid by name, in whatever order they are given. -/
theorem overlay_congr {base given given' : Fields}
    (same : ∀ name, given.get? name = given'.get? name) :
    overlay base given = overlay base given' :=
  List.map_congr_left fun f _ => by rw [← get?, same f.1, get?]

/-- When all fields are settled, each of them is. -/
theorem forall_of_settled {held : Text → Value}
    (settles : fs.settled rule order = .ok (order.map fun name => (name, held name))) :
    ∀ name ∈ order, rule name (fs.get name) = .ok (held name) := by
  induction order with
  | nil => nofun
  | cons name order ih =>
    rw [settled, List.mapM_cons] at settles
    obtain ⟨first, one, settles⟩ := bind_eq_ok settles
    obtain ⟨others, rest, settles⟩ := bind_eq_ok settles
    obtain ⟨rfl, rfl⟩ := List.cons.inj (Except.ok.inj settles)
    cases made : rule name (fs.get name) with
    | error f =>
      rw [made] at one
      cases one
    | ok v =>
      rw [made] at one
      cases one
      exact List.forall_mem_cons.mpr ⟨made, ih rest⟩

/-- The fault of settling fields is that of settling one of them. -/
theorem exists_of_settled_error (fails : fs.settled rule order = .error f) :
    ∃ name ∈ order, rule name (fs.get name) = .error f := by
  induction order with
  | nil => cases fails
  | cons name order ih =>
    rw [settled, List.mapM_cons] at fails
    cases made : rule name (fs.get name) with
    | error g =>
      rw [made] at fails
      cases fails
      exact ⟨name, List.mem_cons_self, made⟩
    | ok v =>
      rw [made] at fails
      cases rest : settled rule order fs with
      | error g =>
        rw [settled] at rest
        rw [rest] at fails
        cases fails
        obtain ⟨other, listed, found⟩ := ih rest
        exact ⟨other, List.mem_cons_of_mem _ listed, found⟩
      | ok vs =>
        rw [settled] at rest
        rw [rest] at fails
        cases fails

end Fields

namespace Schema

/-- A schema whose metadata are read field by field. -/
structure Fieldwise {α : Type} (S : Schema α) where
  fields : α → Fields
  rule : FieldRule
  /-- The fields that are read when fields of the given names are there, in the order in which they
  are read. -/
  order : List Text → List Text
  read_eq (fs : Fields) :
    (S.read fs).map (fun m => (order fs.names).map fun name => (name, (fields m).get name)) =
      fs.settled rule (order fs.names)
  replace_eq (m : α) (given : Fields) : S.replace m given = S.read ((fields m).overlay given)
  /-- What a rule has made it leaves as it is. -/
  stable {name : Text} {v w : Value} (made : rule name v = .ok w) : rule name w = .ok w
  default_settles {name : Text} (has : name ∈ S.defaults.names) :
    ∃ w, rule name (S.defaults.get name) = .ok w
  order_defaults (name : Text) : name ∈ order S.defaults.names ↔ name ∈ S.defaults.names
  order_fields (m : α) (name : Text) : name ∈ order (fields m).names ↔ name ∈ (fields m).names
  names_of_read {fs : Fields} {m : α} (made : S.read fs = .ok m) (name : Text) :
    name ∈ (fields m).names ↔ name ∈ order fs.names
  none_unknown : S.ofValue? .none = none
  table_unknown (es : List (Value × Value)) : S.ofValue? (.table es) = none
  /-- Metadata that a value is already are read from fields too, and have those of the defaults. -/
  known {v : Value} {m : α} (shown : S.ofValue? v = some m) :
    (∃ fs, S.read fs = .ok m) ∧ ∀ name ∈ S.defaults.names, name ∈ (fields m).names

namespace Fieldwise

variable {α : Type} {S : Schema α} (F : S.Fieldwise) {fs : Fields} {m m' : α} {f : Fault}
  {name : Text}

/-- What metadata hold in a field is made by the field's rule. -/
theorem rule_of_read (made : S.read fs = .ok m) (has : name ∈ (F.fields m).names) :
    F.rule name (fs.get name) = .ok ((F.fields m).get name) := by
  have settles := F.read_eq fs
  rw [made] at settles
  exact Fields.forall_of_settled settles.symm name ((F.names_of_read made name).mp has)

theorem exists_of_read_error (fails : S.read fs = .error f) :
    ∃ name ∈ F.order fs.names, F.rule name (fs.get name) = .error f := by
  have settles := F.read_eq fs
  rw [fails] at settles
  exact Fields.exists_of_settled_error settles.symm

/-- Fields can be read when each of them settles. -/
theorem exists_read (settles : ∀ name ∈ F.order fs.names, ∃ w, F.rule name (fs.get name) = .ok w) :
    ∃ m, S.read fs = .ok m := by
  cases made : S.read fs with
  | ok m => exact ⟨m, rfl⟩
  | error f =>
    obtain ⟨name, listed, fails⟩ := F.exists_of_read_error made
    obtain ⟨w, fine⟩ := settles name listed
    rw [fails] at fine
    cases fine

end Fieldwise

end Schema

end MorphEngine
