import MorphEngine.Proofs.Metadata.Fields
import MorphEngine.Proofs.Trees.Sequences

/-!
# The rules of the fields

The declarations about a morph and the labels of pipelines and records are read field by field.
-/

namespace MorphEngine

open Fusion (bind_eq_ok)

namespace MorphMetadata

/-- The rules of what is declared about a morph. -/
def rule (name : Text) (v : Value) : Except Fault Value :=
  if name = "cost" then (readCost v).map (·.given)
  else if name = "cache_ttl" then (readTtl v).map ttlValue
  else if name = "is_async" then (readAsync v).map fun async => async.elim .none .bool
  else if name = "context" then (ContextProjection.coerce v).map (·.toValue)
  else (readFlag [(name, v)] name).map .bool

def flags : List Text := ["pure", "fusible", "memoizable"]

/-- The fields in the order in which they are read. -/
def order : List Text :=
  ["pure", "fusible", "memoizable", "cost", "cache_ttl", "is_async", "context"]

theorem rule_flag {name : Text} (flag : name ∈ flags) (fs : Fields) :
    rule name (fs.get name) = (readFlag fs name).map .bool := by
  have other : name ≠ "cost" ∧ name ≠ "cache_ttl" ∧ name ≠ "is_async" ∧ name ≠ "context" := by
    simp only [flags, List.mem_cons, List.not_mem_nil, or_false] at flag
    rcases flag with rfl | rfl | rfl <;> decide
  have same : readFlag [(name, fs.get name)] name = readFlag fs name := by
    simp [readFlag, Fields.get, Fields.get?]
  rw [rule, if_neg other.1, if_neg other.2.1, if_neg other.2.2.1, if_neg other.2.2.2, same]

theorem read_settled (fs : Fields) :
    (read fs).map (fun m => order.map fun name => (name, Fields.get m.toFields name)) =
      fs.settled rule order := by
  have flagged (name : Text) (flag : name ∈ flags) := rule_flag flag fs
  simp only [Fields.settled, order, List.mapM_cons, List.mapM_nil, flagged "pure" (by decide),
    flagged "fusible" (by decide), flagged "memoizable" (by decide), read]
  rcases readFlag fs "pure" with f | pure
  · rfl
  rcases readFlag fs "fusible" with f | fusible
  · rfl
  rcases readFlag fs "memoizable" with f | memoizable
  · rfl
  have cost : rule "cost" (fs.get "cost") = (readCost (fs.get "cost")).map (·.given) := rfl
  rw [cost]
  rcases readCost (fs.get "cost") with f | cost
  · rfl
  have ttl : rule "cache_ttl" (fs.get "cache_ttl") =
      (readTtl (fs.get "cache_ttl")).map ttlValue := rfl
  rw [ttl]
  rcases readTtl (fs.get "cache_ttl") with f | ttl
  · rfl
  have async : rule "is_async" (fs.get "is_async") =
      (readAsync (fs.get "is_async")).map fun async => async.elim .none .bool := rfl
  rw [async]
  rcases readAsync (fs.get "is_async") with f | async
  · rfl
  have context : rule "context" (fs.get "context") =
      (ContextProjection.coerce (fs.get "context")).map (·.toValue) := rfl
  rw [context]
  rcases ContextProjection.coerce (fs.get "context") with f | context
  · rfl
  · rfl

/-! ### What a rule has made it makes again -/

variable {name : Text} {v w : Value}

theorem of_readFlag {fs : Fields} {b : Bool} (reads : readFlag fs name = .ok b) :
    fs.get name = .bool b := by
  unfold readFlag at reads
  split at reads
  · next given =>
    cases reads
    exact given
  · obtain ⟨_, _, refused⟩ := bind_eq_ok reads
    cases refused

theorem of_readAsync {async : Option Bool} (reads : readAsync v = .ok async) :
    async.elim .none .bool = v := by
  unfold readAsync at reads
  split at reads
  · cases reads
    rfl
  · cases reads
    rfl
  · cases reads

end MorphMetadata

namespace ContextProjection

theorem ofValue?_toValue (p : ContextProjection) : ofValue? p.toValue = some p := by
  obtain ⟨kind, names, selector⟩ := p
  have known : ProjectionKind.ofMember? kind.toMember = some kind := by
    cases kind <;> rfl
  simp [toValue, ofValue?, known]

theorem coerce_toValue (p : ContextProjection) : coerce p.toValue = .ok p := by
  unfold coerce
  rw [ofValue?_toValue]
  rfl

end ContextProjection

namespace MorphMetadata

variable {name : Text} {v w : Value}

/-- All rules but that of the context take what is given as it is. -/
theorem eq_of_rule (made : rule name v = .ok w) (other : name ≠ "context") : w = v := by
  unfold rule at made
  split at made
  · obtain ⟨q, reads, rfl⟩ := of_map_eq_ok made
    exact (readCost_eq_ok reads).1
  split at made
  · obtain ⟨ttl, reads, rfl⟩ := of_map_eq_ok made
    exact (readTtl_eq_ok reads).1
  split at made
  · obtain ⟨async, reads, rfl⟩ := of_map_eq_ok made
    exact of_readAsync reads
  obtain ⟨b, reads, rfl⟩ := of_map_eq_ok made
  have given := of_readFlag reads
  rw [Fields.get, Fields.get?, List.lookup_cons_self, Option.getD_some] at given
  exact given.symm

theorem rule_stable (made : rule name v = .ok w) : rule name w = .ok w := by
  by_cases context : name = "context"
  · subst context
    obtain ⟨p, _, rfl⟩ := of_map_eq_ok (show (ContextProjection.coerce v).map _ = .ok w from made)
    have again : rule "context" p.toValue = (ContextProjection.coerce p.toValue).map (·.toValue) :=
      rfl
    rw [again, p.coerce_toValue]
    rfl
  · cases eq_of_rule made context
    exact made

theorem order_perm (m : MorphMetadata) : order.Perm (Fields.names m.toFields) :=
  (by decide : order.Perm (Fields.names default.toFields))

theorem exists_rule_default (has : name ∈ order) :
    ∃ w, rule name (Fields.get default.toFields name) = .ok w := by
  simp only [order, List.mem_cons, List.not_mem_nil, or_false] at has
  rcases has with rfl | rfl | rfl | rfl | rfl | rfl | rfl <;> exact ⟨_, rfl⟩

/-- The declarations about a morph are read field by field. -/
def fieldwise : schema.Fieldwise where
  fields := toFields
  rule := rule
  order _ := order
  read_eq := read_settled
  replace_eq _ _ := rfl
  stable := rule_stable
  default_settles has := exists_rule_default ((order_perm default).mem_iff.mpr has)
  order_defaults _ := (order_perm default).mem_iff
  order_fields m _ := (order_perm m).mem_iff
  names_of_read {_ m} _ _ := (order_perm m).mem_iff.symm
  none_unknown := rfl
  table_unknown _ := rfl
  known {_ m} shown := ⟨read_of_ofValue? shown, fun _ has =>
    (order_perm m).mem_iff.mp ((order_perm default).mem_iff.mpr has)⟩

end MorphMetadata

namespace Labels

/-- The rules of labels. -/
def rule (name : Text) (v : Value) : Except Fault Value :=
  if name = "tags" then (readTags v).map fun tags => .frozenSet (tags.map (·.given))
  else if name = "composition" then (readComposition v).map .tuple
  else (readLabel [(name, v)] name).map (·.given)

/-- The fields that all labels have, in the order in which they are read. -/
def commonOrder : List Text := ["description", "category", "input_type", "output_type", "tags"]

/-- The fields in the order in which they are read; a composition is read where one is listed. -/
def order (names : List Text) : List Text :=
  commonOrder ++ if names.contains "composition" then [("composition" : Text)] else []

theorem rule_label {name : Text} (label : name ≠ "tags" ∧ name ≠ "composition") (fs : Fields) :
    rule name (fs.get name) = (readLabel fs name).map (·.given) := by
  have same : readLabel [(name, fs.get name)] name = readLabel fs name := by
    simp [readLabel, Fields.get, Fields.get?]
  rw [rule, if_neg label.1, if_neg label.2, same]

theorem order_names (fs : Fields) :
    order fs.names =
      commonOrder ++ if (fs.get? "composition").isSome then [("composition" : Text)] else [] := by
  have present : (fs.names.contains "composition" = true) ↔
      ((fs.get? "composition").isSome = true) := by
    rw [List.contains_iff_mem, Fields.mem_names, Option.isSome_iff_exists]
  simp only [order, present]

theorem read_settled (fs : Fields) :
    (read fs).map (fun l => (order fs.names).map fun name => (name, Fields.get l.toFields name)) =
      fs.settled rule (order fs.names) := by
  have labelled (name : Text) (label : name ≠ "tags" ∧ name ≠ "composition") := rule_label label fs
  have tags : rule "tags" (fs.get "tags") =
      (readTags (fs.get "tags")).map fun tags => .frozenSet (tags.map (·.given)) := rfl
  rw [order_names]
  simp only [Fields.settled, commonOrder, List.cons_append, List.nil_append, List.mapM_cons,
    labelled "description" (by decide), labelled "category" (by decide),
    labelled "input_type" (by decide), labelled "output_type" (by decide), tags, read]
  rcases readLabel fs "description" with f | description
  · rfl
  rcases readLabel fs "category" with f | category
  · rfl
  rcases readLabel fs "input_type" with f | inputType
  · rfl
  rcases readLabel fs "output_type" with f | outputType
  · rfl
  rcases readTags (fs.get "tags") with f | tags
  · rfl
  cases given : fs.get? "composition" with
  | none => rfl
  | some v =>
    have listed : rule "composition" (fs.get "composition") =
        (readComposition v).map .tuple := by
      rw [Fields.get_of_get? given]
      rfl
    rw [Option.isSome_some, if_pos rfl, List.mapM_cons, List.mapM_nil, listed]
    dsimp only
    rcases readComposition v with f | composition
    · rfl
    · rfl

end Labels

namespace Value

/-- The members of a set make up the same set. -/
theorem setOf_of_joined {members xs all : List Value} (own : setOf members = .ok members)
    (joined : xs.foldlM join members = .ok all) : setOf all = .ok all := by
  induction xs generalizing members with
  | nil =>
    cases joined
    exact own
  | cons v xs ih =>
    rw [List.foldlM_cons] at joined
    obtain ⟨more, one, joined⟩ := bind_eq_ok joined
    refine ih ?_ joined
    have one' := one
    unfold join at one'
    obtain ⟨_, _, one'⟩ := bind_eq_ok one'
    -- The value is there already, or it is the last one to be joined.
    by_cases there : members.any (·.same v) = true
    · rw [if_pos there] at one'
      cases one'
      exact own
    · rw [if_neg there] at one'
      cases one'
      rw [setOf, List.foldlM_append, ← setOf, own]
      exact (bind_pure _).trans one

theorem setOf_idem {xs members : List Value} (joined : setOf xs = .ok members) :
    setOf members = .ok members :=
  setOf_of_joined rfl joined

end Value

namespace Labels

variable {name : Text} {v w : Value}

theorem given_of_ofValue? {n : Name} (named : Name.ofValue? v = some n) : n.given = v := by
  unfold Name.ofValue? at named
  split at named
  · cases named
    rfl
  · cases named

theorem map_given {members : List Value} {names : List Name}
    (named : members.mapM Name.ofValue? = some names) : names.map (·.given) = members := by
  induction members generalizing names with
  | nil =>
    cases named
    rfl
  | cons v members ih =>
    rw [List.mapM_cons] at named
    obtain ⟨n, first, named⟩ := Option.bind_eq_some_iff.mp named
    obtain ⟨rest, others, named⟩ := Option.bind_eq_some_iff.mp named
    cases named
    rw [List.map_cons, given_of_ofValue? first, ih others]

theorem of_readLabel {fs : Fields} {n : Name} (reads : readLabel fs name = .ok n) :
    fs.get name = n.given := by
  unfold readLabel at reads
  dsimp only at reads
  split at reads
  · next named =>
    cases reads
    exact (given_of_ofValue? named).symm
  · obtain ⟨_, _, refused⟩ := bind_eq_ok reads
    cases refused

/-- Tags are a set of names that is read as itself. -/
theorem readTags_again {tags : List Name} (reads : readTags v = .ok tags) :
    readTags (.frozenSet (tags.map (·.given))) = .ok tags := by
  unfold readTags at reads
  split at reads
  · cases reads
    rfl
  · split at reads
    · obtain ⟨_, _, refused⟩ := bind_eq_ok reads
      cases refused
    · obtain ⟨xs, _, reads⟩ := bind_eq_ok reads
      obtain ⟨members, joined, reads⟩ := bind_eq_ok reads
      split at reads
      · next names named =>
        cases reads
        rw [map_given named]
        have plain : ¬((Value.frozenSet members).isText || !(Value.frozenSet members).isIterable) =
            true := Bool.false_ne_true
        have listed : (Value.frozenSet members).iterate = .ok members := rfl
        unfold readTags
        dsimp only
        rw [if_neg plain, listed]
        simp only [Value.setOf_idem joined, bind, Except.bind, named]
        rfl
      · obtain ⟨_, _, refused⟩ := bind_eq_ok reads
        cases refused

theorem rule_stable (made : rule name v = .ok w) : rule name w = .ok w := by
  have made' := made
  unfold rule at made'
  split at made'
  · next tags =>
    subst tags
    obtain ⟨tags, reads, rfl⟩ := of_map_eq_ok made'
    have again : rule "tags" (.frozenSet (tags.map (·.given))) =
        (readTags (.frozenSet (tags.map (·.given)))).map fun tags =>
          .frozenSet (tags.map (·.given)) := rfl
    rw [again, readTags_again reads]
    rfl
  split at made'
  · next composition =>
    subst composition
    obtain ⟨names, _, rfl⟩ := of_map_eq_ok made'
    rfl
  · obtain ⟨n, reads, rfl⟩ := of_map_eq_ok made'
    have given := of_readLabel reads
    rw [Fields.get, Fields.get?, List.lookup_cons_self, Option.getD_some] at given
    rwa [given] at made

theorem order_perm (l : Labels) :
    (order (Fields.names l.toFields)).Perm (Fields.names l.toFields) := by
  obtain ⟨_, _, _, _, _, none | names⟩ := l
  · exact (by decide : (order (Fields.names defaultBuild.toFields)).Perm
      (Fields.names defaultBuild.toFields))
  · exact (by decide : (order (Fields.names defaultRecord.toFields)).Perm
      (Fields.names defaultRecord.toFields))

/-- A composition is listed just where one was given. -/
theorem order_of_read {fs : Fields} {l : Labels} (made : read fs = .ok l) :
    order fs.names = order (Fields.names l.toFields) := by
  have listed := composition_of_read made
  rw [order_names]
  obtain ⟨_, _, _, _, _, composition⟩ := l
  cases given : fs.get? "composition" with
  | none =>
    rw [given] at listed
    cases listed
    rfl
  | some v =>
    rw [given, Option.mapM_some] at listed
    obtain ⟨names, _, listed⟩ := bind_eq_ok listed
    cases listed
    rfl

theorem mem_toFields_of_read {fs : Fields} {l : Labels} (made : read fs = .ok l) (name : Text) :
    name ∈ Fields.names l.toFields ↔ name ∈ order fs.names := by
  rw [order_of_read made, (order_perm l).mem_iff]

theorem read_of_ofValue? {l : Labels} (shown : ofValue? v = some l) : ∃ fs, read fs = .ok l := by
  unfold ofValue? at shown
  split at shown
  · next c fs =>
    split at shown
    · exact ⟨fs, eq_ok_of_toOption shown⟩
    · cases shown
  · cases shown

theorem exists_rule_defaultBuild (has : name ∈ order (Fields.names defaultBuild.toFields)) :
    ∃ w, rule name (Fields.get defaultBuild.toFields name) = .ok w := by
  have common : order (Fields.names defaultBuild.toFields) = commonOrder := by decide
  simp only [common, commonOrder, List.mem_cons, List.not_mem_nil, or_false] at has
  rcases has with rfl | rfl | rfl | rfl | rfl <;> exact ⟨_, rfl⟩

theorem exists_rule_defaultRecord (has : name ∈ order (Fields.names defaultRecord.toFields)) :
    ∃ w, rule name (Fields.get defaultRecord.toFields name) = .ok w := by
  have all : order (Fields.names defaultRecord.toFields) =
      commonOrder ++ [("composition" : Text)] := by
    decide
  simp only [all, commonOrder, List.mem_append, List.mem_cons, List.not_mem_nil, or_false] at has
  rcases has with (rfl | rfl | rfl | rfl | rfl) | rfl <;> exact ⟨_, rfl⟩

theorem common_mem (l : Labels) (has : name ∈ commonOrder) : name ∈ Fields.names l.toFields :=
  (order_perm l).mem_iff.mp (List.mem_append_left _ has)

/-- The labels of pipelines are read field by field. -/
def fieldwiseBuild : buildSchema.Fieldwise where
  fields := toFields
  rule := rule
  order := order
  read_eq := read_settled
  replace_eq _ _ := rfl
  stable := rule_stable
  default_settles has := exists_rule_defaultBuild ((order_perm defaultBuild).mem_iff.mpr has)
  order_defaults _ := (order_perm defaultBuild).mem_iff
  order_fields l _ := (order_perm l).mem_iff
  names_of_read := mem_toFields_of_read
  none_unknown := rfl
  table_unknown _ := rfl
  known {_ l} shown := ⟨read_of_ofValue? shown, fun _ has =>
    common_mem l ((order_perm defaultBuild).mem_iff.mpr has)⟩

/-- The labels of records are read field by field. -/
def fieldwiseRecord : recordSchema.Fieldwise where
  fields := toFields
  rule := rule
  order := order
  read_eq := read_settled
  replace_eq _ _ := rfl
  stable := rule_stable
  default_settles has := exists_rule_defaultRecord ((order_perm defaultRecord).mem_iff.mpr has)
  order_defaults _ := (order_perm defaultRecord).mem_iff
  order_fields l _ := (order_perm l).mem_iff
  names_of_read := mem_toFields_of_read
  none_unknown := rfl
  table_unknown _ := rfl
  known {_ l} shown := by
    obtain ⟨own, record⟩ := Option.filter_eq_some_iff.mp shown
    refine ⟨read_of_ofValue? own, fun name has => ?_⟩
    obtain ⟨_, _, _, _, _, none | names⟩ := l
    · cases record
    · exact has

end Labels

end MorphEngine
