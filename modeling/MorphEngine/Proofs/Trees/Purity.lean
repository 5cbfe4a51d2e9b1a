import MorphEngine.Proofs.Trees.Making

/-!
# Impurity reaches the root

A morph that derives its purity counts as pure only when all its parts do and no function finishes
its results. In a tree whose sequences declare no purity of their own, everything above an impure
part is therefore impure, and without a cache, whatever is declared about memoizing it.
-/

namespace MorphEngine

open Fusion

namespace MorphMetadata

theorem pure_of_read {fs : Fields} {m : MorphMetadata} (made : read fs = .ok m) :
    fs.get "pure" = .bool m.pure := by
  obtain ⟨flag, flagged, made⟩ := bind_eq_ok made
  obtain ⟨fusible, _, made⟩ := bind_eq_ok made
  obtain ⟨memoizable, _, made⟩ := bind_eq_ok made
  obtain ⟨cost, _, made⟩ := bind_eq_ok made
  obtain ⟨ttl, _, made⟩ := bind_eq_ok made
  obtain ⟨async, _, made⟩ := bind_eq_ok made
  obtain ⟨context, _, made⟩ := bind_eq_ok made
  cases made
  unfold readFlag at flagged
  split at flagged
  · next b given =>
    cases flagged
    exact given
  · obtain ⟨shown, _, refused⟩ := bind_eq_ok flagged
    cases refused

/-- A purity that is given by name wins over the metadata that it is given with. -/
theorem pure_of_coerce {v : Value} {flag : Bool} {others : Fields} {m : MorphMetadata}
    (named : others = [] ∨ ∃ cost, others = ([("cost", cost)] : Fields))
    (coerced : coerce v (("pure", .bool flag) :: others) = .ok m) : m.pure = flag := by
  have replaced : ∃ before : MorphMetadata,
      read (Fields.overlay before.toFields (("pure", .bool flag) :: others)) = .ok m := by
    rcases named with rfl | ⟨cost, rfl⟩
    · obtain ⟨before, _, coerced⟩ := bind_eq_ok (m := schema.base v) coerced
      exact ⟨before, coerced⟩
    · obtain ⟨before, _, coerced⟩ := bind_eq_ok (m := schema.base v) coerced
      exact ⟨before, coerced⟩
  obtain ⟨before, made⟩ := replaced
  have given : (Fields.overlay before.toFields (("pure", .bool flag) :: others)).get "pure" =
      .bool flag := rfl
  rw [pure_of_read made] at given
  exact Value.bool.inj given

end MorphMetadata

namespace Morph

/-- Metadata that leave open whether a sequence is pure: none, or a mapping without such an entry. -/
def LeavesPurityOpen (metadata : Value) : Prop :=
  metadata = .none ∨ ∃ es, metadata.entries? = some es ∧ Value.find? es (.text "pure") = none

/-- Ways to make a morph that do not declare a purity of a sequence. -/
def DerivesPurity : Making → Prop
  | .composition metadata => LeavesPurityOpen metadata
  | _ => True

theorem pure_of_composedMetadata {steps : List Morph} {finish : Option Value} {metadata : Value}
    {declared : Except Value MorphMetadata} (opened : LeavesPurityOpen metadata)
    (derived : composedMetadata steps finish metadata = .ok declared) :
    ∃ d, declared = .ok d ∧ d.pure = (finish.isNone && steps.all isPure) := by
  obtain ⟨total, summed, costed⟩ := bind_eq_ok derived
  obtain ⟨cost, added, read⟩ := bind_eq_ok costed
  dsimp only at read
  split at read
  · obtain ⟨d, coerced, read⟩ := bind_eq_ok read
    cases read
    exact ⟨d, rfl, MorphMetadata.pure_of_coerce (Or.inr ⟨cost, rfl⟩) coerced⟩
  · next es unread entries =>
    have missing : Value.find? es (.text "pure") = none := by
      rcases opened with rfl | ⟨es', entries', missing⟩
      · cases entries
      · cases entries.symm.trans entries'
        exact missing
    obtain ⟨d, coerced, read⟩ := bind_eq_ok read
    cases read
    rw [List.filter_cons_of_pos (by simp only [missing, Option.isNone_none])] at coerced
    refine ⟨d, rfl, MorphMetadata.pure_of_coerce ?_ coerced⟩
    by_cases free : (Value.find? es (.text "cost")).isNone = true
    · exact Or.inr ⟨cost, List.filter_cons_of_pos free⟩
    · exact Or.inl (List.filter_cons_of_neg free)
  · next unread none =>
    rcases opened with rfl | ⟨es, entries, _⟩
    · exact absurd rfl unread
    · cases none.symm.trans entries

theorem compose_isPure {id : Nat} {name : Value} {steps : List (Value × Option Morph)}
    {finish metadata : Value} {settings : CacheSettings} {m : Morph}
    (opened : LeavesPurityOpen metadata)
    (made : compose id name steps finish metadata settings = .ok m) :
    ∃ head parts last, m = .composed head parts last ∧
      head.metadata.pure = (last.isNone && parts.all isPure) := by
  obtain ⟨parts, last, read, d, head, _, derived, given, header, rfl⟩ := compose_reads made
  obtain ⟨d', rfl, derives⟩ := pure_of_composedMetadata opened derived
  obtain ⟨_, _, declared⟩ := makeHeader_eq_ok header
  rcases given with same | ⟨v, unread, _⟩
  · cases same
    exact ⟨head, parts, last, rfl, by rw [declared, derives]⟩
  · cases unread

theorem sequence_isPure {id : Nat} {a b : Morph} {name : Value} {m : Morph}
    (made : sequence id a b name = .ok m) :
    ∃ head, m = .composed head [a, b] none ∧ head.metadata.pure = (a.isPure && b.isPure) := by
  obtain ⟨_, _, made⟩ := bind_eq_ok made
  obtain ⟨_, _, made⟩ := bind_eq_ok made
  split at made
  all_goals
    obtain ⟨_, _, made⟩ := bind_eq_ok made
    obtain ⟨_, _, made⟩ := bind_eq_ok made
    obtain ⟨head, header, made⟩ := bind_eq_ok made
    cases made
    obtain ⟨_, _, declared⟩ := makeHeader_eq_ok header
    exact ⟨head, rfl, by rw [declared]⟩

theorem conditionalOn_isPure {id : Nat} {name predicate shown : Value} {body : Morph}
    {settings : CacheSettings} {m : Morph}
    (made : conditionalOn id name predicate (shown, some body) settings = .ok m) :
    m.isPure = body.isPure := by
  unfold conditionalOn at made
  dsimp only at made
  split at made
  · obtain ⟨_, _, made⟩ := bind_eq_ok made
    obtain ⟨_, _, made⟩ := bind_eq_ok made
    obtain ⟨head, header, made⟩ := bind_eq_ok made
    cases made
    obtain ⟨_, _, declared⟩ := makeHeader_eq_ok header
    rw [isPure, Morph.metadata, Morph.head, declared]
  · obtain ⟨_, _, made⟩ := bind_eq_ok made
    obtain ⟨_, refused, _⟩ := bind_eq_ok made
    cases refused

theorem fusedMorph_isPure {id : Nat} {name : Text} {members : List Stage} {m : Morph}
    (made : fusedMorph id name members = .ok m) :
    m.isPure = (members.map (·.morph)).all isPure := by
  obtain ⟨total, _, made⟩ := bind_eq_ok made
  obtain ⟨cost, _, made⟩ := bind_eq_ok made
  obtain ⟨head, header, made⟩ := bind_eq_ok made
  cases made
  obtain ⟨_, _, declared⟩ := makeHeader_eq_ok header
  rw [isPure, Morph.metadata, Morph.head, declared]

/-- A function that finishes what a sequence has come to. -/
def finish? : Morph → Option Value
  | composed _ _ finish => finish
  | _ => none

/-- A pure morph has only pure parts, and nothing finishes its results. -/
def PureInParts (m : Morph) : Prop :=
  m.isPure = true → m.finish? = none ∧ ∀ p ∈ m.parts, p.isPure = true

theorem fusedMorph_pureInParts {id : Nat} {name : Text} {members : List Stage} {m : Morph}
    (made : fusedMorph id name members = .ok m) : PureInParts m := by
  intro pure
  rw [fusedMorph_isPure made, List.all_eq_true] at pure
  obtain ⟨head, rfl, _⟩ := fusedMorph_eq_ok made
  exact ⟨rfl, pure⟩

/-- A pipeline is pure by its declared stages, which the stages that it runs come from. -/
theorem pureInParts_of_builds {name : Name} {stages : List Stage} {fusing : Bool} {m : Morph}
    (built : Builder.Builds name stages fusing m) : PureInParts m := by
  intro pure
  rw [built.isPure_eq, List.all_eq_true, List.forall_mem_map] at pure
  refine ⟨?_, ?_⟩
  · obtain ⟨head, info, result, cost, rfl, _⟩ := built.eq_pipeline
    rfl
  · rw [built.parts_eq, List.forall_mem_map]
    intro s hs
    rcases built.mem_executed s hs with declared | ⟨id, name, members, among, made⟩
    · exact pure s declared
    · rw [fusedMorph_isPure made, List.all_eq_true, List.forall_mem_map]
      exact fun t ht => pure t (among t ht).1

/-- In trees that declare no purity of their sequences, every pure morph is pure in its parts. -/
theorem MadeBy.pureInParts {m : Morph} (made : m.MadeBy DerivesPurity) :
    m.Throughout PureInParts := by
  induction made with
  | function way made =>
    obtain ⟨d, head, _, rfl, _⟩ := create_eq_ok made
    exact .intro (fun _ => ⟨rfl, List.forall_mem_nil _⟩) (List.forall_mem_nil _)
  | composition way parts made ih =>
    obtain ⟨head, steps, last, rfl, purity⟩ := compose_isPure way made
    obtain ⟨_, _, _, same, _, given⟩ := compose_eq_ok made
    cases same
    refine .intro (fun pure => ?_) fun p hp => ?_
    · rw [isPure, Morph.metadata, Morph.head, purity, Bool.and_eq_true, List.all_eq_true] at pure
      exact ⟨Option.isNone_iff_eq_none.mp pure.1, pure.2⟩
    · obtain ⟨s, hs, sent⟩ := given p hp
      exact ih s hs p sent
  | @condition _ _ _ _ body _ _ way part made ih =>
    have purity := conditionalOn_isPure made
    obtain ⟨head, rfl, _⟩ := conditionalOn_eq_ok made
    refine .intro (fun pure => ⟨rfl, fun p hp => ?_⟩) fun p hp => ?_
    · rw [List.mem_singleton.mp hp, ← purity]
      exact pure
    · rw [List.mem_singleton.mp hp]
      exact ih
  | sameness way made =>
    obtain ⟨head, rfl, _⟩ := makeIdentity_eq_ok made
    exact .intro (fun _ => ⟨rfl, List.forall_mem_nil _⟩) (List.forall_mem_nil _)
  | @succession _ a b _ _ way first second made ih ih' =>
    obtain ⟨head, rfl, purity⟩ := sequence_isPure made
    refine .intro (fun pure => ⟨rfl, ?_⟩) ?_
    · rw [isPure, Morph.metadata, Morph.head, purity, Bool.and_eq_true] at pure
      simp only [Morph.parts, List.forall_mem_cons]
      exact ⟨pure.1, pure.2, List.forall_mem_nil _⟩
    · simp only [Morph.parts, List.forall_mem_cons]
      exact ⟨ih, ih', List.forall_mem_nil _⟩
  | fusion way parts made ih =>
    have here := fusedMorph_pureInParts made
    obtain ⟨head, rfl, _⟩ := fusedMorph_eq_ok made
    refine .intro here fun p hp => ?_
    obtain ⟨t, ht, rfl⟩ := List.mem_map.mp hp
    exact ih t ht
  | build way parts built ih =>
    have executed := throughout_executed built ih fun _ _ _ _ _ => fusedMorph_pureInParts
    refine .intro (pureInParts_of_builds built) ?_
    rw [built.parts_eq, List.forall_mem_map]
    exact executed

/-- A function declared impure, or a sequence with a function that finishes its results. -/
def IsImpureSource : Morph → Prop
  | simple head _ => head.metadata.pure = false
  | composed _ _ finish => finish.isSome = true
  | _ => False

theorem PureInParts.isPure_eq_false {m : Morph} (derived : PureInParts m)
    (source : m.IsImpureSource) : m.isPure = false := by
  cases m with
  | simple head fn => exact source
  | composed head steps finish =>
    refine Bool.eq_false_iff.mpr fun pure => ?_
    have none : finish = none := (derived pure).1
    rw [IsImpureSource, none] at source
    cases source
  | _ => exact source.elim

/-- Impurity reaches everything above a part. -/
theorem isPure_eq_false_above {p m : Morph} (derived : m.Throughout PureInParts)
    (within : p.IsWithin m) (impure : p.isPure = false) : m.isPure = false := by
  induction within with
  | refl => exact impure
  | tail _ part ih =>
    refine Bool.eq_false_iff.mpr fun pure => ?_
    have below := ih (derived.within (.of_part part))
    rw [(derived.here pure).2 _ part] at below
    cases below

/-- Only pure morphs have caches. -/
theorem cache_eq_none_of_impure {head : Header} (impure : head.metadata.pure = false) :
    head.cache = none := by
  cases slot : head.cache with
  | none => rfl
  | some s =>
    have declared := head.cacheable (by rw [slot]; rfl)
    rw [MorphMetadata.isCacheable, impure, Bool.false_and] at declared
    cases declared

/-- Everything from an impure source up to the root is impure and without a cache. -/
theorem bare_above_source {source n m : Morph} (derived : m.Throughout PureInParts)
    (impure : source.IsImpureSource) (above : source.IsWithin n) (within : n.IsWithin m) :
    n.isPure = false ∧ n.head.cache = none := by
  have below := derived.within (above.trans within)
  have path := isPure_eq_false_above (derived.within within) above
    (below.here.isPure_eq_false impure)
  exact ⟨path, cache_eq_none_of_impure path⟩

end Morph

end MorphEngine
