import MorphEngine.Proofs.Trees.Making

/-!
# Asynchrony reaches the root

Unless a morph declares otherwise, it is asynchronous just when a function that it runs on its input
is, or one of its parts. Fusion keeps it so, since it takes up no asynchronous stage. So a tree is
asynchronous just when some function in it is, however deep.
-/

namespace MorphEngine

namespace Morph

open Fusion

/-- Whether a function that the morph itself puts on the way of its input is asynchronous. -/
def runsAsync : Morph → Bool
  | simple _ fn => isAsyncFunction fn
  | composed _ _ finish => finish.any isAsyncFunction
  | _ => false

/-- What is said about the asynchrony of a morph is what its functions and parts amount to. -/
structure AsyncInParts (m : Morph) : Prop where
  eq : m.isAsync = (m.runsAsync || m.parts.any isAsync)
  fused : m.kind = .fused → m.isAsync = false

theorem anyAsync_eq_any (steps : List Morph) : anyAsync steps = steps.any isAsync := by
  induction steps with
  | nil => rfl
  | cons m rest ih => rw [anyAsync, List.any_cons, ih]

theorem composed_asyncInParts {head : Header} {steps : List Morph} {finish : Option Value}
    (undeclared : IsUndeclared (composed head steps finish)) :
    AsyncInParts (composed head steps finish) := by
  refine ⟨?_, nofun⟩
  have unset : head.metadata.isAsync = none := undeclared
  rw [isAsync, unset, Option.getD_none, anyAsync_eq_any, Bool.or_comm]
  rfl

/-- Whatever was fused could be, so it was not asynchronous. -/
theorem fusedMorph_asyncInParts {id : Nat} {name : Text} {members : List Stage} {m : Morph}
    (candidates : ∀ t ∈ members, isCandidate t.morph = true)
    (made : fusedMorph id name members = .ok m) : AsyncInParts m := by
  obtain ⟨head, rfl, _, direct, _⟩ := fusedMorph_eq_ok made
  have here : (fused head members).isAsync = false := by
    rw [isAsync, direct, Option.getD_some]
  refine ⟨?_, fun _ => here⟩
  have none : (fused head members).parts.any isAsync = false := by
    rw [List.any_eq_false]
    intro p part
    obtain ⟨t, among, rfl⟩ := List.mem_map.mp part
    exact Bool.eq_false_iff.mp (isAsync_of_isCandidate (candidates t among))
  rw [here, none]
  rfl

/-- The ways to make a morph outside of a build, where fused stages arise. -/
def BarsFusion : Making → Prop
  | .fusion => False
  | _ => True

/-- In trees that declare no asynchrony, all of it comes from functions and parts. -/
theorem MadeBy.asyncInParts {m : Morph} (made : m.MadeBy BarsFusion) :
    m.Throughout fun p => p.IsUndeclared → AsyncInParts p := by
  induction made with
  | function way made =>
    obtain ⟨d, head, _, rfl, _⟩ := create_eq_ok made
    refine .intro (fun undeclared => ⟨?_, fun fused => by cases fused⟩) (List.forall_mem_nil _)
    have unset : head.metadata.isAsync = none := undeclared
    rw [isAsync, unset, Option.getD_none]
    exact (Bool.or_false _).symm
  | composition way parts made ih =>
    obtain ⟨head, steps, last, rfl, _, given⟩ := compose_eq_ok made
    refine .intro composed_asyncInParts fun p hp => ?_
    obtain ⟨s, hs, sent⟩ := given p hp
    exact ih s hs p sent
  | condition way part made ih =>
    obtain ⟨head, rfl, _, declared, _⟩ := conditionalOn_eq_ok made
    refine .intro (fun _ => ⟨?_, fun fused => by cases fused⟩) fun p hp => ?_
    · rw [isAsync, declared]
      exact (Bool.or_false _).symm
    · rw [List.mem_singleton.mp hp]
      exact ih
  | sameness way made =>
    obtain ⟨head, rfl, _, declared, _⟩ := makeIdentity_eq_ok made
    refine .intro (fun _ => ⟨?_, fun fused => by cases fused⟩) (List.forall_mem_nil _)
    rw [isAsync, declared]
    rfl
  | succession way first second made ih ih' =>
    obtain ⟨head, rfl, _⟩ := sequence_eq_ok made
    refine .intro composed_asyncInParts ?_
    simp only [Morph.parts, List.forall_mem_cons]
    exact ⟨ih, ih', List.forall_mem_nil _⟩
  | fusion way parts made ih => exact way.elim
  | build way parts built ih =>
    have executed := throughout_executed built ih fun _ _ _ _ candidates made _ =>
      fusedMorph_asyncInParts candidates made
    rw [← List.forall_mem_map, ← built.parts_eq] at executed
    refine .intro (fun _ => ?_) executed
    obtain ⟨head, info, result, cost, rfl, _, _, declared, _⟩ := built.eq_pipeline
    refine ⟨?_, fun fused => by cases fused⟩
    simp only [isAsync, declared, Builder.declaration, Option.getD_some, runsAsync, Bool.false_or,
      Morph.parts, List.any_map]
    rfl

/-- Trees that declare no asynchrony are as asynchronous as their functions and parts. -/
theorem asyncInParts_throughout {m : Morph} (made : m.MadeBy BarsFusion)
    (undeclared : m.Throughout IsUndeclared) : m.Throughout AsyncInParts :=
  (made.asyncInParts.and undeclared).imp fun _ both => both.1 both.2

/-- A tree is asynchronous just when some function in it is. -/
theorem isAsync_iff_exists_runsAsync {m : Morph} (derived : m.Throughout AsyncInParts) :
    m.isAsync = true ↔ ∃ p : Morph, p.IsWithin m ∧ p.runsAsync = true := by
  constructor
  · intro async
    induction derived with
    | @intro m here parts ih =>
      rw [here.eq, Bool.or_eq_true, List.any_eq_true] at async
      rcases async with own | ⟨p, part, async⟩
      · exact ⟨m, .refl m, own⟩
      · obtain ⟨q, within, own⟩ := ih p part async
        exact ⟨q, within.trans (.of_part part), own⟩
  · rintro ⟨p, within, own⟩
    induction within with
    | refl => rw [derived.here.eq, own, Bool.true_or]
    | @tail q m lower part ih =>
      have below := ih (derived.within (.of_part part))
      rw [derived.here.eq, Bool.or_eq_true, List.any_eq_true]
      exact Or.inr ⟨q, part, below⟩

end Morph

end MorphEngine
