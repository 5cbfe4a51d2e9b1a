import Mathlib.Logic.Relation
import MorphEngine.Proofs.Made
import MorphEngine.Proofs.Memo.Family

/-!
# Trees of morphs, and how they were made

A morph lies within another when it is the other one, a part of it, a part of a part, and so on. A
tree is made by some of the ways to make a morph when it and everything it was made of was. What holds
of every morph made in one of these ways holds throughout the tree, also of the stages that fusion
put in the place of others.
-/

namespace MorphEngine

namespace Morph

/-- The first morph is the second, or among what it is made of. -/
def IsWithin : Morph → Morph → Prop := Relation.ReflTransGen fun p m => p ∈ m.parts

theorem IsWithin.refl (m : Morph) : m.IsWithin m := Relation.ReflTransGen.refl

theorem IsWithin.trans {p n m : Morph} (lower : p.IsWithin n) (upper : n.IsWithin m) :
    p.IsWithin m := Relation.ReflTransGen.trans lower upper

theorem IsWithin.of_part {p m : Morph} (part : p ∈ m.parts) : p.IsWithin m :=
  Relation.ReflTransGen.single part

theorem Throughout.within {P : Morph → Prop} {p m : Morph} (all : m.Throughout P)
    (within : p.IsWithin m) : p.Throughout P := by
  induction within with
  | refl => exact all
  | tail _ part ih =>
    cases all with
    | intro here parts => exact ih (parts _ part)

theorem Throughout.and {P Q : Morph → Prop} {m : Morph} (first : m.Throughout P)
    (second : m.Throughout Q) : m.Throughout fun p => P p ∧ Q p := by
  induction first with
  | intro here parts ih =>
    cases second with
    | intro here' parts' => exact .intro ⟨here, here'⟩ fun p part => ih p part (parts' p part)

theorem Throughout.imp {P Q : Morph → Prop} {m : Morph} (all : m.Throughout P)
    (sent : ∀ p, P p → Q p) : m.Throughout Q := by
  induction all with
  | intro here parts ih => exact .intro (sent _ here) ih

/-- The ways to make a morph. A sequence can be given metadata of its own. -/
inductive Making where
  | function
  | composition (metadata : Value)
  | condition
  | sameness
  | succession
  | fusion
  | build

open Fusion

/-- A morph that was made in one of the given ways from parts that were made so. -/
inductive MadeBy (ways : Making → Prop) : Morph → Prop
  | function {id : Nat} {name fn metadata : Value} {settings : CacheSettings} {options : Fields}
      {m : Morph} (way : ways .function)
      (made : create id name fn metadata settings options = .ok m) : MadeBy ways m
  | composition {id : Nat} {name : Value} {steps : List (Value × Option Morph)}
      {finish metadata : Value} {settings : CacheSettings} {m : Morph}
      (way : ways (.composition metadata))
      (parts : ∀ s ∈ steps, ∀ p, s.2 = some p → MadeBy ways p)
      (made : compose id name steps finish metadata settings = .ok m) : MadeBy ways m
  | condition {id : Nat} {name predicate shown : Value} {body : Morph} {settings : CacheSettings}
      {m : Morph} (way : ways .condition) (part : MadeBy ways body)
      (made : conditionalOn id name predicate (shown, some body) settings = .ok m) : MadeBy ways m
  | sameness {id : Nat} {name : Value} {m : Morph} (way : ways .sameness)
      (made : makeIdentity id name = .ok m) : MadeBy ways m
  | succession {id : Nat} {a b : Morph} {name : Value} {m : Morph} (way : ways .succession)
      (first : MadeBy ways a) (second : MadeBy ways b) (made : sequence id a b name = .ok m) :
      MadeBy ways m
  | fusion {id : Nat} {name : Text} {members : List Stage} {m : Morph} (way : ways .fusion)
      (parts : ∀ s ∈ members, MadeBy ways s.morph) (made : fusedMorph id name members = .ok m) :
      MadeBy ways m
  | build {name : Name} {stages : List Stage} {fusing : Bool} {m : Morph} (way : ways .build)
      (parts : ∀ s ∈ stages, MadeBy ways s.morph)
      (built : Builder.Builds name stages fusing m) : MadeBy ways m

theorem MadeBy.made {ways : Making → Prop} {m : Morph} (made : m.MadeBy ways) : m.Made := by
  induction made with
  | function _ made => exact .function made
  | composition _ _ made ih => exact .composition ih made
  | condition _ _ made ih => exact .condition ih made
  | sameness _ made => exact .sameness made
  | succession _ _ _ made ih ih' => exact .succession ih ih' made
  | fusion _ _ made ih => exact .fusion ih made
  | build _ _ built ih => exact .build ih built

end Morph

namespace Fusion

/-- A fused stage that runs some of the declared ones, all of which could be fused. -/
def Replaces (declared : List Stage) (s : Stage) : Prop :=
  ∃ id name members, (∀ t ∈ members, t ∈ declared ∧ isCandidate t.morph = true) ∧
    fusedMorph id name members = .ok s.morph

/-- Every stage that a pass leaves was declared, or runs declared ones. -/
theorem mem_of_fuse {firstId : Nat} {stages result : List Stage} {report : FusionReport}
    (fused : fuse firstId stages = .ok (result, report)) :
    ∀ s ∈ result, s ∈ stages ∨ Replaces stages s := by
  have pass := fuse_cases firstId stages
  rw [fused] at pass
  obtain ⟨pieces, laid, segmented, rfl, _⟩ := pass
  rw [← covers_of_segmented segmented]
  intro s hs
  obtain ⟨p, among, rfl⟩ := List.mem_map.mp hs
  have declared : ∀ t ∈ p.members, t ∈ pieces.flatMap Piece.members :=
    fun t ht => List.mem_flatMap.mpr ⟨p, among, ht⟩
  cases p with
  | kept s => exact Or.inl (declared s (List.mem_singleton_self s))
  | fused head members =>
    obtain ⟨_, _, candidates, id, made⟩ := laid.created head members among
    exact Or.inr ⟨id, head.name.text, members, fun t ht => ⟨declared t ht, candidates t ht⟩, made⟩

end Fusion

open Fusion

/-- Every stage that a pipeline runs was declared, or runs declared ones. -/
theorem Builder.Builds.mem_executed {name : Name} {stages : List Stage} {fusing : Bool} {m : Morph}
    (built : Builder.Builds name stages fusing m) :
    ∀ s ∈ m.executed, s ∈ stages ∨ Replaces stages s := by
  obtain ⟨_, staged, _, ran⟩ := built
  obtain ⟨switched, labels, result, fusion, _, optimized, assembled⟩ := build_eq_ok ran
  obtain ⟨head, cost, rfl, _⟩ := assemble_eq_ok assembled
  rw [Builder.optimize, staged] at optimized
  intro s hs
  split at optimized
  · exact mem_of_fuse optimized s hs
  · cases optimized
    exact Or.inl hs

theorem Builder.Builds.parts_eq {name : Name} {stages : List Stage} {fusing : Bool} {m : Morph}
    (built : Builder.Builds name stages fusing m) : m.parts = m.executed.map (·.morph) := by
  obtain ⟨head, info, result, cost, rfl, _⟩ := built.eq_pipeline
  rfl

namespace Morph

/-- What holds throughout declared stages and of every stage fused from some of them holds throughout
the stages that are run. -/
theorem throughout_executed {P : Morph → Prop} {name : Name} {stages : List Stage} {fusing : Bool}
    {m : Morph} (built : Builder.Builds name stages fusing m)
    (declared : ∀ s ∈ stages, s.morph.Throughout P)
    (fused : ∀ id name members n, (∀ t ∈ members, isCandidate t.morph = true) →
      fusedMorph id name members = .ok n → P n) :
    ∀ s ∈ m.executed, s.morph.Throughout P := by
  intro s hs
  rcases built.mem_executed s hs with kept | ⟨id, name, members, among, made⟩
  · exact declared s kept
  · have here := fused id name members s.morph (fun t ht => (among t ht).2) made
    obtain ⟨head, shape, _⟩ := fusedMorph_eq_ok made
    rw [shape] at here ⊢
    refine .intro here fun p hp => ?_
    obtain ⟨t, ht, rfl⟩ := List.mem_map.mp hp
    exact declared t (among t ht).1

end Morph

end MorphEngine
