import MorphEngine.Fusion
import MorphEngine.Proofs.Dispatch

/-!
# What fusion makes of a list of stages

Fusion keeps stages and replaces runs of at least two neighbouring candidates by one fused stage
each; it drops nothing and changes no order. A fused stage has no cache and is not asynchronous, and
its members are the very stages that it stands for.
-/

namespace MorphEngine

namespace Fusion

/-- A computation that ends well has gone well up to any point in it. -/
theorem bind_eq_ok {α β : Type} {m : Except Fault α} {k : α → Except Fault β} {b : β}
    (h : m >>= k = .ok b) : ∃ a, m = .ok a ∧ k a = .ok b := by
  cases m with
  | error f => cases h
  | ok a => exact ⟨a, rfl, h⟩

end Fusion

theorem Name.ofValue?_given (n : Name) : Name.ofValue? n.given = some n := by
  unfold Name.ofValue?
  split
  · next t reads =>
    have same : t = n.text := Option.some.inj (reads.symm.trans n.reads)
    subst same
    rfl
  · next reads =>
    rw [n.reads] at reads
    cases reads

/-- A name is read as itself. -/
theorem Morph.readName_given {n n' : Name} (read : Morph.readName n.given = .ok n') : n' = n := by
  rw [Morph.readName, n.ofValue?_given] at read
  by_cases blank : n.isEmpty = true
  · simp only [blank, if_true] at read
    obtain ⟨shown, _, refused⟩ := Fusion.bind_eq_ok read
    cases refused
  · simp only [blank, if_false, Bool.false_eq_true] at read
    cases read
    rfl

namespace Fusion

/-- What the head of a fused stage and its members have to be. -/
structure IsGroup (head : Header) (members : List Stage) : Prop where
  many : 2 ≤ members.length
  candidates : ∀ s ∈ members, isCandidate s.morph = true
  bare : head.cache = none
  direct : head.metadata.isAsync = some false

/-- The second list of stages comes from the first by fusing runs of candidates. -/
inductive Fuses : List Stage → List Stage → Prop
  | nil : Fuses [] []
  | keep (s : Stage) {declared result : List Stage} (rest : Fuses declared result) :
      Fuses (s :: declared) (s :: result)
  | group {head : Header} {members : List Stage} (fused : IsGroup head members) (label : Name)
      {declared result : List Stage} (rest : Fuses declared result) :
      Fuses (members ++ declared) (.mk label (.fused head members) :: result)

/-- A header holds what it was made from. -/
theorem makeHeader_eq_ok {id : Nat} {name : Value} {m : MorphMetadata} {settings : CacheSettings}
    {head : Header} (made : Morph.makeHeader id name m settings = .ok head) :
    head.id = id ∧ Morph.readName name = .ok head.name ∧ head.metadata = m := by
  obtain ⟨n, read, made⟩ := bind_eq_ok made
  obtain ⟨slot, _, made⟩ := bind_eq_ok made
  cases made
  exact ⟨rfl, read, rfl⟩

/-- What is not declared memoizable has no cache. -/
theorem cache_eq_none {head : Header} (h : head.metadata.memoizable = false) :
    head.cache = none := by
  cases slot : head.cache with
  | none => rfl
  | some s =>
    have declared := head.cacheable (by rw [slot]; rfl)
    rw [MorphMetadata.isCacheable, h, Bool.and_false] at declared
    cases declared

theorem cache_eq_none_of_isCandidate {m : Morph} (h : isCandidate m = true) :
    m.head.cache = none := by
  have notMemoizable : m.isMemoizable = false := by
    rw [isCandidate, Bool.and_eq_true, Bool.and_eq_true, Bool.not_eq_true'] at h
    exact h.1.2
  exact cache_eq_none notMemoizable

theorem isAsync_of_isCandidate {m : Morph} (h : isCandidate m = true) : m.isAsync = false := by
  rw [isCandidate, Bool.and_eq_true, Bool.and_eq_true, Bool.not_eq_true', Bool.not_eq_true'] at h
  exact h.2

theorem IsGroup.members_bare {head : Header} {members : List Stage} (fused : IsGroup head members) :
    ∀ s ∈ members, s.morph.head.cache = none :=
  fun s hs => cache_eq_none_of_isCandidate (fused.candidates s hs)

theorem IsGroup.members_ne_nil {head : Header} {members : List Stage}
    (fused : IsGroup head members) : members ≠ [] := by
  rintro rfl
  exact absurd fused.many (by decide)

theorem fusedMorph_eq_ok {id : Nat} {name : Text} {members : List Stage} {m : Morph}
    (made : fusedMorph id name members = .ok m) :
    ∃ head, m = .fused head members ∧ head.cache = none ∧
      head.metadata.isAsync = some false ∧ head.metadata.memoizable = false := by
  obtain ⟨total, _, made⟩ := bind_eq_ok made
  obtain ⟨cost, _, made⟩ := bind_eq_ok made
  obtain ⟨head, header, made⟩ := bind_eq_ok made
  cases made
  obtain ⟨_, _, declared⟩ := makeHeader_eq_ok header
  have memoizable : head.metadata.memoizable = false := by
    rw [declared]
    rfl
  exact ⟨head, rfl, cache_eq_none memoizable, by rw [declared], memoizable⟩

/-- Fusion makes a list of stages neither more nor less asynchronous. -/
theorem Fuses.any_isAsync {declared result : List Stage} (fuses : Fuses declared result) :
    result.any (fun s => s.morph.isAsync) = declared.any (fun s => s.morph.isAsync) := by
  induction fuses with
  | nil => rfl
  | keep s _ ih => simp only [List.any_cons, ih]
  | @group head members fused label declared result rest ih =>
    have membersDirect : members.any (fun s => s.morph.isAsync) = false := by
      rw [List.any_eq_false]
      intro s hs
      have candidate := fused.candidates s hs
      rw [isCandidate, Bool.and_eq_true, Bool.not_eq_true'] at candidate
      exact Bool.eq_false_iff.mp candidate.2
    have stageDirect : (Stage.mk label (.fused head members)).morph.isAsync = false := by
      simp only [Stage.morph, Morph.isAsync, fused.direct, Option.getD_some]
    rw [List.any_cons, List.any_append, membersDirect, stageDirect, ih]

end Fusion

end MorphEngine
