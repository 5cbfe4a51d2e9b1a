import MorphEngine.Proofs.Assembly

/-!
# The morphs that there are

Every morph comes from one of the ways to make one, out of parts that were made before. The way it
was made fixes its shape and what is declared about it: one under a condition is asynchronous just
when what it wraps is, and is never fused.
-/

namespace MorphEngine

/-- What is declared cacheable has a cache, which goes by the part of the context that is declared to
matter. -/
def Header.CachesAsDeclared (head : Header) : Prop :=
  head.metadata.isCacheable = true →
    ∃ slot, head.cache = some slot ∧ slot.rule.projection = head.metadata.context

theorem Header.CachesAsDeclared.of_not_memoizable {head : Header}
    (not : head.metadata.memoizable = false) : head.CachesAsDeclared := by
  intro cacheable
  rw [MorphMetadata.isCacheable, not, Bool.and_false] at cacheable
  cases cacheable

namespace Morph

open Fusion

theorem cachesAsDeclared_of_makeHeader {id : Nat} {name : Value} {m : MorphMetadata}
    {settings : CacheSettings} {head : Header}
    (made : Morph.makeHeader id name m settings = .ok head) : head.CachesAsDeclared := by
  obtain ⟨n, _, made⟩ := bind_eq_ok made
  obtain ⟨slot, slotted, made⟩ := bind_eq_ok made
  cases made
  intro (cacheable : m.isCacheable = true)
  rw [Morph.cacheSlot, dif_pos cacheable] at slotted
  dsimp only at slotted
  split at slotted
  all_goals
    obtain ⟨ttl, _, slotted⟩ := bind_eq_ok slotted
    obtain ⟨maxsize, _, slotted⟩ := bind_eq_ok slotted
    obtain ⟨clock, _, slotted⟩ := bind_eq_ok slotted
    obtain ⟨limit, _, slotted⟩ := bind_eq_ok slotted
    cases slotted
    exact ⟨_, rfl, rfl⟩

/-- A cache goes by the time to live that is declared, or else by the default of the settings, and
takes its bound from these. -/
theorem slot_of_makeHeader {id : Nat} {name : Value} {d : MorphMetadata} {settings : CacheSettings}
    {head : Header} {slot : CacheSlot} (made : makeHeader id name d settings = .ok head)
    (cached : head.cache = some slot) :
    d.cacheTtl.elim settings.defaultTtl (fun q => .ok q.given) = .ok slot.rule.ttl ∧
      CacheRule.readLimit slot.maxsize = .ok slot.rule.limit := by
  obtain ⟨n, _, made⟩ := bind_eq_ok made
  obtain ⟨owned, slotted, made⟩ := bind_eq_ok made
  cases made
  by_cases cacheable : d.isCacheable = true
  · rw [cacheSlot, dif_pos cacheable] at slotted
    dsimp only at slotted
    split at slotted
    all_goals
      obtain ⟨ttl, given, slotted⟩ := bind_eq_ok slotted
      obtain ⟨maxsize, _, slotted⟩ := bind_eq_ok slotted
      obtain ⟨clock, _, slotted⟩ := bind_eq_ok slotted
      obtain ⟨limit, read, slotted⟩ := bind_eq_ok slotted
      cases slotted
      cases cached
      rw [‹d.cacheTtl = _›]
      exact ⟨given, read⟩
  · rw [cacheSlot, dif_neg cacheable] at slotted
    cases slotted
    cases cached

theorem ofFunction_eq_ok {id : Nat} {name fn : Value} {d : MorphMetadata}
    {settings : CacheSettings} {m : Morph} (made : ofFunction id name fn d settings = .ok m) :
    ∃ head, m = .simple head fn ∧ makeHeader id name d settings = .ok head := by
  unfold ofFunction at made
  split at made
  · obtain ⟨head, header, made⟩ := bind_eq_ok made
    cases made
    exact ⟨head, rfl, header⟩
  · obtain ⟨_, _, made⟩ := bind_eq_ok made
    obtain ⟨_, _, made⟩ := bind_eq_ok made
    obtain ⟨_, refused, _⟩ := bind_eq_ok made
    cases refused

theorem create_eq_ok {id : Nat} {name fn metadata : Value} {settings : CacheSettings}
    {options : Fields} {m : Morph} (made : create id name fn metadata settings options = .ok m) :
    ∃ d head, MorphMetadata.coerce metadata options = .ok d ∧ m = .simple head fn ∧
      makeHeader id name d settings = .ok head := by
  obtain ⟨d, coerced, made⟩ := bind_eq_ok made
  obtain ⟨head, rfl, header⟩ := ofFunction_eq_ok made
  exact ⟨d, head, coerced, rfl, header⟩

theorem conditionalOn_eq_ok {id : Nat} {name predicate shown : Value} {body : Morph}
    {settings : CacheSettings} {m : Morph}
    (made : conditionalOn id name predicate (shown, some body) settings = .ok m) :
    ∃ head, m = .conditional head predicate body ∧ head.id = id ∧
      head.metadata.isAsync = some body.isAsync ∧ head.metadata.fusible = false ∧
      head.metadata.memoizable = false := by
  unfold conditionalOn at made
  dsimp only at made
  split at made
  · obtain ⟨_, _, made⟩ := bind_eq_ok made
    obtain ⟨_, _, made⟩ := bind_eq_ok made
    obtain ⟨head, header, made⟩ := bind_eq_ok made
    cases made
    obtain ⟨numbered, _, declared⟩ := makeHeader_eq_ok header
    exact ⟨head, rfl, numbered, by rw [declared], by rw [declared]; rfl, by rw [declared]; rfl⟩
  · obtain ⟨_, _, made⟩ := bind_eq_ok made
    obtain ⟨_, refused, _⟩ := bind_eq_ok made
    cases refused

theorem makeIdentity_eq_ok {id : Nat} {name : Value} {m : Morph}
    (made : makeIdentity id name = .ok m) :
    ∃ head, m = .identity head ∧ head.id = id ∧ head.metadata.isAsync = none ∧
      head.metadata.memoizable = false := by
  obtain ⟨head, header, made⟩ := bind_eq_ok made
  cases made
  obtain ⟨numbered, _, declared⟩ := makeHeader_eq_ok header
  exact ⟨head, rfl, numbered, by rw [declared]; rfl, by rw [declared]; rfl⟩

theorem sequence_eq_ok {id : Nat} {a b : Morph} {name : Value} {m : Morph}
    (made : sequence id a b name = .ok m) :
    ∃ head, m = .composed head [a, b] none ∧ head.CachesAsDeclared := by
  obtain ⟨_, _, made⟩ := bind_eq_ok made
  obtain ⟨_, _, made⟩ := bind_eq_ok made
  split at made
  all_goals
    obtain ⟨_, _, made⟩ := bind_eq_ok made
    obtain ⟨_, _, made⟩ := bind_eq_ok made
    obtain ⟨head, header, made⟩ := bind_eq_ok made
    cases made
    exact ⟨head, rfl, cachesAsDeclared_of_makeHeader header⟩

theorem exists_of_mem_mapM {α β : Type} {f : α → Except Fault β} {xs : List α} {ys : List β}
    (read : xs.mapM f = .ok ys) : ∀ y ∈ ys, ∃ x ∈ xs, f x = .ok y := by
  induction xs generalizing ys with
  | nil =>
    cases read
    simp
  | cons x xs ih =>
    rw [List.mapM_cons] at read
    obtain ⟨z, first, read⟩ := bind_eq_ok read
    obtain ⟨zs, others, read⟩ := bind_eq_ok read
    cases read
    intro y hy
    rcases List.mem_cons.mp hy with rfl | hy
    · exact ⟨x, List.mem_cons_self, first⟩
    · obtain ⟨x', hx', sent⟩ := ih others y hy
      exact ⟨x', List.mem_cons_of_mem _ hx', sent⟩

/-- A composition declares what is read off its parts, or else what can be read from what was given. -/
theorem compose_reads {id : Nat} {name : Value} {steps : List (Value × Option Morph)}
    {finish metadata : Value} {settings : CacheSettings} {m : Morph}
    (made : compose id name steps finish metadata settings = .ok m) :
    ∃ parts last read d head, (∀ p ∈ parts, ∃ s ∈ steps, s.2 = some p) ∧
      composedMetadata parts last metadata = .ok read ∧
      (read = .ok d ∨ ∃ v, read = .error v ∧ MorphMetadata.coerce v [] = .ok d) ∧
      makeHeader id name d settings = .ok head ∧ m = .composed head parts last := by
  obtain ⟨parts, sent, made⟩ := bind_eq_ok made
  have given : ∀ p ∈ parts, ∃ s ∈ steps, s.2 = some p := by
    intro p hp
    obtain ⟨s, hs, sent⟩ := exists_of_mem_mapM sent p hp
    refine ⟨s, hs, ?_⟩
    cases given : s.2 with
    | some q =>
      rw [given] at sent
      cases sent
      rfl
    | none =>
      rw [given] at sent
      obtain ⟨_, _, refused⟩ := bind_eq_ok sent
      obtain ⟨_, _, refused⟩ := bind_eq_ok refused
      cases refused
  -- Both ways to read the finish go on in the same way.
  have composes : ∀ last k,
      (∀ d, k (.ok d) = do return composed (← makeHeader id name d settings) parts last) →
      (∀ v, k (.error v) = do
        discard (readName name)
        return composed (← makeHeader id name (← MorphMetadata.coerce v []) settings) parts last) →
      (composedMetadata parts last metadata >>= k) = .ok m →
      ∃ read d head, composedMetadata parts last metadata = .ok read ∧
        (read = .ok d ∨ ∃ v, read = .error v ∧ MorphMetadata.coerce v [] = .ok d) ∧
        makeHeader id name d settings = .ok head ∧ m = .composed head parts last := by
    intro last k reads fails made
    obtain ⟨read, derived, made⟩ := bind_eq_ok made
    cases read with
    | ok d =>
      rw [reads] at made
      obtain ⟨head, header, made⟩ := bind_eq_ok made
      cases made
      exact ⟨_, d, head, derived, Or.inl rfl, header, rfl⟩
    | error v =>
      rw [fails] at made
      obtain ⟨_, _, made⟩ := bind_eq_ok made
      obtain ⟨d, coerced, made⟩ := bind_eq_ok made
      obtain ⟨head, header, made⟩ := bind_eq_ok made
      cases made
      exact ⟨_, d, head, derived, Or.inr ⟨v, rfl, coerced⟩, header, rfl⟩
  dsimp only at made
  split at made
  · obtain ⟨last, _, made⟩ := bind_eq_ok made
    obtain ⟨read, d, head, rest⟩ := composes last _ (fun _ => rfl) (fun _ => rfl) made
    exact ⟨parts, last, read, d, head, given, rest⟩
  · split at made
    · obtain ⟨last, _, made⟩ := bind_eq_ok made
      obtain ⟨read, d, head, rest⟩ := composes last _ (fun _ => rfl) (fun _ => rfl) made
      exact ⟨parts, last, read, d, head, given, rest⟩
    · obtain ⟨_, _, made⟩ := bind_eq_ok made
      obtain ⟨_, refused, _⟩ := bind_eq_ok made
      cases refused

theorem compose_eq_ok {id : Nat} {name : Value} {steps : List (Value × Option Morph)}
    {finish metadata : Value} {settings : CacheSettings} {m : Morph}
    (made : compose id name steps finish metadata settings = .ok m) :
    ∃ head parts last, m = .composed head parts last ∧ head.CachesAsDeclared ∧
      ∀ p ∈ parts, ∃ s ∈ steps, s.2 = some p := by
  obtain ⟨parts, last, _, d, head, given, _, _, header, rfl⟩ := compose_reads made
  exact ⟨head, parts, last, rfl, cachesAsDeclared_of_makeHeader header, given⟩

/-- A morph that was made from parts that were made. -/
inductive Made : Morph → Prop
  | function {id : Nat} {name fn metadata : Value} {settings : CacheSettings} {options : Fields}
      {m : Morph} (made : create id name fn metadata settings options = .ok m) : Made m
  | composition {id : Nat} {name : Value} {steps : List (Value × Option Morph)}
      {finish metadata : Value} {settings : CacheSettings} {m : Morph}
      (parts : ∀ s ∈ steps, ∀ p, s.2 = some p → Made p)
      (made : compose id name steps finish metadata settings = .ok m) : Made m
  | condition {id : Nat} {name predicate shown : Value} {body : Morph} {settings : CacheSettings}
      {m : Morph} (part : Made body)
      (made : conditionalOn id name predicate (shown, some body) settings = .ok m) : Made m
  | sameness {id : Nat} {name : Value} {m : Morph} (made : makeIdentity id name = .ok m) : Made m
  | succession {id : Nat} {a b : Morph} {name : Value} {m : Morph} (first : Made a)
      (second : Made b) (made : sequence id a b name = .ok m) : Made m
  | fusion {id : Nat} {name : Text} {members : List Stage} {m : Morph}
      (parts : ∀ s ∈ members, Made s.morph) (made : fusedMorph id name members = .ok m) : Made m
  | build {name : Name} {stages : List Stage} {fusing : Bool} {m : Morph}
      (parts : ∀ s ∈ stages, Made s.morph) (built : Builder.Builds name stages fusing m) : Made m

mutual

/-- What a morph is declared to be agrees with its parts. -/
def IsCoherent : Morph → Prop
  | simple _ _ => True
  | composed _ steps _ => AreCoherent steps
  | conditional head _ body =>
    head.cache = none ∧ head.metadata.fusible = false ∧
      head.metadata.isAsync = some body.isAsync ∧ IsCoherent body
  | identity head => head.cache = none ∧ head.metadata.isAsync = none
  | fused head members =>
    head.cache = none ∧ head.metadata.isAsync = some false ∧ StagesCoherent members
  | pipeline head _ stages _ =>
    head.cache = none ∧ head.metadata.isAsync = some (stages.any fun s => s.morph.isAsync) ∧
      StagesCoherent stages

def AreCoherent : List Morph → Prop
  | [] => True
  | m :: rest => IsCoherent m ∧ AreCoherent rest

def StagesCoherent : List Stage → Prop
  | [] => True
  | .mk _ m :: rest => IsCoherent m ∧ StagesCoherent rest

end

theorem areCoherent_iff (ms : List Morph) : AreCoherent ms ↔ ∀ m ∈ ms, m.IsCoherent := by
  induction ms with
  | nil => simp [AreCoherent]
  | cons m rest ih => rw [AreCoherent, ih, List.forall_mem_cons]

theorem stagesCoherent_iff (stages : List Stage) :
    StagesCoherent stages ↔ ∀ s ∈ stages, s.morph.IsCoherent := by
  induction stages with
  | nil => simp [StagesCoherent]
  | cons s rest ih =>
    cases s with
    | mk label m =>
      rw [StagesCoherent, ih, List.forall_mem_cons]
      rfl

/-- Fusion keeps stages coherent. -/
theorem stagesCoherent_of_fuses {declared result : List Stage} (fuses : Fuses declared result)
    (coherent : ∀ s ∈ declared, s.morph.IsCoherent) : ∀ s ∈ result, s.morph.IsCoherent := by
  induction fuses with
  | nil => exact coherent
  | @keep s declared result rest ih =>
    rw [List.forall_mem_cons] at coherent ⊢
    exact ⟨coherent.1, ih coherent.2⟩
  | @group head members fused label declared result rest ih =>
    rw [List.forall_mem_append] at coherent
    rw [List.forall_mem_cons]
    exact ⟨⟨fused.bare, fused.direct, (stagesCoherent_iff members).mpr coherent.1⟩, ih coherent.2⟩

/-- Morphs that were made are coherent. -/
theorem Made.isCoherent {m : Morph} (made : m.Made) : m.IsCoherent := by
  induction made with
  | function made =>
    obtain ⟨d, head, _, rfl, _⟩ := create_eq_ok made
    trivial
  | composition parts made ih =>
    obtain ⟨head, steps, last, rfl, _, given⟩ := compose_eq_ok made
    refine (areCoherent_iff steps).mpr fun p hp => ?_
    obtain ⟨s, hs, sent⟩ := given p hp
    exact ih s hs p sent
  | condition part made ih =>
    obtain ⟨head, rfl, _, async, fusible, memoizable⟩ := conditionalOn_eq_ok made
    exact ⟨cache_eq_none memoizable, fusible, async, ih⟩
  | sameness made =>
    obtain ⟨head, rfl, _, async, memoizable⟩ := makeIdentity_eq_ok made
    exact ⟨cache_eq_none memoizable, async⟩
  | succession first second made first_ih second_ih =>
    obtain ⟨head, rfl, _⟩ := sequence_eq_ok made
    exact ⟨first_ih, second_ih, trivial⟩
  | @fusion id name members m parts made ih =>
    obtain ⟨head, rfl, bare, direct, _⟩ := fusedMorph_eq_ok made
    exact ⟨bare, direct, (stagesCoherent_iff members).mpr ih⟩
  | @build name stages fusing m parts built ih =>
    obtain ⟨head, info, result, cost, rfl, _, _, declared, runs⟩ := built.eq_pipeline
    refine ⟨cache_eq_none (by rw [declared]; rfl), by rw [declared]; rfl, ?_⟩
    rw [stagesCoherent_iff]
    cases fusing with
    | true => exact stagesCoherent_of_fuses runs ih
    | false =>
      have kept : result = stages := runs
      rw [kept]
      exact ih

/-- Of the morphs that were made, every one that is declared cacheable has its cache. -/
theorem Made.cachesAsDeclared {m : Morph} (made : m.Made) : m.head.CachesAsDeclared := by
  cases made with
  | function made =>
    obtain ⟨d, head, _, rfl, header⟩ := create_eq_ok made
    exact cachesAsDeclared_of_makeHeader header
  | composition parts made =>
    obtain ⟨head, steps, last, rfl, caches, _⟩ := compose_eq_ok made
    exact caches
  | condition part made =>
    obtain ⟨head, rfl, _, _, _, memoizable⟩ := conditionalOn_eq_ok made
    exact .of_not_memoizable memoizable
  | sameness made =>
    obtain ⟨head, rfl, _, _, memoizable⟩ := makeIdentity_eq_ok made
    exact .of_not_memoizable memoizable
  | succession first second made =>
    obtain ⟨head, rfl, caches⟩ := sequence_eq_ok made
    exact caches
  | fusion parts made =>
    obtain ⟨head, rfl, _, _, memoizable⟩ := fusedMorph_eq_ok made
    exact .of_not_memoizable memoizable
  | build parts built =>
    obtain ⟨head, info, result, cost, rfl, _, _, declared, _⟩ := built.eq_pipeline
    exact .of_not_memoizable (by rw [Morph.head, declared]; rfl)

/-- A morph that was made and is not asynchronous never puts off its work to a later awaiting. -/
theorem transform_replies_value {U : Type} (h : Host U) (context : Value) {m : Morph}
    (coherent : m.IsCoherent) (direct : m.isAsync = false) (v : Value) :
    (transform h m v context).ResultsIn fun reply => ∃ u, reply = .value u := by
  cases m with
  | simple head fn =>
    rw [transform]
    exact .map fun u => ⟨u, rfl⟩
  | composed head steps finish =>
    rw [transform, direct]
    refine .bind fun u => ?_
    cases finish with
    | none => exact .pure ⟨u, rfl⟩
    | some fn => exact .map fun u => ⟨u, rfl⟩
  | conditional head predicate body =>
    have bodyDirect : ¬ body.isAsync = true := by
      have declared : head.metadata.isAsync = some body.isAsync := coherent.2.2.1
      simpa only [isAsync, declared, Option.getD_some, Bool.not_eq_true] using direct
    simp only [transform, if_neg bodyDirect]
    refine .bind fun holds => .bind fun b => ?_
    split
    · exact .map fun u => ⟨u, rfl⟩
    · exact .pure ⟨v, rfl⟩
  | identity head => exact .pure ⟨v, rfl⟩
  | fused head members =>
    rw [transform]
    exact .map fun u => ⟨u, rfl⟩
  | pipeline head info stages declared =>
    have single : ¬ head.metadata.isAsync.getD false = true := by
      simpa only [isAsync, Bool.not_eq_true] using direct
    rw [transform, if_neg single]
    exact .map fun u => ⟨u, rfl⟩

end Morph

end MorphEngine
