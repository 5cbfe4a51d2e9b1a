import MorphEngine.Proofs.Asynchrony.Shape
import MorphEngine.Proofs.Chains

/-!
# Nothing is left to be awaited

What holds of the worlds of a run, and of the faults that it may end in, is kept by every step of the
engine when functions, caches and keys keep it. A tree that is as asynchronous as its functions and
parts then hands on nothing but results that are there: on the direct path every transformation
replies at once, and on the deferred path every reply has been awaited. The refusal of the direct path
is never raised.
-/

namespace MorphEngine

variable {V α β : Type} {I : World V → Prop} {E : Fault → Prop}

/-- A value that is there, and does not have to be awaited. -/
def Value.IsThere (v : Value) : Prop := v.isAwaitable = false

namespace Engine

/-- From worlds where an invariant holds, a computation keeps it, and comes to results of one kind or
faults of another. -/
structure Upholds (I : World V → Prop) (E : Fault → Prop) (P : α → Prop) (m : Engine V α) : Prop where
  keeps : ∀ w, I w → I (m.runFrom w).2
  results : ∀ w a, I w → (m.runFrom w).1 = .ok a → P a
  faults : ∀ w f, I w → (m.runFrom w).1 = .error f → E f

variable {P : α → Prop} {Q : β → Prop} {m : Engine V α}

theorem Upholds.pure {a : α} (holds : P a) : Upholds I E P (Pure.pure a) where
  keeps _ start := start
  results _ _ _ same := Except.ok.inj same ▸ holds
  faults _ _ _ same := nomatch same

theorem Upholds.ofExcept {r : Except Fault α} (results : ∀ a, r = .ok a → P a)
    (faults : ∀ f, r = .error f → E f) : Upholds I E P (Engine.ofExcept r) where
  keeps _ start := start
  results _ a _ := results a
  faults _ f _ := faults f

theorem Upholds.of_results {P' : α → Prop} (upholds : Upholds I E P m) (results : m.ResultsIn P') :
    Upholds I E P' m where
  keeps := upholds.keeps
  results w a _ ended := results w a (m.runFrom w).2 (Prod.ext ended rfl)
  faults := upholds.faults

theorem Upholds.bind {k : α → Engine V β} (first : Upholds I E P m)
    (next : ∀ a, P a → Upholds I E Q (k a)) : Upholds I E Q (m >>= k) := by
  have ends (w : World V) (start : I w) :
      (∃ f w', (m >>= k).runFrom w = (.error f, w') ∧ I w' ∧ E f) ∨
        ∃ a w', (m >>= k).runFrom w = (k a).runFrom w' ∧ I w' ∧ P a := by
    have kept := first.keeps w start
    rcases ran : m.runFrom w with ⟨f | a, w'⟩
    · rw [ran] at kept
      exact Or.inl ⟨f, w', runFrom_bind_error ran, kept, first.faults w f start (by rw [ran])⟩
    · rw [ran] at kept
      exact Or.inr ⟨a, w', runFrom_bind_ok ran, kept, first.results w a start (by rw [ran])⟩
  refine ⟨fun w start => ?_, fun w b start ended => ?_, fun w g start ended => ?_⟩
  · rcases ends w start with ⟨f, w', ran, kept, _⟩ | ⟨a, w', ran, kept, holds⟩
    · rw [ran]
      exact kept
    · rw [ran]
      exact (next a holds).keeps w' kept
  · rcases ends w start with ⟨f, w', ran, _⟩ | ⟨a, w', ran, kept, holds⟩
    · rw [ran] at ended
      cases ended
    · rw [ran] at ended
      exact (next a holds).results w' b kept ended
  · rcases ends w start with ⟨f, w', ran, _, legitimate⟩ | ⟨a, w', ran, kept, holds⟩
    · rw [ran] at ended
      cases ended
      exact legitimate
    · rw [ran] at ended
      exact (next a holds).faults w' g kept ended

theorem Upholds.map {g : α → β} (first : Upholds I E P m) (sent : ∀ a, P a → Q (g a)) :
    Upholds I E Q (g <$> m) := by
  rw [map_eq_pure_bind]
  exact first.bind fun a holds => .pure (sent a holds)

theorem Upholds.mapFault {g : Fault → Fault} (upholds : Upholds I E P m)
    (sent : ∀ f, E f → E (g f)) : Upholds I E P (Engine.mapFault g m) := by
  refine ⟨fun w start => ?_, fun w a start ended => ?_, fun w f start ended => ?_⟩
  · rw [runFrom_mapFault]
    exact upholds.keeps w start
  · rw [runFrom_mapFault] at ended
    rcases ran : (m.runFrom w).1 with f | b
    · rw [ran] at ended
      cases ended
    · rw [ran] at ended
      cases ended
      exact upholds.results w _ start ran
  · rw [runFrom_mapFault] at ended
    rcases ran : (m.runFrom w).1 with f' | b
    · rw [ran] at ended
      cases ended
      exact sent f' (upholds.faults w f' start ran)
    · rw [ran] at ended
      cases ended

theorem Upholds.foldlM {γ : Type} {f : α → γ → Engine V α} {xs : List γ}
    (each : ∀ x ∈ xs, ∀ a, P a → Upholds I E P (f a x)) {a : α} (holds : P a) :
    Upholds I E P (xs.foldlM f a) := by
  induction xs generalizing a with
  | nil =>
    rw [List.foldlM_nil]
    exact .pure holds
  | cons x rest ih =>
    rw [List.forall_mem_cons] at each
    rw [List.foldlM_cons]
    exact (each.1 a holds).bind fun b holds => ih each.2 holds

end Engine

open Engine

/-- What a host has to keep of an invariant and of the faults that are allowed, and what the caches
and keys of the engine have to keep of them against it. -/
structure Host.Conducts (k : Host V) (I : World V → Prop) (E : Fault → Prop) : Prop where
  call : ∀ fn v context, v.IsThere → Upholds I E (fun _ => True) (k.call fn v context)
  await : ∀ v, Upholds I E (fun _ => True) (k.await v)
  key : ∀ head v context, Upholds I E (fun _ => True) (Morph.cacheKey k head v context)
  lookup : ∀ head key, Upholds I E (fun hit => ∀ u, hit = some u → u.IsThere)
    (Morph.cached k head key)
  store : ∀ head key v, v.IsThere → Upholds I E (fun _ => True) (Morph.remember k head key v)
  judge : ∀ (v : Value) (f : Fault), (v.resolve k.cells).truth = .error f → E f
  blame : ∀ f label context, E f → E (f.blame label context)
  leave : ∀ f, E f → E f.leaveDeferred

namespace Morph

/-- A function whose answers are there, in the end when it is asynchronous and at once when not. -/
structure AnswersInTheEnd (k : Host V) (fn : Value) : Prop where
  direct : isAsyncFunction fn = false →
    ∀ v context, (k.call fn v context).ResultsIn Value.IsThere
  deferred : isAsyncFunction fn = true →
    ∀ v context, (k.call fn v context >>= fun u => settle k (.value u)).ResultsIn Value.IsThere

/-- A transformation that replies at once. -/
def RepliesAtOnceWith (reply : Reply V) : Prop := ∃ u : Value, reply = .value u ∧ u.IsThere

section Run

variable {k : Host V} (conducts : k.Conducts I E)

theorem callOnce_upholds (conducts : k.Conducts I E) (head : Header) (label : Name) (context : Value)
    {transform : Engine V (Reply V)} (runs : Upholds I E RepliesAtOnceWith transform) :
    Upholds I E Value.IsThere (callOnce head label context transform) := by
  refine (runs.mapFault fun f => conducts.blame f label context).bind ?_
  rintro _ ⟨u, rfl, there⟩
  dsimp only
  rw [if_neg (Bool.eq_false_iff.mp there)]
  exact .pure there

theorem settle_upholds {reply : Reply V} (replied : RepliesAtOnceWith reply) :
    Upholds I E Value.IsThere (settle k reply) := by
  obtain ⟨u, rfl, there⟩ := replied
  simp only [settle]
  rw [if_neg (Bool.eq_false_iff.mp there)]
  exact .pure there

include conducts

theorem throughCache_upholds (head : Header) (v context : Value) {run : Engine V Value}
    (runs : Upholds I E Value.IsThere run) :
    Upholds I E Value.IsThere (throughCache k head v context run) := by
  refine (conducts.key head v context).bind fun key _ => ?_
  refine (conducts.lookup head key).bind fun hit held => ?_
  cases hit with
  | some u => exact .pure (held u rfl)
  | none => exact runs.bind fun u there => (conducts.store head key u there).bind fun _ _ => .pure there

theorem execute_upholds (head : Header) (label : Name) (v context : Value)
    {transform : Engine V (Reply V)} (runs : Upholds I E RepliesAtOnceWith transform) :
    Upholds I E Value.IsThere (execute k head label v context transform) :=
  throughCache_upholds conducts head v context (callOnce_upholds conducts head label context runs)

theorem executeDeferred_upholds (head : Header) (label : Name) (v context : Value)
    {transform : Engine V (Reply V)}
    (runs : Upholds I E Value.IsThere (transform >>= settle k)) :
    Upholds I E Value.IsThere (executeDeferred k head label v context transform) := by
  refine (throughCache_upholds conducts head v context ?_).mapFault conducts.leave
  exact runs.mapFault fun f => conducts.blame f label context

theorem call_upholds {fn v : Value} (context : Value) (answers : AnswersInTheEnd k fn)
    (direct : isAsyncFunction fn = false) (there : v.IsThere) :
    Upholds I E Value.IsThere (k.call fn v context) :=
  (conducts.call fn v context there).of_results (answers.direct direct v context)

theorem awaitedCall_upholds {fn v : Value} (context : Value) (answers : AnswersInTheEnd k fn)
    (there : v.IsThere) :
    Upholds I E Value.IsThere (k.call fn v context >>= fun u => settle k (.value u)) := by
  cases async : isAsyncFunction fn with
  | false =>
    refine (call_upholds conducts context answers async there).bind fun u there => ?_
    exact settle_upholds ⟨u, rfl, there⟩
  | true =>
    have settles (u : Value) : Upholds I E (fun _ => True) (settle k (.value u)) := by
      simp only [settle]
      split
      · exact conducts.await u
      · exact .pure trivial
    exact ((conducts.call fn v context there).bind fun u _ => settles u).of_results
      (answers.deferred async v context)

/-- A morph that is not asynchronous replies at once, and on the deferred path what has been awaited
is there. -/
structure HandsOn (k : Host V) (I : World V → Prop) (E : Fault → Prop) (context : Value)
    (m : Morph) : Prop where
  direct : m.isAsync = false →
    ∀ v, v.IsThere → Upholds I E RepliesAtOnceWith (transform k m v context)
  awaited : ∀ v, v.IsThere → Upholds I E Value.IsThere (transform k m v context >>= settle k)

omit conducts in
theorem HandsOn.of_direct {context : Value} {m : Morph}
    (direct : ∀ v, v.IsThere → Upholds I E RepliesAtOnceWith (transform k m v context)) :
    HandsOn k I E context m where
  direct _ := direct
  awaited v there := (direct v there).bind fun _ => settle_upholds

theorem HandsOn.execute {context : Value} {m : Morph} (handsOn : HandsOn k I E context m)
    (direct : m.isAsync = false) (label : Name) {v : Value} (there : v.IsThere) :
    Upholds I E Value.IsThere (execute k m.head label v context (transform k m v context)) :=
  execute_upholds conducts m.head label v context (handsOn.direct direct v there)

theorem HandsOn.executeDeferred {context : Value} {m : Morph} (handsOn : HandsOn k I E context m)
    (label : Name) {v : Value} (there : v.IsThere) :
    Upholds I E Value.IsThere
      (executeDeferred k m.head label v context (transform k m v context)) :=
  executeDeferred_upholds conducts m.head label v context (handsOn.awaited v there)

theorem runSteps_upholds {context : Value} {steps : List Morph}
    (each : ∀ m ∈ steps, HandsOn k I E context m) (direct : ∀ m ∈ steps, m.isAsync = false)
    {v : Value} (there : v.IsThere) : Upholds I E Value.IsThere (runSteps k steps v context) := by
  rw [runSteps_eq_foldlM]
  exact .foldlM (fun m hm _ => (each m hm).execute conducts (direct m hm) m.name) there

theorem runStepsDeferred_upholds {context : Value} {steps : List Morph}
    (each : ∀ m ∈ steps, HandsOn k I E context m) {v : Value} (there : v.IsThere) :
    Upholds I E Value.IsThere (runStepsDeferred k steps v context) := by
  rw [runStepsDeferred_eq_foldlM]
  exact .foldlM (fun m hm _ => (each m hm).executeDeferred conducts m.name) there

theorem runMembers_upholds {context : Value} {members : List Stage}
    (each : ∀ s ∈ members, HandsOn k I E context s.morph)
    (direct : ∀ s ∈ members, s.morph.isAsync = false) {v : Value} (there : v.IsThere) :
    Upholds I E Value.IsThere (runMembers k members v context) := by
  rw [runMembers_eq_foldlM]
  refine .foldlM (fun s hs u there => ?_) there
  exact callOnce_upholds conducts _ s.label context ((each s hs).direct (direct s hs) u there)

theorem runStages_upholds {context : Value} {stages : List Stage}
    (each : ∀ s ∈ stages, HandsOn k I E context s.morph)
    (direct : ∀ s ∈ stages, s.morph.isAsync = false) {v : Value} (there : v.IsThere) :
    Upholds I E Value.IsThere (runStages k stages v context) := by
  rw [runStages_eq_foldlM]
  exact .foldlM (fun s hs _ => (each s hs).execute conducts (direct s hs) s.label) there

theorem runStagesDeferred_upholds {context : Value} {stages : List Stage}
    (each : ∀ s ∈ stages, HandsOn k I E context s.morph) {v : Value} (there : v.IsThere) :
    Upholds I E Value.IsThere (runStagesDeferred k stages v context) := by
  rw [runStagesDeferred_eq_foldlM]
  exact .foldlM (fun s hs _ => (each s hs).executeDeferred conducts s.label) there

omit conducts in
theorem AsyncInParts.direct_parts {m : Morph} (derived : AsyncInParts m) (direct : m.isAsync = false) :
    m.runsAsync = false ∧ ∀ p ∈ m.parts, p.isAsync = false := by
  rw [derived.eq, Bool.or_eq_false_iff, List.any_eq_false] at direct
  exact ⟨direct.1, fun p part => Bool.eq_false_iff.mpr (direct.2 p part)⟩

theorem composed_handsOn {head : Header} {steps : List Morph} {finish : Option Value} {context : Value}
    (derived : AsyncInParts (composed head steps finish))
    (answers : ∀ fn, finish = some fn → AnswersInTheEnd k fn)
    (each : ∀ m ∈ steps, HandsOn k I E context m) :
    HandsOn k I E context (composed head steps finish) := by
  have direct (single : (composed head steps finish).isAsync = false) (v : Value) (there : v.IsThere) :
      Upholds I E RepliesAtOnceWith (transform k (composed head steps finish) v context) := by
    obtain ⟨own, below⟩ := derived.direct_parts single
    rw [transform, if_neg (Bool.eq_false_iff.mp single)]
    refine (runSteps_upholds conducts each below there).bind fun u there => ?_
    cases finish with
    | none => exact .pure ⟨u, rfl, there⟩
    | some fn =>
      exact (call_upholds conducts context (answers fn rfl) own there).map fun u there =>
        ⟨u, rfl, there⟩
  refine ⟨direct, fun v there => ?_⟩
  cases async : (composed head steps finish).isAsync with
  | false => exact (direct async v there).bind fun _ => settle_upholds
  | true =>
    rw [transform, if_pos async, pure_bind]
    refine Upholds.mapFault ?_ conducts.leave
    refine (runStepsDeferred_upholds conducts each there).bind fun u there => ?_
    cases finish with
    | none => exact .pure there
    | some fn => exact awaitedCall_upholds conducts context (answers fn rfl) there

theorem conditional_handsOn {head : Header} {predicate : Value} {body : Morph} {context : Value}
    (derived : AsyncInParts (conditional head predicate body))
    (below : HandsOn k I E context body) :
    HandsOn k I E context (conditional head predicate body) := by
  have asked (v : Value) (there : v.IsThere) : Upholds I E (fun _ => True) (do
      let holds ← k.call predicate v context
      Engine.ofExcept (holds.resolve k.cells).truth) :=
    (conducts.call predicate v context there).bind fun holds _ =>
      .ofExcept (fun _ _ => trivial) (conducts.judge holds)
  refine ⟨fun single v there => ?_, fun v there => ?_⟩
  · have bodyDirect : body.isAsync = false :=
      (derived.direct_parts single).2 body List.mem_cons_self
    rw [transform, ← bind_assoc, if_neg (Bool.eq_false_iff.mp bodyDirect)]
    refine (asked v there).bind fun b _ => ?_
    split
    · exact (below.execute conducts bodyDirect body.name there).map fun u there => ⟨u, rfl, there⟩
    · exact .pure ⟨v, rfl, there⟩
  · rw [transform, ← bind_assoc, bind_assoc]
    refine (asked v there).bind fun b _ => ?_
    split
    · split
      · rw [pure_bind]
        exact below.executeDeferred conducts body.name there
      · next single =>
        rw [bind_map_left]
        exact (below.execute conducts (Bool.eq_false_iff.mpr single) body.name there).bind
          fun u there => settle_upholds ⟨u, rfl, there⟩
    · rw [pure_bind]
      exact settle_upholds ⟨v, rfl, there⟩

theorem pipeline_handsOn {head : Header} {info : PipelineInfo} {stages declared : List Stage}
    {context : Value} (derived : AsyncInParts (pipeline head info stages declared))
    (each : ∀ s ∈ stages, HandsOn k I E context s.morph) :
    HandsOn k I E context (pipeline head info stages declared) := by
  have direct (single : (pipeline head info stages declared).isAsync = false) (v : Value)
      (there : v.IsThere) :
      Upholds I E RepliesAtOnceWith (transform k (pipeline head info stages declared) v context) := by
    have below := List.forall_mem_map.mp (derived.direct_parts single).2
    have unasync : ¬ head.metadata.isAsync.getD false = true := by
      simpa only [isAsync, Bool.not_eq_true] using single
    rw [transform, if_neg unasync]
    exact (runStages_upholds conducts each below there).map fun u there => ⟨u, rfl, there⟩
  refine ⟨direct, fun v there => ?_⟩
  cases async : (pipeline head info stages declared).isAsync with
  | false => exact (direct async v there).bind fun _ => settle_upholds
  | true =>
    have deferred : head.metadata.isAsync.getD false = true := by
      simpa only [isAsync] using async
    rw [transform, if_pos deferred, pure_bind]
    exact runStagesDeferred_upholds conducts each there

/-- A tree that is as asynchronous as its functions and parts hands on what is there: one case for
each kind of morph. -/
theorem handsOn_of_throughout {m : Morph} (context : Value)
    (tree : m.Throughout fun p => AsyncInParts p ∧ ∀ fn ∈ p.functions, AnswersInTheEnd k fn) :
    HandsOn k I E context m := by
  induction tree with
  | @intro m here parts ih =>
    obtain ⟨derived, answers⟩ := here
    cases m with
    | simple head fn =>
      have answered := answers fn List.mem_cons_self
      refine ⟨fun direct v there => ?_, fun v there => ?_⟩
      · rw [transform]
        refine (call_upholds conducts context answered (derived.direct_parts direct).1 there).map ?_
        exact fun u there => ⟨u, rfl, there⟩
      · rw [transform, bind_map_left]
        exact awaitedCall_upholds conducts context answered there
    | identity head => exact .of_direct fun v there => .pure ⟨v, rfl, there⟩
    | composed head steps finish =>
      refine composed_handsOn conducts derived (fun fn given => answers fn ?_) ih
      rw [functions, given]
      exact List.mem_cons_self
    | conditional head predicate body =>
      exact conditional_handsOn conducts derived (ih body List.mem_cons_self)
    | fused head members =>
      have below := List.forall_mem_map.mp (derived.direct_parts (derived.fused rfl)).2
      refine .of_direct fun v there => ?_
      rw [transform]
      exact (runMembers_upholds conducts (List.forall_mem_map.mp ih) below there).map
        fun u there => ⟨u, rfl, there⟩
    | pipeline head info stages declared =>
      exact pipeline_handsOn conducts derived (List.forall_mem_map.mp ih)

theorem apply_replies {m : Morph} {context : Value}
    (handsOn : HandsOn k I E (contextInEffect context) m) (direct : m.isAsync = false) {v : Value}
    (there : v.IsThere) : Upholds I E RepliesAtOnceWith (apply k m v context) := by
  rw [apply_of_direct k direct]
  exact (handsOn.execute conducts direct m.name there).map fun u there => ⟨u, rfl, there⟩

theorem apply_upholds {m : Morph} {context : Value}
    (handsOn : HandsOn k I E (contextInEffect context) m) {v : Value} (there : v.IsThere) :
    Upholds I E Value.IsThere (apply k m v context >>= settle k) := by
  cases async : m.isAsync with
  | false => exact (apply_replies conducts handsOn async there).bind fun _ => settle_upholds
  | true =>
    rw [apply, if_pos async, pure_bind]
    exact handsOn.executeDeferred conducts m.name there

theorem applyAsync_upholds {m : Morph} {context : Value}
    (handsOn : HandsOn k I E (contextInEffect context) m)
    (parts : ∀ p ∈ m.parts, HandsOn k I E (contextInEffect context) p) {v : Value}
    (there : v.IsThere) : Upholds I E Value.IsThere (applyAsync k m v context) := by
  cases m with
  | pipeline head info stages declared =>
    exact runStagesDeferred_upholds conducts (List.forall_mem_map.mp parts) there
  | _ => exact handsOn.executeDeferred conducts _ there

end Run

end Morph

end MorphEngine
