import MorphEngine.Proofs.Dispatch
import MorphEngine.Proofs.Made
import MorphEngine.Proofs.Recording

/-!
# Where the two paths part

The direct and the deferred path consult a cache in the same way, and run the same transformation
when it has no result. They part where that transformation ends in a result to be awaited, which only
the deferred path can await. Short of that, all stages do the same on both, but that the end of an
iteration cannot leave the deferred one.
-/

namespace MorphEngine

namespace Morph

section Stages

variable {U : Type} (h : Host U) (context : Value)

/-- The key of a call and the result that the cache has for it. -/
def consult (head : Header) (v : Value) : Engine U (Option CacheKey × Option Value) := do
  let key ← cacheKey h head v context
  let hit ← cached h head key
  return (key, hit)

/-- The result that was found, or the one of the run, which is then stored. -/
def supply (head : Header) (run : Engine U Value) :
    Option CacheKey × Option Value → Engine U Value
  | (_, some v) => pure v
  | (key, none) => do
    let v ← run
    remember h head key v
    return v

theorem throughCache_eq_consult (head : Header) (v : Value) (run : Engine U Value) :
    throughCache h head v context run = consult h context head v >>= supply h head run := by
  unfold throughCache consult
  simp only [bind_assoc, pure_bind]
  congr 1
  funext key
  congr 1
  funext hit
  cases hit with
  | some v => rfl
  | none => rfl

/-- The direct run of stages comes to one that the cache has no result for, and whose transformation
ends in a result to be awaited. -/
inductive ComesToAwaiting : List Stage → Value → World U → Prop
  | here {label : Name} {m : Morph} {rest : List Stage} {v : Value} {w w₁ : World U}
      {key : Option CacheKey}
      (missed : (consult h context m.head v).runFrom w = (.ok (key, none), w₁))
      (needs : NeedsAwaiting ((transform h m v context).runFrom w₁).1) :
      ComesToAwaiting (.mk label m :: rest) v w
  | later {label : Name} {m : Morph} {rest : List Stage} {v v' : Value} {w w' : World U}
      (ran : (execute h m.head label v context (transform h m v context)).runFrom w = (.ok v', w'))
      (comes : ComesToAwaiting rest v' w') : ComesToAwaiting (.mk label m :: rest) v w

variable {h context}

/-- A stage that leaves nothing to be awaited does the same on both paths. -/
theorem executeDeferred_eq_execute (label : Name) {m : Morph} {v : Value} {w : World U}
    (ready : ∀ key w₁, (consult h context m.head v).runFrom w = (.ok (key, none), w₁) →
      ¬ NeedsAwaiting ((transform h m v context).runFrom w₁).1) :
    (executeDeferred h m.head label v context (transform h m v context)).runFrom w =
      (((execute h m.head label v context (transform h m v context)).runFrom w).1.mapError
          Fault.leaveDeferred,
        ((execute h m.head label v context (transform h m v context)).runFrom w).2) := by
  have same : (throughCache h m.head v context
      (awaitOnce h label context (transform h m v context))).runFrom w =
        (execute h m.head label v context (transform h m v context)).runFrom w := by
    rw [execute, throughCache_eq_consult, throughCache_eq_consult, Engine.runFrom_bind,
      Engine.runFrom_bind]
    rcases found : (consult h context m.head v).runFrom w with ⟨f | ⟨key, _ | hit⟩, w₁⟩
    · rfl
    · have awaited : (awaitOnce h label context (transform h m v context)).runFrom w₁ =
          (callOnce m.head label context (transform h m v context)).runFrom w₁ :=
        awaitOnce_eq_callOnce h (ready key w₁ found)
      simp only [supply, Engine.runFrom_bind, awaited]
    · rfl
  rw [executeDeferred, Engine.runFrom_mapFault, same]

/-- Stages that leave nothing to be awaited do the same on both paths. -/
theorem runStagesDeferred_eq_runStages {stages : List Stage} {v : Value} {w : World U}
    (through : ¬ ComesToAwaiting h context stages v w) :
    (runStagesDeferred h stages v context).runFrom w =
      (((runStages h stages v context).runFrom w).1.mapError Fault.leaveDeferred,
        ((runStages h stages v context).runFrom w).2) := by
  induction stages generalizing v w with
  | nil =>
    rw [runStagesDeferred, runStages]
    rfl
  | cons s rest ih =>
    obtain ⟨label, m⟩ := s
    have first := executeDeferred_eq_execute label fun key w₁ missed needs =>
      through (.here missed needs)
    rw [runStagesDeferred, runStages]
    rcases ran : (execute h m.head label v context (transform h m v context)).runFrom w
      with ⟨f | v', w'⟩
    · rw [ran] at first
      rw [Engine.runFrom_bind_error first, Engine.runFrom_bind_error ran]
      rfl
    · rw [ran] at first
      rw [Engine.runFrom_bind_ok first, Engine.runFrom_bind_ok ran]
      exact ih fun comes => through (.later ran comes)

/-- A stage that comes to a result has left nothing to be awaited. -/
theorem not_needsAwaiting_of_execute {label : Name} {m : Morph} {v v' : Value} {w w' : World U}
    (ran : (execute h m.head label v context (transform h m v context)).runFrom w = (.ok v', w'))
    {key : Option CacheKey} {w₁ : World U}
    (missed : (consult h context m.head v).runFrom w = (.ok (key, none), w₁)) :
    ¬ NeedsAwaiting ((transform h m v context).runFrom w₁).1 := by
  rintro ⟨reply, replied, pending⟩
  rcases ended : (transform h m v context).runFrom w₁ with ⟨r, w₂⟩
  rw [ended] at replied
  cases replied
  have refused := callOnce_of_pending ended pending m.head label context
  rw [execute, throughCache_eq_consult, Engine.runFrom_bind_ok missed, supply,
    Engine.runFrom_bind_error refused] at ran
  cases ran

end Stages

/-! ### Against other hosts -/

section Hosts

open Engine

variable {U V : Type} {h : Host U} {k : Host V} {R : World U → World V → Prop} {context : Value}

theorem consult_related (hosts : h.Matches k R) (head : Header) (v : Value) :
    Related R Eq (consult h context head v) (consult k context head v) := by
  have keys := cacheKey_related hosts.cells head (fun _ _ _ => hosts.select _)
    (fun _ => modifyCache_related hosts _ _) v context
  exact .bindEq keys fun key => .bindEq (cached_related hosts head key) fun hit => .pure rfl

theorem needsAwaiting_of_alike {r : Except Fault (Reply U)} {s : Except Fault (Reply V)}
    (alike : Engine.Alike (Reply.Alike R) r s) (needs : NeedsAwaiting r) : NeedsAwaiting s := by
  obtain ⟨reply, rfl, pending⟩ := needs
  cases alike with
  | ok same =>
    cases same with
    | value v => exact ⟨_, rfl, pending⟩
    | deferred same => exact ⟨_, rfl, rfl⟩

/-- Against hosts that answer alike, stages come to the same result to be awaited. -/
theorem ComesToAwaiting.of_matches (hosts : h.Matches k R) {stages : List Stage} {v : Value}
    {w : World U} {x : World V} (start : R w x) (comes : ComesToAwaiting h context stages v w) :
    ComesToAwaiting k context stages v x := by
  induction comes generalizing x with
  | @here label m rest v w w₁ key missed needs =>
    obtain ⟨_, x₁, other, rfl, after⟩ := (consult_related hosts m.head v).exists_ok start missed
    have alike := (transform_related hosts m v context w₁ x₁ after).1
    exact .here other (needsAwaiting_of_alike alike needs)
  | @later label m rest v v' w w' ran comes ih =>
    have related := execute_related hosts m.head label v context (transform_related hosts m v context)
    obtain ⟨_, x', other, rfl, after⟩ := related.exists_ok start ran
    exact .later other (ih after)

end Hosts

/-! ### Past the parting -/

section Recorded

open Engine

variable {U : Type} (h : Host U) (context : Value)

/-- From an awaiting on, whatever else is done only adds to the log. -/
theorem supply_grows (head : Header) (key : Option CacheKey) (run : Engine (U × List HostCall) Value)
    {x : World (U × List HostCall)} {r : Except Fault Value} {x' : World (U × List HostCall)}
    (ran : run.runFrom x = (r, x')) :
    x'.log <+: ((supply h.recording head run (key, none)).runFrom x).2.log := by
  rw [supply, runFrom_bind, ran]
  cases r with
  | error f => exact List.prefix_refl _
  | ok v =>
    have related := (remember_related (h.recording_grows x'.log) head key v).bindEq
      (T := Eq) fun _ => Related.pure (R := fun w x => w = x ∧ x'.log <+: x.log) (a := v) rfl
    exact (related x' x' ⟨rfl, List.prefix_refl _⟩).2.2

/-- Where a stage ends in a result to be awaited, the direct path refuses it, and the deferred path
goes on to await it. -/
theorem ComesToAwaiting.goesOn {stages : List Stage}
    (made : ∀ s ∈ stages, s.morph.IsCoherent ∧ s.morph.isAsync = false) {v : Value}
    {x : World (U × List HostCall)} (comes : ComesToAwaiting h.recording context stages v x) :
    ∃ f x' entry, (runStages h.recording stages v context).runFrom x = (.error f, x') ∧
      x'.log ++ [entry] <+:
        ((runStagesDeferred h.recording stages v context).runFrom x).2.log := by
  induction comes with
  | @here label m rest v x x₁ key missed needs =>
    rw [List.forall_mem_cons] at made
    obtain ⟨reply, replied, pending⟩ := needs
    rcases ended : (transform h.recording m v context).runFrom x₁ with ⟨r, x₂⟩
    rw [ended] at replied
    cases replied
    obtain ⟨u, rfl⟩ :=
      transform_replies_value h.recording context made.1.1 made.1.2 v x₁ _ x₂ ended
    have awaitable := Reply.isAwaitable_of_pending pending
    have refused := callOnce_of_pending ended pending m.head label context
    have awaited : (awaitOnce h.recording label context
        (transform h.recording m v context)).runFrom x₁ =
          (((h.await u).runFrom x₂.withoutLog).1.mapError (Fault.blame label context),
            ((h.await u).runFrom x₂.withoutLog).2.withLog (x₂.log ++ [.await u])) := by
      rw [runFrom_awaitOnce, ended]
      simp only [settle, awaitable, if_true, Engine.runFrom_mapFault]
      rfl
    refine ⟨refusal m.head label context, x₂, .await u, ?_, ?_⟩
    · rw [runStages, execute, throughCache_eq_consult]
      refine runFrom_bind_error ?_
      rw [runFrom_bind_ok missed, supply, runFrom_bind_error refused]
    · have stage : x₂.log ++ [.await u] <+: ((executeDeferred h.recording m.head label v context
          (transform h.recording m v context)).runFrom x).2.log := by
        rw [executeDeferred, runFrom_mapFault, throughCache_eq_consult, runFrom_bind_ok missed]
        exact supply_grows h m.head key _ awaited
      rw [runStagesDeferred, runFrom_bind]
      rcases ran : (executeDeferred h.recording m.head label v context
        (transform h.recording m v context)).runFrom x with ⟨f | v', x'⟩
      · rw [ran] at stage
        exact stage
      · rw [ran] at stage
        exact runStagesDeferred_grows h context rest v' stage
  | @later label m rest v v' x x' ran comes ih =>
    rw [List.forall_mem_cons] at made
    have deferred := executeDeferred_eq_execute label fun key x₁ missed =>
      not_needsAwaiting_of_execute ran missed
    rw [ran] at deferred
    rw [runStages, runStagesDeferred, runFrom_bind_ok ran, runFrom_bind_ok deferred]
    exact ih made.2

end Recorded

end Morph

end MorphEngine
