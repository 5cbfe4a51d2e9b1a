import MorphEngine.Proofs.Keys.Faults
import MorphEngine.Proofs.Memo.Transparency

/-!
# Calls whose key cannot be built

A call of a cacheable morph first builds its key. When there is found to be none, the call is counted
as skipped and does what it does without a cache. Any other fault of building the key comes out as it
is, since nothing that puts names on faults stands around the cache.
-/

namespace MorphEngine

variable {U : Type}

/-- The world with one more call counted that skipped a cache. -/
def World.skipAt (w : World U) (slot : Nat) : World U :=
  { w with caches := fun i => if i = slot then (w.caches slot).skip else w.caches i }

/-- What a reply is to the direct path: a result, or the fault of having to be awaited. -/
def Reply.answer (name : Name) (reply : Reply U) : Except Fault Value :=
  reply.ready?.elim (.error (Morph.unawaited name)) .ok

/-- How a call ends under a name, given how the transformation ended. A failure comes out under the
name, unless its message cannot be written; then the fault of this comes out, under no name. -/
inductive EndsUnder (name : Name) (context : Value) : Except Fault Value → Except Fault Value → Prop
  | returned (v : Value) : EndsUnder name context (.ok v) (.ok v)
  | failed {f : Fault} (written : ¬ f.IsUnwritten) :
      EndsUnder name context (.error f) (.error (f.under name context))
  | unwritten {f g : Fault} (gives : f.GivesWay g) : EndsUnder name context (.error f) (.error g)

theorem endsUnder_blame (name : Name) (context : Value) (r : Except Fault Value) :
    EndsUnder name context r (r.mapError (Fault.blame name context)) := by
  cases r with
  | ok v => exact .returned v
  | error f =>
    rw [mapError_error]
    by_cases unwritten : f.IsUnwritten
    · obtain ⟨g, gives⟩ := unwritten
      rw [gives.blame_eq]
      exact .unwritten gives
    · rw [Fault.blame_eq_under unwritten]
      exact .failed unwritten

namespace Morph

/-- The morph without a cache of its own. What it is made of keeps its caches. -/
def uncached : Morph → Morph
  | simple head fn => simple head.bare fn
  | composed head steps finish => composed head.bare steps finish
  | conditional head predicate body => conditional head.bare predicate body
  | identity head => identity head.bare
  | fused head members => fused head.bare members
  | pipeline head info stages declared => pipeline head.bare info stages declared

@[simp] theorem head_uncached (m : Morph) : m.uncached.head = m.head.bare := by
  cases m <;> rfl

@[simp] theorem name_uncached (m : Morph) : m.uncached.name = m.name := by
  cases m <;> rfl

@[simp] theorem isAsync_uncached (m : Morph) : m.uncached.isAsync = m.isAsync := by
  cases m <;> rfl

variable (h : Host U)

@[simp] theorem transform_uncached (m : Morph) : transform h m.uncached = transform h m := by
  funext v context
  cases m with
  | composed head steps finish =>
    have same := isAsync_uncached (composed head steps finish)
    rw [uncached] at same
    rw [uncached, transform, transform, same]
  | pipeline head info stages declared =>
    rw [uncached, transform, transform]
    rfl
  | _ => simp only [uncached, transform]

/-! ### Past the cache -/

section Cache

variable {h} {head : Header} {input context : Value} {w w' : World U}

theorem cacheKey_of_fault {slot : CacheSlot} {f : Fault} (cached : head.cache = some slot)
    (failed : (Engine.fingerprints h input
      (Engine.project h slot.rule.projection context)).runFrom w = (.error f, w')) :
    (cacheKey h head input context).runFrom w = (.error f, w') := by
  simp only [cacheKey, cached]
  exact Engine.runFrom_bind_error failed

theorem cacheKey_of_none {slot : CacheSlot} (cached : head.cache = some slot)
    (lacking : (Engine.fingerprints h input
      (Engine.project h slot.rule.projection context)).runFrom w = (.ok none, w')) :
    (cacheKey h head input context).runFrom w = (.ok none, w'.skipAt head.id) := by
  simp only [cacheKey, cached]
  rw [Engine.runFrom_bind_ok lacking]
  rfl

theorem throughCache_of_fault {f : Fault}
    (failed : (cacheKey h head input context).runFrom w = (.error f, w')) (run : Engine U Value) :
    (throughCache h head input context run).runFrom w = (.error f, w') := by
  rw [throughCache, Engine.runFrom_bind_error failed]

/-- Without a key the cache is neither asked nor given anything. -/
theorem throughCache_of_none (keyless : (cacheKey h head input context).runFrom w = (.ok none, w'))
    (run : Engine U Value) :
    (throughCache h head input context run).runFrom w = run.runFrom w' := by
  have asked : cached h head none = pure none := by
    unfold cached
    cases head.cache <;> rfl
  have given (v : Value) : remember h head none v = pure () := by
    unfold remember
    cases head.cache <;> rfl
  rw [throughCache, Engine.runFrom_bind_ok keyless]
  simp only [asked, given, pure_bind, bind_pure]

end Cache

/-! ### Calls -/

theorem applyAsync_of_cached {m : Morph} {slot : CacheSlot} (coherent : m.IsCoherent)
    (cached : m.head.cache = some slot) (input context : Value) :
    applyAsync h m input context =
      executeDeferred h m.head m.name input (contextInEffect context)
        (transform h m input (contextInEffect context)) := by
  cases m with
  | pipeline head info stages declared =>
    -- Only a pipeline passes by its transformation here, and it never has a cache of its own.
    have none : head.cache = none := coherent.1
    rw [Morph.head, none] at cached
    cases cached
  | _ => rfl

theorem applyAsync_uncached_of_cached {m : Morph} {slot : CacheSlot} (coherent : m.IsCoherent)
    (cached : m.head.cache = some slot) (input context : Value) :
    applyAsync h m.uncached input context =
      awaitOnce h m.name (contextInEffect context)
        (transform h m input (contextInEffect context)) := by
  have bare : m.uncached.head.cache = none := by
    rw [head_uncached]
    rfl
  rw [← executeDeferred_eq_awaitOnce h bare m.name input, ← transform_uncached]
  cases m with
  | pipeline head info stages declared =>
    have none : head.cache = none := coherent.1
    rw [Morph.head, none] at cached
    cases cached
  | _ => rfl

theorem runFrom_callOnce_eq_answer (head : Header) (label : Name) (context : Value)
    (transform : Engine U (Reply U)) (w : World U) :
    (callOnce head label context transform).runFrom w =
      (((transform.runFrom w).1.bind (Reply.answer head.name)).mapError (Fault.blame label context),
        (transform.runFrom w).2) := by
  rw [runFrom_callOnce]
  rcases transform.runFrom w with ⟨f | reply, w'⟩
  · rfl
  · cases ready : reply.ready? with
    | none =>
      simp only [Except.bind, Reply.answer, ready, Option.elim, mapError_error, blame_unawaited]
    | some v => simp only [Except.bind, Reply.answer, ready, Option.elim, mapError_ok]

/-- A call from one world runs past the cache from another: it does there what the morph does
without its cache, and ends as its transformation ends, under the name of the morph. -/
structure RunsUncached (m : Morph) (input context : Value) (w w' : World U) : Prop where
  direct : m.isAsync = false →
    (apply h m input context).runFrom w = (apply h m.uncached input context).runFrom w'
  deferred :
    (applyAsync h m input context).runFrom w = (applyAsync h m.uncached input context).runFrom w'
  answered : m.isAsync = false →
    let inEffect := contextInEffect context
    let ran := (transform h m input inEffect).runFrom w'
    ∃ r, EndsUnder m.name inEffect (ran.1.bind (Reply.answer m.name)) r ∧
      (apply h m input context).runFrom w = (r.map .value, ran.2)
  awaited :
    let inEffect := contextInEffect context
    let ran := (transform h m input inEffect >>= settle h).runFrom w'
    ∃ r, EndsUnder m.name inEffect ran.1 r ∧
      (applyAsync h m input context).runFrom w = (r, ran.2)

variable {h}

theorem runsUncached_of_none {m : Morph} {slot : CacheSlot} (coherent : m.IsCoherent)
    (cached : m.head.cache = some slot) {input context : Value} {w w' : World U}
    (keyless : (cacheKey h m.head input (contextInEffect context)).runFrom w = (.ok none, w')) :
    RunsUncached h m input context w w' := by
  have called (direct : m.isAsync = false) : (apply h m input context).runFrom w =
      (.value <$> callOnce m.head m.name (contextInEffect context)
        (transform h m input (contextInEffect context))).runFrom w' := by
    rw [apply_of_direct h direct, Engine.runFrom_map, Engine.runFrom_map, execute,
      throughCache_of_none keyless]
  have bare (direct : m.isAsync = false) : apply h m.uncached input context =
      .value <$> callOnce m.head m.name (contextInEffect context)
        (transform h m input (contextInEffect context)) := by
    have none : m.uncached.head.cache = none := by
      rw [head_uncached]
      rfl
    rw [apply_of_direct h ((isAsync_uncached m).trans direct), execute_eq_callOnce h none,
      head_uncached, name_uncached, transform_uncached]
    rfl
  have awaited : (applyAsync h m input context).runFrom w =
      (awaitOnce h m.name (contextInEffect context)
        (transform h m input (contextInEffect context))).runFrom w' := by
    rw [applyAsync_of_cached h coherent cached, executeDeferred, Engine.runFrom_mapFault,
      throughCache_of_none keyless, ← Engine.runFrom_mapFault, leaveDeferred_awaitOnce]
  refine ⟨fun direct => ?_, ?_, fun direct => ?_, ?_⟩
  · rw [called direct, bare direct]
  · rw [awaited, applyAsync_uncached_of_cached h coherent cached]
  · rw [called direct, Engine.runFrom_map, runFrom_callOnce_eq_answer]
    exact ⟨_, endsUnder_blame _ _ _, rfl⟩
  · rw [awaited, awaitOnce, Engine.runFrom_mapFault]
    exact ⟨_, endsUnder_blame _ _ _, rfl⟩

/-- When the key of a call of a pure, memoizable morph turns out not to exist, the call runs uncached.
When building it ends in any other fault, the call ends in that very fault, before anything has been
transformed. This takes a whole number of too many digits, a member or an object whose name cannot be
encoded or an object that fails when it is read, in the input or in what matters of the context, or a
context that cannot be projected. -/
theorem apply_of_isCacheable {m : Morph} (made : m.Made)
    (cacheable : m.metadata.isCacheable = true) (h : Host U) (input context : Value) (w : World U) :
    let inEffect := contextInEffect context
    let key := (Engine.fingerprints h input
      (Engine.project h m.metadata.context inEffect)).runFrom w
    (m.isAsync = true →
      apply h m input context = pure (.deferred (applyAsync h m input context))) ∧
    (∀ w', key = (.ok none, w') → RunsUncached h m input context w (w'.skipAt m.head.id)) ∧
    (∀ f w', key = (.error f, w') →
      f.isUnfingerprintable = false ∧ KeyFails h m.metadata.context input inEffect w f ∧
        (m.isAsync = false → (apply h m input context).runFrom w = (.error f, w')) ∧
        (applyAsync h m input context).runFrom w = (.error f.leaveDeferred, w')) := by
  intro inEffect key
  obtain ⟨slot, cached, projection⟩ := made.cachesAsDeclared cacheable
  have coherent := made.isCoherent
  have keyed : key = (Engine.fingerprints h input
      (Engine.project h slot.rule.projection inEffect)).runFrom w := by
    rw [projection]
    rfl
  have deferred := applyAsync_of_cached h coherent cached input context
  refine ⟨fun async => ?_, fun w' lacking => ?_, fun f w' failed => ?_⟩
  · rw [apply, if_pos async, deferred]
  · rw [keyed] at lacking
    exact runsUncached_of_none coherent cached (cacheKey_of_none cached lacking)
  · obtain ⟨apart, fails⟩ := keyFails_of_fingerprints failed
    rw [keyed] at failed
    have ended := throughCache_of_fault (cacheKey_of_fault cached failed)
    refine ⟨apart, fails, fun direct => ?_, ?_⟩
    · rw [apply_of_direct h direct, Engine.runFrom_map, execute, ended]
      rfl
    · rw [deferred, executeDeferred, Engine.runFrom_mapFault, ended]
      rfl

/-! ### A morph whose key cannot be built -/

open Request

/-- The morph answers whatever it is given, but with its cache it fails on a number of too many
digits. On a function, which has no fingerprint, it runs uncached. -/
theorem apply_innerMorph :
    let idle : World Nat := ⟨fun _ => .empty, 0⟩
    let long : Value := .int (Int.ofNat (Nat.pow 10 5000))
    ((apply countingHost innerMorph.uncached long .none).runFrom idle).1.isOk = true ∧
      (∃ f, ((apply countingHost innerMorph long .none).runFrom idle).1 = .error f ∧
        KeyFails countingHost .whole long .emptyContext idle f) ∧
      RunsUncached countingHost innerMorph (.function 1 false) .none idle (idle.skipAt 0) := by
  intro idle long
  have made : innerMorph.Made := by
    have created : create 0 (.text "inner") (.function 0 false) .none
        (EngineSettings.mk (.bool true) (.int 2) (.int 1) .moving)
        [("memoizable", .bool true)] = .ok innerMorph := rfl
    exact .function created
  have general := apply_of_isCacheable made rfl countingHost
  refine ⟨by decide +kernel, ?_, ?_⟩
  · obtain ⟨_, _, fails⟩ := general long .none idle
    rcases ended : (Engine.fingerprints countingHost long
      (Engine.project countingHost .whole .emptyContext)).runFrom idle with ⟨f | found, w'⟩
    · obtain ⟨_, cause, bare, _⟩ := fails f w' ended
      exact ⟨f, by rw [bare rfl], cause⟩
    · have unbuilt : ((Engine.fingerprints countingHost long
          (Engine.project countingHost .whole .emptyContext)).runFrom idle).1.isOk = false := by
        decide +kernel
      rw [ended] at unbuilt
      cases unbuilt
  · obtain ⟨_, skips, _⟩ := general (.function 1 false) .none idle
    exact skips idle rfl

end Morph

end MorphEngine
