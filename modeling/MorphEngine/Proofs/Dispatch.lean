import MorphEngine.Proofs.Blame

/-!
# Running morphs past their caches

A morph without a cache runs its transformation once per call. On the direct path its result is no
awaitable one and its faults are settled, unless they could not be written; so a transformation that
only wraps such a run adds nothing to it but its own blame. Stages one after the other run as their
parts do.
-/

namespace MorphEngine

/-- The value of a reply that nothing has to be awaited for. -/
def Reply.ready? {U : Type} : Reply U → Option Value
  | .value v => if v.isAwaitable then none else some v
  | .deferred _ => none

theorem Reply.not_isAwaitable_of_ready {U : Type} {reply : Reply U} {v : Value}
    (ready : reply.ready? = some v) : v.isAwaitable = false := by
  cases reply with
  | deferred run => cases ready
  | value u =>
    cases awaitable : u.isAwaitable with
    | true =>
      simp only [Reply.ready?, awaitable, if_true] at ready
      cases ready
    | false =>
      simp only [Reply.ready?, awaitable, if_false, Bool.false_eq_true] at ready
      cases ready
      exact awaitable

theorem Reply.isAwaitable_of_pending {U : Type} {v : Value}
    (pending : (Reply.value v : Reply U).ready? = none) : v.isAwaitable = true := by
  cases awaitable : v.isAwaitable with
  | true => rfl
  | false =>
    simp only [Reply.ready?, awaitable, if_false, Bool.false_eq_true] at pending
    cases pending

namespace Morph

variable {U : Type} (h : Host U)

/-- The fault of a morph whose result would have to be awaited on the direct path. -/
def refusal (head : Header) (label : Name) (context : Value) : Fault :=
  .transform label.given (unawaited head.name) context true

theorem blame_unawaited (head : Header) (label : Name) (context : Value) :
    (unawaited head.name).blame label context = refusal head label context := by
  have unsettled : ¬ (unawaited head.name).IsSettled := by
    intro settled
    cases settled with
    | ending ends => cases ends
  exact Fault.blame_of_not_isSettled unsettled label context

/-- A call on the direct path: what is ready is the result, what is not is refused. -/
theorem runFrom_callOnce (head : Header) (label : Name) (context : Value)
    (transform : Engine U (Reply U)) (w : World U) :
    (callOnce head label context transform).runFrom w =
      match transform.runFrom w with
      | (.ok reply, w') => (reply.ready?.elim (.error (refusal head label context)) .ok, w')
      | (.error f, w') => (.error (f.blame label context), w') := by
  rw [callOnce, Engine.runFrom_bind, Engine.runFrom_mapFault]
  rcases transform.runFrom w with ⟨f | reply, w'⟩
  · rfl
  · cases reply with
    | deferred run => rfl
    | value v =>
      by_cases awaitable : v.isAwaitable = true
      · simp only [mapError_ok, awaitable, if_true, Reply.ready?]
        rfl
      · simp only [mapError_ok, awaitable, if_false, Reply.ready?, Bool.false_eq_true]
        rfl

variable {transform : Engine U (Reply U)} {w w' : World U}

theorem callOnce_of_fault {f : Fault} (ran : transform.runFrom w = (.error f, w')) (head : Header)
    (label : Name) (context : Value) :
    (callOnce head label context transform).runFrom w = (.error (f.blame label context), w') := by
  rw [runFrom_callOnce, ran]

theorem callOnce_of_ready {reply : Reply U} (ran : transform.runFrom w = (.ok reply, w'))
    {v : Value} (ready : reply.ready? = some v) (head : Header) (label : Name) (context : Value) :
    (callOnce head label context transform).runFrom w = (.ok v, w') := by
  simp only [runFrom_callOnce, ran, ready, Option.elim]

theorem callOnce_of_pending {reply : Reply U} (ran : transform.runFrom w = (.ok reply, w'))
    (pending : reply.ready? = none) (head : Header) (label : Name) (context : Value) :
    (callOnce head label context transform).runFrom w =
      (.error (refusal head label context), w') := by
  simp only [runFrom_callOnce, ran, pending, Option.elim]

theorem settle_of_ready {reply : Reply U} {v : Value} (ready : reply.ready? = some v) :
    settle h reply = pure v := by
  cases reply with
  | deferred run => cases ready
  | value u =>
    by_cases awaitable : u.isAwaitable = true
    · simp only [Reply.ready?, awaitable, if_true] at ready
      cases ready
    · simp only [Reply.ready?, awaitable, if_false, Bool.false_eq_true] at ready
      cases ready
      simp only [settle, awaitable, if_false, Bool.false_eq_true]

/-- A call on the deferred path: whatever has to be awaited is awaited. -/
theorem runFrom_awaitOnce (label : Name) (context : Value) (transform : Engine U (Reply U))
    (w : World U) :
    (awaitOnce h label context transform).runFrom w =
      match transform.runFrom w with
      | (.ok reply, w') =>
        (Engine.mapFault (Fault.blame label context) (settle h reply)).runFrom w'
      | (.error f, w') => (.error (f.blame label context), w') := by
  rw [awaitOnce, Engine.runFrom_mapFault, Engine.runFrom_bind]
  rcases transform.runFrom w with ⟨f | reply, w'⟩
  · rfl
  · exact (Engine.runFrom_mapFault _ _ _).symm

theorem awaitOnce_of_fault {f : Fault} (ran : transform.runFrom w = (.error f, w')) (label : Name)
    (context : Value) :
    (awaitOnce h label context transform).runFrom w = (.error (f.blame label context), w') := by
  rw [runFrom_awaitOnce, ran]

theorem awaitOnce_of_ready {reply : Reply U} (ran : transform.runFrom w = (.ok reply, w'))
    {v : Value} (ready : reply.ready? = some v) (label : Name) (context : Value) :
    (awaitOnce h label context transform).runFrom w = (.ok v, w') := by
  simp only [runFrom_awaitOnce, ran, settle_of_ready h ready, Engine.runFrom_mapFault,
    Engine.runFrom_pure, mapError_ok]

/-- A transformation that ends in a reply that has to be awaited. -/
def NeedsAwaiting (ended : Except Fault (Reply U)) : Prop :=
  ∃ reply, ended = .ok reply ∧ reply.ready? = none

/-- What comes through on the direct path comes through in the same way on the deferred one. -/
theorem awaitOnce_eq_callOnce {head : Header} {label : Name} {context : Value}
    (ready : ¬ NeedsAwaiting (transform.runFrom w).1) :
    (awaitOnce h label context transform).runFrom w =
      (callOnce head label context transform).runFrom w := by
  rcases ran : transform.runFrom w with ⟨f | reply, w'⟩
  · rw [awaitOnce_of_fault h ran, callOnce_of_fault ran]
  · cases given : reply.ready? with
    | some v => rw [awaitOnce_of_ready h ran given, callOnce_of_ready ran given]
    | none => exact absurd ⟨reply, by rw [ran], given⟩ ready

/-- What comes through as a member comes through as a stage on the deferred path. -/
theorem awaitOnce_of_callOnce {head : Header} {label : Name} {context v : Value}
    (ran : (callOnce head label context transform).runFrom w = (.ok v, w')) :
    (awaitOnce h label context transform).runFrom w = (.ok v, w') := by
  rw [← ran]
  refine awaitOnce_eq_callOnce h ?_
  rintro ⟨reply, replied, pending⟩
  rcases ended : transform.runFrom w with ⟨r, w₁⟩
  rw [ended] at replied
  cases replied
  rw [callOnce_of_pending ended pending] at ran
  cases ran

theorem callOnce_results (head : Header) (label : Name) (context : Value)
    (transform : Engine U (Reply U)) :
    (callOnce head label context transform).ResultsIn fun v => v.isAwaitable = false := by
  intro w v w' ends
  rcases ran : transform.runFrom w with ⟨f | reply, w₁⟩
  · rw [callOnce_of_fault ran] at ends
    cases ends
  · cases ready : reply.ready? with
    | none =>
      rw [callOnce_of_pending ran ready] at ends
      cases ends
    | some u =>
      rw [callOnce_of_ready ran ready] at ends
      cases ends
      exact reply.not_isAwaitable_of_ready ready

/-- A call on the direct path that does not meet a fault without a message ends in a settled one, if
it fails. -/
theorem isSettled_of_callOnce {head : Header} {label : Name} {context : Value} {f : Fault}
    (written : ∀ g w₁, transform.runFrom w = (.error g, w₁) → ¬ g.IsUnwritten)
    (ends : (callOnce head label context transform).runFrom w = (.error f, w')) : f.IsSettled := by
  rcases ran : transform.runFrom w with ⟨g | reply, w₁⟩
  · rw [callOnce_of_fault ran] at ends
    cases ends
    exact Fault.blame_isSettled (written g _ ran) label context
  · cases ready : reply.ready? with
    | none =>
      rw [callOnce_of_pending ran ready] at ends
      cases ends
      exact .named _ _ _ _
    | some v =>
      rw [callOnce_of_ready ran ready] at ends
      cases ends

/-- A transformation that hands on a run without awaitable results adds only its blame to it. -/
theorem callOnce_map_value (head : Header) (label : Name) (context : Value) {run : Engine U Value}
    (plain : run.ResultsIn fun v => v.isAwaitable = false) :
    callOnce head label context (.value <$> run) =
      Engine.mapFault (Fault.blame label context) run := by
  apply Engine.ext
  intro w
  rw [runFrom_callOnce, Engine.runFrom_map, Engine.runFrom_mapFault]
  rcases ran : run.runFrom w with ⟨f | v, w'⟩
  · rfl
  · have ready := plain w v w' ran
    simp only [Except.map, mapError_ok, Reply.ready?, ready, if_false, Bool.false_eq_true,
      Option.elim]

theorem throughCache_eq_run {head : Header} (bare : head.cache = none) (input context : Value)
    (run : Engine U Value) : throughCache h head input context run = run := by
  simp only [throughCache, cacheKey, cached, remember, bare, pure_bind, bind_pure]

/-- A blamed fault can leave a deferred computation, so leaving changes nothing. -/
theorem leaveDeferred_awaitOnce (label : Name) (context : Value) (transform : Engine U (Reply U)) :
    Engine.mapFault Fault.leaveDeferred (awaitOnce h label context transform) =
      awaitOnce h label context transform := by
  rw [awaitOnce, Engine.mapFault_mapFault]
  simp only [Fault.leaveDeferred_blame]

theorem execute_eq_callOnce {head : Header} (bare : head.cache = none) (label : Name)
    (input context : Value) (transform : Engine U (Reply U)) :
    execute h head label input context transform = callOnce head label context transform :=
  throughCache_eq_run h bare input context _

theorem executeDeferred_eq_awaitOnce {head : Header} (bare : head.cache = none) (label : Name)
    (input context : Value) (transform : Engine U (Reply U)) :
    executeDeferred h head label input context transform =
      awaitOnce h label context transform := by
  rw [executeDeferred, throughCache_eq_run h bare, leaveDeferred_awaitOnce]

/-- A morph that is not asynchronous is carried out as it is called. -/
theorem apply_of_direct {m : Morph} (direct : m.isAsync = false) (input context : Value) :
    apply h m input context =
      .value <$> execute h m.head m.name input (contextInEffect context)
        (Morph.transform h m input (contextInEffect context)) := by
  simp only [apply, direct, if_false, Bool.false_eq_true]

theorem runStages_append (s t : List Stage) (v context : Value) :
    runStages h (s ++ t) v context =
      runStages h s v context >>= fun v => runStages h t v context := by
  induction s generalizing v with
  | nil => simp only [List.nil_append, runStages, pure_bind]
  | cons stage rest ih =>
    cases stage with
    | mk label m => simp only [List.cons_append, runStages, ih, bind_assoc]

theorem runStagesDeferred_append (s t : List Stage) (v context : Value) :
    runStagesDeferred h (s ++ t) v context =
      runStagesDeferred h s v context >>= fun v => runStagesDeferred h t v context := by
  induction s generalizing v with
  | nil => simp only [List.nil_append, runStagesDeferred, pure_bind]
  | cons stage rest ih =>
    cases stage with
    | mk label m => simp only [List.cons_append, runStagesDeferred, ih, bind_assoc]

/-- Stages without caches run through their caches as they run past them. -/
theorem runStages_eq_runMembers {stages : List Stage}
    (bare : ∀ s ∈ stages, s.morph.head.cache = none) (v context : Value) :
    runStages h stages v context = runMembers h stages v context := by
  induction stages generalizing v with
  | nil => simp only [runStages, runMembers]
  | cons stage rest ih =>
    cases stage with
    | mk label m =>
      have first : m.head.cache = none := bare (.mk label m) List.mem_cons_self
      have others := ih fun s hs => bare s (List.mem_cons_of_mem _ hs)
      simp only [runStages, runMembers, execute_eq_callOnce h first, others]

/-- At least one member runs, so the result is no awaitable one. -/
theorem runMembers_results {members : List Stage} (some : members ≠ []) (v context : Value) :
    (runMembers h members v context).ResultsIn fun v => v.isAwaitable = false := by
  induction members generalizing v with
  | nil => exact absurd rfl some
  | cons stage rest ih =>
    cases stage with
    | mk label m =>
      rw [runMembers]
      cases rest with
      | nil =>
        simp only [runMembers, bind_pure]
        exact callOnce_results m.head label context _
      | cons next rest => exact Engine.ResultsIn.bind fun v => ih (List.cons_ne_nil _ _) v

end Morph

end MorphEngine
