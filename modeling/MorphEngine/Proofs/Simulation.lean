import MorphEngine.Proofs.Engine

/-!
# Running morphs against two hosts

Two hosts with worlds of their own may differ in what they keep, as long as they answer alike from
related worlds and leave related worlds behind. Then every morph does the same against both. The
hosts share the caches and the readings of the clocks; nothing else is assumed about either of them.
-/

namespace MorphEngine

variable {U V : Type}

namespace Engine

variable {α β γ δ : Type}

/-- Two outcomes that are the same fault, or results in a relation. -/
inductive Alike (S : α → β → Prop) : Except Fault α → Except Fault β → Prop
  | ok {a : α} {b : β} (same : S a b) : Alike S (.ok a) (.ok b)
  | error (f : Fault) : Alike S (.error f) (.error f)

/-- From related worlds two computations come to outcomes alike and to related worlds. -/
def Related (R : World U → World V → Prop) (S : α → β → Prop) (m : Engine U α)
    (n : Engine V β) : Prop :=
  ∀ w x, R w x → Alike S (m.runFrom w).1 (n.runFrom x).1 ∧ R (m.runFrom w).2 (n.runFrom x).2

variable {R : World U → World V → Prop} {S : α → β → Prop} {T : γ → δ → Prop}

theorem Alike.eq {r s : Except Fault α} (alike : Alike Eq r s) : r = s := by
  cases alike with
  | ok same => rw [same]
  | error f => rfl

/-- A result on one side is matched by one on the other. -/
theorem Related.exists_ok {m : Engine U α} {n : Engine V β} (related : Related R S m n)
    {w w' : World U} {x : World V} (start : R w x) {a : α} (ran : m.runFrom w = (.ok a, w')) :
    ∃ b x', n.runFrom x = (.ok b, x') ∧ S a b ∧ R w' x' := by
  obtain ⟨alike, after⟩ := related w x start
  rcases other : n.runFrom x with ⟨s, x'⟩
  rw [ran, other] at alike after
  cases alike with
  | ok same => exact ⟨_, x', rfl, same, after⟩

theorem Related.symm {m : Engine U α} {n : Engine V α} (related : Related R Eq m n) :
    Related (fun x w => R w x) Eq n m := by
  intro x w start
  obtain ⟨alike, after⟩ := related w x start
  refine ⟨?_, after⟩
  rw [alike.eq]
  rcases (n.runFrom x).1 with f | a
  · exact .error f
  · exact .ok rfl

theorem Related.pure {a : α} {b : β} (same : S a b) :
    Related R S (Pure.pure a) (Pure.pure b) :=
  fun _ _ start => ⟨.ok same, start⟩

theorem Related.throw (f : Fault) :
    Related R S (MonadExcept.throw f) (MonadExcept.throw f) :=
  fun _ _ start => ⟨.error f, start⟩

theorem Related.ofExcept (r : Except Fault α) :
    Related R Eq (Engine.ofExcept r : Engine U α) (Engine.ofExcept r : Engine V α) := by
  intro w x start
  cases r with
  | error f => exact ⟨.error f, start⟩
  | ok a => exact ⟨.ok rfl, start⟩

theorem Related.bind {m : Engine U α} {n : Engine V β} {k : α → Engine U γ} {l : β → Engine V δ}
    (first : Related R S m n) (next : ∀ a b, S a b → Related R T (k a) (l b)) :
    Related R T (m >>= k) (n >>= l) := by
  intro w x start
  obtain ⟨alike, after⟩ := first w x start
  rw [runFrom_bind, runFrom_bind]
  rcases hm : m.runFrom w with ⟨r, w'⟩
  rcases hn : n.runFrom x with ⟨s, x'⟩
  rw [hm, hn] at alike after
  cases alike with
  | ok same => exact next _ _ same w' x' after
  | error f => exact ⟨.error f, after⟩

theorem Related.bindEq {m : Engine U α} {n : Engine V α} {k : α → Engine U γ}
    {l : α → Engine V δ} (first : Related R Eq m n) (next : ∀ a, Related R T (k a) (l a)) :
    Related R T (m >>= k) (n >>= l) :=
  first.bind fun a _ same => same ▸ next a

theorem Related.map {m : Engine U α} {n : Engine V β} {f : α → γ} {g : β → δ}
    (first : Related R S m n) (sent : ∀ a b, S a b → T (f a) (g b)) :
    Related R T (f <$> m) (g <$> n) := by
  rw [map_eq_pure_bind, map_eq_pure_bind]
  exact first.bind fun a b same => .pure (sent a b same)

theorem Related.orElse {m : Engine U α} {n : Engine V β} {k : Fault → Engine U α}
    {l : Fault → Engine V β} (first : Related R S m n) (next : ∀ f, Related R S (k f) (l f)) :
    Related R S (m.orElse k) (n.orElse l) := by
  intro w x start
  obtain ⟨alike, after⟩ := first w x start
  rw [runFrom_orElse, runFrom_orElse]
  rcases hm : m.runFrom w with ⟨r, w'⟩
  rcases hn : n.runFrom x with ⟨s, x'⟩
  rw [hm, hn] at alike after
  cases alike with
  | ok same => exact ⟨.ok same, after⟩
  | error f => exact next f w' x' after

theorem Related.mapFault {m : Engine U α} {n : Engine V β} (first : Related R S m n)
    (g : Fault → Fault) : Related R S (Engine.mapFault g m) (Engine.mapFault g n) :=
  first.orElse fun f => .throw (g f)

end Engine

open Engine

/-- Two hosts that answer alike from related worlds. -/
structure Host.Matches (h : Host U) (k : Host V) (R : World U → World V → Prop) : Prop where
  cells : h.cells = k.cells
  call : ∀ fn v c, Related R Eq (h.call fn v c) (k.call fn v c)
  select : ∀ fn c, Related R Eq (h.select fn c) (k.select fn c)
  await : ∀ v, Related R Eq (h.await v) (k.await v)
  now : ∀ clock w x, R w x → h.now clock w = k.now clock x
  caches : ∀ w x, R w x → w.caches = x.caches
  update : ∀ w x caches, R w x → R { w with caches := caches } { x with caches := caches }

theorem Host.Matches.symm {h : Host U} {k : Host V} {R : World U → World V → Prop}
    (hosts : h.Matches k R) : k.Matches h fun x w => R w x where
  cells := hosts.cells.symm
  call fn v c := (hosts.call fn v c).symm
  select fn c := (hosts.select fn c).symm
  await v := (hosts.await v).symm
  now clock x w start := (hosts.now clock w x start).symm
  caches x w start := (hosts.caches w x start).symm
  update x w caches start := hosts.update w x caches start

/-- Two replies that are the same value, or computations that run alike. -/
inductive Reply.Alike (R : World U → World V → Prop) : Reply U → Reply V → Prop
  | value (v : Value) : Alike R (.value v) (.value v)
  | deferred {run : Engine U Value} {other : Engine V Value} (same : Related R Eq run other) :
      Alike R (.deferred run) (.deferred other)

namespace Morph

variable {h : Host U} {k : Host V} {R : World U → World V → Prop}

theorem onCache_related (hosts : h.Matches k R) {α : Type} (clock : Clock) (slot : Nat)
    (f : Except Fault Value → ResultCache → Except Fault α × ResultCache) :
    Related R Eq (Engine.onCache h clock slot f) (Engine.onCache k clock slot f) := by
  intro w x start
  have reading := hosts.now clock w x start
  have caches := hosts.caches w x start
  have after := hosts.update w x
    (fun i => if i = slot then (f (h.now clock w) (w.caches slot)).2 else w.caches i) start
  refine ⟨?_, ?_⟩
  · show Engine.Alike Eq (f (h.now clock w) (w.caches slot)).1 (f (k.now clock x) (x.caches slot)).1
    rw [reading, caches]
    rcases (f (k.now clock x) (x.caches slot)).1 with f | a
    · exact .error f
    · exact .ok rfl
  · show R _ { x with caches := fun i =>
      if i = slot then (f (k.now clock x) (x.caches slot)).2 else x.caches i }
    rw [← reading, ← caches]
    exact after

theorem modifyCache_related (hosts : h.Matches k R) (slot : Nat)
    (f : ResultCache → ResultCache) :
    Related R Eq (Engine.modifyCache slot f) (Engine.modifyCache slot f) := by
  intro w x start
  refine ⟨.ok rfl, ?_⟩
  show R _ { x with caches := fun i => if i = slot then f (x.caches slot) else x.caches i }
  rw [← hosts.caches w x start]
  exact hosts.update w x _ start

theorem project_related (cells : h.cells = k.cells) (p : ContextProjection)
    (select : p.kind = .custom →
      ∀ context, Related R Eq (h.select p.selector context) (k.select p.selector context))
    (context : Value) : Related R Eq (Engine.project h p context) (Engine.project k p context) := by
  unfold Engine.project
  rw [cells]
  split
  · exact .pure rfl
  · exact .pure rfl
  · next custom => exact select custom context
  · exact .bindEq (.ofExcept _) fun names => .ofExcept _

/-- Keys are the same against two hosts as far as selectors answer alike and skipped calls may be
counted. -/
theorem cacheKey_related (cells : h.cells = k.cells) (head : Header)
    (select : ∀ slot, head.cache = some slot → slot.rule.projection.kind = .custom → ∀ context,
      Related R Eq (h.select slot.rule.projection.selector context)
        (k.select slot.rule.projection.selector context))
    (skip : head.cache.isSome = true → Related R Eq (Engine.modifyCache head.id MemoCache.skip)
      (Engine.modifyCache head.id MemoCache.skip))
    (input context : Value) :
    Related R Eq (cacheKey h head input context) (cacheKey k head input context) := by
  unfold cacheKey
  cases cached : head.cache with
  | none => exact .pure rfl
  | some slot =>
    refine .bindEq ?_ fun found => ?_
    · unfold Engine.fingerprints
      rw [cells]
      refine .orElse ?_ fun f => ?_
      · refine .bindEq (.ofExcept _) fun a => ?_
        refine .bindEq (project_related cells _ (select slot cached) _) fun part => ?_
        exact .bindEq (.ofExcept _) fun b => .pure rfl
      · split
        · exact .pure rfl
        · exact .throw f
    · split
      · exact .pure rfl
      · exact .bindEq (skip (by rw [cached]; rfl)) fun _ => .pure rfl

theorem cached_related (hosts : h.Matches k R) (head : Header) (key : Option CacheKey) :
    Related R Eq (cached h head key) (cached k head key) := by
  unfold cached judge
  rw [hosts.cells]
  split
  · exact onCache_related hosts _ _ _
  · exact .pure rfl

theorem remember_related (hosts : h.Matches k R) (head : Header) (key : Option CacheKey)
    (v : Value) : Related R Eq (remember h head key v) (remember k head key v) := by
  unfold remember
  split
  · exact onCache_related hosts _ _ _
  · exact .pure rfl

theorem throughCache_related (hosts : h.Matches k R) (head : Header) (input context : Value)
    {run : Engine U Value} {other : Engine V Value} (runs : Related R Eq run other) :
    Related R Eq (throughCache h head input context run)
      (throughCache k head input context other) := by
  unfold throughCache
  have keys := cacheKey_related hosts.cells head (fun _ _ _ => hosts.select _)
    (fun _ => modifyCache_related hosts _ _) input context
  refine .bindEq keys fun key => .bindEq (cached_related hosts head key) fun hit => ?_
  cases hit with
  | some v => exact .pure rfl
  | none => exact .bindEq runs fun v => .bindEq (remember_related hosts head key v) fun _ => .pure rfl

theorem callOnce_related (head : Header) (label : Name) (context : Value)
    {transform : Engine U (Reply U)} {other : Engine V (Reply V)}
    (runs : Related R (Reply.Alike R) transform other) :
    Related R Eq (callOnce head label context transform)
      (callOnce head label context other) := by
  refine .bind (runs.mapFault _) fun reply reply' same => ?_
  cases same with
  | deferred same => exact .throw _
  | value v =>
    dsimp only
    split
    · exact .throw _
    · exact .pure rfl

theorem settle_related (hosts : h.Matches k R) {reply : Reply U} {other : Reply V}
    (same : reply.Alike R other) : Related R Eq (settle h reply) (settle k other) := by
  cases same with
  | deferred same => exact same
  | value v =>
    show Related R Eq (if v.isAwaitable then h.await v else Pure.pure v)
      (if v.isAwaitable then k.await v else Pure.pure v)
    split
    · exact hosts.await v
    · exact .pure rfl

theorem execute_related (hosts : h.Matches k R) (head : Header) (label : Name)
    (input context : Value) {transform : Engine U (Reply U)} {other : Engine V (Reply V)}
    (runs : Related R (Reply.Alike R) transform other) :
    Related R Eq (execute h head label input context transform)
      (execute k head label input context other) :=
  throughCache_related hosts head input context (callOnce_related head label context runs)

theorem executeDeferred_related (hosts : h.Matches k R) (head : Header) (label : Name)
    (input context : Value) {transform : Engine U (Reply U)} {other : Engine V (Reply V)}
    (runs : Related R (Reply.Alike R) transform other) :
    Related R Eq (executeDeferred h head label input context transform)
      (executeDeferred k head label input context other) := by
  refine .mapFault (throughCache_related hosts head input context ?_) _
  refine .mapFault (.bind runs fun reply reply' same => settle_related hosts same) _

theorem finishDeferred_related (hosts : h.Matches k R) (finish : Option Value)
    (v context : Value) :
    Related R Eq (finishDeferred h finish v context) (finishDeferred k finish v context) := by
  cases finish with
  | none => exact .pure rfl
  | some fn => exact .bindEq (hosts.call fn v context) fun v => settle_related hosts (.value v)

mutual

/-- Every morph does the same against both hosts. -/
theorem transform_related (hosts : h.Matches k R) (m : Morph) (v context : Value) :
    Related R (Reply.Alike R) (transform h m v context) (transform k m v context) := by
  cases m with
  | simple head fn =>
    rw [transform, transform]
    exact .map (hosts.call fn v context) fun a _ same => same ▸ .value a
  | identity head => exact .pure (.value v)
  | composed head steps finish =>
    rw [transform, transform]
    split
    · refine .pure (.deferred (.mapFault ?_ _))
      exact .bindEq (runStepsDeferred_related hosts steps v context) fun v =>
        finishDeferred_related hosts finish v context
    · refine .bindEq (runSteps_related hosts steps v context) fun v => ?_
      cases finish with
      | none => exact .pure (.value v)
      | some fn => exact .map (hosts.call fn v context) fun a _ same => same ▸ .value a
  | conditional head predicate body =>
    rw [transform, transform, hosts.cells]
    refine .bindEq (hosts.call predicate v context) fun holds => .bindEq (.ofExcept _) fun b => ?_
    split
    · split
      · exact .pure (.deferred
          (executeDeferred_related hosts _ _ _ _ (transform_related hosts body v context)))
      · exact .map (execute_related hosts _ _ _ _ (transform_related hosts body v context))
          fun a _ same => same ▸ .value a
    · exact .pure (.value v)
  | fused head members =>
    rw [transform, transform]
    exact .map (runMembers_related hosts members v context) fun a _ same => same ▸ .value a
  | pipeline head info stages declared =>
    rw [transform, transform]
    split
    · exact .pure (.deferred (runStagesDeferred_related hosts stages v context))
    · exact .map (runStages_related hosts stages v context) fun a _ same => same ▸ .value a

theorem runSteps_related (hosts : h.Matches k R) (steps : List Morph) (v context : Value) :
    Related R Eq (runSteps h steps v context) (runSteps k steps v context) := by
  cases steps with
  | nil => exact .pure rfl
  | cons m rest =>
    rw [runSteps, runSteps]
    exact .bindEq (execute_related hosts _ _ _ _ (transform_related hosts m v context)) fun v =>
      runSteps_related hosts rest v context

theorem runStepsDeferred_related (hosts : h.Matches k R) (steps : List Morph)
    (v context : Value) :
    Related R Eq (runStepsDeferred h steps v context) (runStepsDeferred k steps v context) := by
  cases steps with
  | nil => exact .pure rfl
  | cons m rest =>
    rw [runStepsDeferred, runStepsDeferred]
    exact .bindEq (executeDeferred_related hosts _ _ _ _ (transform_related hosts m v context))
      fun v => runStepsDeferred_related hosts rest v context

theorem runMembers_related (hosts : h.Matches k R) (members : List Stage) (v context : Value) :
    Related R Eq (runMembers h members v context) (runMembers k members v context) := by
  cases members with
  | nil => exact .pure rfl
  | cons s rest =>
    cases s with
    | mk label m =>
      rw [runMembers, runMembers]
      exact .bindEq (callOnce_related _ _ _ (transform_related hosts m v context)) fun v =>
        runMembers_related hosts rest v context

theorem runStages_related (hosts : h.Matches k R) (stages : List Stage) (v context : Value) :
    Related R Eq (runStages h stages v context) (runStages k stages v context) := by
  cases stages with
  | nil => exact .pure rfl
  | cons s rest =>
    cases s with
    | mk label m =>
      rw [runStages, runStages]
      exact .bindEq (execute_related hosts _ _ _ _ (transform_related hosts m v context)) fun v =>
        runStages_related hosts rest v context

theorem runStagesDeferred_related (hosts : h.Matches k R) (stages : List Stage)
    (v context : Value) :
    Related R Eq (runStagesDeferred h stages v context)
      (runStagesDeferred k stages v context) := by
  cases stages with
  | nil => exact .pure rfl
  | cons s rest =>
    cases s with
    | mk label m =>
      rw [runStagesDeferred, runStagesDeferred]
      exact .bindEq
        (executeDeferred_related hosts _ _ _ _ (transform_related hosts m v context)) fun v =>
          runStagesDeferred_related hosts rest v context

end

theorem apply_related (hosts : h.Matches k R) (m : Morph) (v context : Value) :
    Related R (Reply.Alike R) (apply h m v context) (apply k m v context) := by
  have runs := transform_related hosts m v (contextInEffect context)
  unfold apply
  split
  · exact .pure (.deferred (executeDeferred_related hosts m.head m.name v _ runs))
  · exact .map (execute_related hosts m.head m.name v _ runs) fun a _ same => same ▸ .value a

theorem applyAsync_related (hosts : h.Matches k R) (m : Morph) (v context : Value) :
    Related R Eq (applyAsync h m v context) (applyAsync k m v context) := by
  have others := executeDeferred_related hosts m.head m.name v (contextInEffect context)
    (transform_related hosts m v (contextInEffect context))
  cases m with
  | pipeline head info stages declared => exact runStagesDeferred_related hosts stages v _
  | _ => exact others

end Morph

end MorphEngine
