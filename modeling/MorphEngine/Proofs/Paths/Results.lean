import MorphEngine.Proofs.Memo.Family
import MorphEngine.Proofs.Paths.Parting

/-!
# Caches that hold results

When no cache holds a result to be awaited, and functions keep it so and hand out none themselves but
for asynchronous morphs, then a morph that is not asynchronous never ends in a result to be awaited.
-/

namespace MorphEngine

variable {U : Type}

/-- No cache holds a result to be awaited. -/
def World.HoldsResults (w : World U) : Prop :=
  ∀ i, (w.caches i).Keeps fun _ _ v => v.isAwaitable = false

/-- Functions and selectors leave caches without results to be awaited. -/
structure Host.KeepsResults (h : Host U) : Prop where
  call : ∀ fn v context w, w.HoldsResults → ((h.call fn v context).runFrom w).2.HoldsResults
  select : ∀ fn context w, w.HoldsResults → ((h.select fn context).runFrom w).2.HoldsResults

theorem World.HoldsResults.update {w : World U} (holds : w.HoldsResults) (slot : Nat)
    {cache : ResultCache} (keeps : cache.Keeps fun _ _ v => v.isAwaitable = false) :
    World.HoldsResults ⟨fun i => if i = slot then cache else w.caches i, w.user⟩ := by
  intro i
  dsimp only
  split
  · exact keeps
  · exact holds i

namespace Engine

variable {α β : Type}

/-- From caches of results, a computation leaves such caches and comes to what a condition holds of.
-/
def Sends (P : α → Prop) (m : Engine U α) : Prop :=
  ∀ w, w.HoldsResults →
    (m.runFrom w).2.HoldsResults ∧ ∀ a, (m.runFrom w).1 = .ok a → P a

variable {P : α → Prop} {Q : β → Prop} {m : Engine U α}

theorem Sends.pure {a : α} (holds : P a) : Sends P (Pure.pure a : Engine U α) :=
  fun _ start => ⟨start, fun _ same => Except.ok.inj same ▸ holds⟩

theorem Sends.throw (f : Fault) : Sends P (MonadExcept.throw f : Engine U α) :=
  fun _ start => ⟨start, fun _ same => nomatch same⟩

theorem Sends.ofExcept (r : Except Fault α) : Sends (fun _ => True) (Engine.ofExcept r : Engine U α) :=
  fun _ start => ⟨start, fun _ _ => trivial⟩

theorem Sends.any (sends : Sends P m) : Sends (fun _ => True) m :=
  fun w start => ⟨(sends w start).1, fun _ _ => trivial⟩

theorem Sends.bind {k : α → Engine U β} (first : Sends P m) (next : ∀ a, P a → Sends Q (k a)) :
    Sends Q (m >>= k) := by
  intro w start
  obtain ⟨after, holds⟩ := first w start
  rw [runFrom_bind]
  rcases ran : m.runFrom w with ⟨f | a, w'⟩
  · rw [ran] at after
    exact ⟨after, fun _ same => nomatch same⟩
  · rw [ran] at after holds
    exact next a (holds a rfl) w' after

theorem Sends.map {g : α → β} (first : Sends P m) (sent : ∀ a, P a → Q (g a)) :
    Sends Q (g <$> m) := by
  rw [map_eq_pure_bind]
  exact first.bind fun a holds => .pure (sent a holds)

theorem Sends.orElse {handle : Fault → Engine U α} (first : Sends P m)
    (next : ∀ f, Sends P (handle f)) : Sends P (m.orElse handle) := by
  intro w start
  obtain ⟨after, holds⟩ := first w start
  rw [runFrom_orElse]
  rcases ran : m.runFrom w with ⟨f | a, w'⟩
  · rw [ran] at after
    exact next f w' after
  · rw [ran] at after holds
    exact ⟨after, holds⟩

theorem Sends.onCache {h : Host U} (clock : Clock) (slot : Nat)
    {f : Except Fault Value → ResultCache → Except Fault α × ResultCache}
    (keeps : ∀ now cache, cache.Keeps (fun _ _ v => v.isAwaitable = false) →
      (f now cache).2.Keeps (fun _ _ v => v.isAwaitable = false) ∧
        ∀ a, (f now cache).1 = .ok a → P a) : Sends P (Engine.onCache h clock slot f) := by
  intro w start
  rw [runFrom_onCache]
  obtain ⟨kept, holds⟩ := keeps (h.now clock w) (w.caches slot) (start slot)
  exact ⟨start.update slot kept, holds⟩

end Engine

namespace Morph

open Engine

/-- No function of the morph hands out a result to be awaited, unless the morph is asynchronous. -/
def AnswersAtOnce (h : Host U) (m : Morph) : Prop :=
  m.isAsync = false → ∀ fn ∈ m.functions, ∀ v context,
    (h.call fn v context).ResultsIn fun u => u.isAwaitable = false

section Run

variable {h : Host U} (keeps : h.KeepsResults) {context : Value}

include keeps

theorem fingerprints_sends (v : Value) (p : ContextProjection) :
    Sends (fun _ => True) (fingerprints h v (project h p context)) := by
  have part : Sends (fun _ => True) (project h p context) := by
    unfold project
    split
    · exact .pure trivial
    · exact .pure trivial
    · exact fun w start => ⟨keeps.select _ _ w start, fun _ _ => trivial⟩
    · exact (Sends.ofExcept _).bind fun names _ => .ofExcept _
  refine Sends.orElse ?_ fun f => ?_
  · exact (Sends.ofExcept _).bind fun a _ => part.bind fun u _ =>
      (Sends.ofExcept _).bind fun b _ => .pure trivial
  · split
    · exact .pure trivial
    · exact .throw f

omit keeps in
theorem cached_sends (head : Header) (key : Option CacheKey) :
    Sends (fun hit => ∀ u, hit = some u → u.isAwaitable = false) (cached h head key) := by
  unfold cached
  split
  · refine .onCache _ _ fun now cache kept => ⟨kept.within (MemoCache.lookup_within _ _ _), ?_⟩
    rintro _ found u rfl
    obtain ⟨e, he, rfl⟩ := MemoCache.exists_of_lookup found
    exact kept.entries e he
  · exact .pure fun u none => nomatch none

omit keeps in
theorem remember_sends (head : Header) (key : Option CacheKey) {v : Value}
    (ready : v.isAwaitable = false) : Sends (fun _ => True) (remember h head key v) := by
  unfold remember
  split
  · exact .onCache _ _ fun now cache kept => ⟨kept.store _ fun _ _ => ready, fun _ _ => trivial⟩
  · exact .pure trivial

theorem consult_sends (head : Header) (v : Value) :
    Sends (fun found => ∀ u, found.2 = some u → u.isAwaitable = false)
      (consult h context head v) := by
  have keys : Sends (fun _ => True) (cacheKey h head v context) := by
    unfold cacheKey
    split
    · exact .pure trivial
    · refine (fingerprints_sends keeps v _).bind fun found _ => ?_
      have skips : Sends (fun _ => True) (modifyCache head.id MemoCache.skip : Engine U Unit) :=
        fun w start => ⟨start.update head.id ((start head.id).within (MemoCache.count_within _ _)),
          fun _ _ => trivial⟩
      split
      · exact .pure trivial
      · exact skips.bind fun _ _ => .pure trivial
  refine keys.bind fun key _ => ?_
  exact (cached_sends head key).bind fun hit ready => .pure ready

omit keeps in
theorem callOnce_sends (head : Header) (label : Name) {transform : Engine U (Reply U)}
    (runs : Sends (fun _ => True) transform) :
    Sends (fun u => u.isAwaitable = false) (callOnce head label context transform) := by
  intro w start
  have after := (runs w start).1
  have ready := callOnce_results head label context transform w
  rw [runFrom_callOnce] at ready ⊢
  generalize transform.runFrom w = ran at after ready ⊢
  obtain ⟨f | reply, w'⟩ := ran
  · exact ⟨after, fun u ended => nomatch ended⟩
  · exact ⟨after, fun u ended => ready u w' (Prod.ext ended rfl)⟩

theorem throughCache_sends (head : Header) (v : Value) {run : Engine U Value}
    (runs : Sends (fun u => u.isAwaitable = false) run) :
    Sends (fun u => u.isAwaitable = false) (throughCache h head v context run) := by
  rw [throughCache_eq_consult]
  refine (consult_sends keeps head v).bind ?_
  rintro ⟨key, _ | hit⟩ held
  · refine runs.bind fun u ready => ?_
    exact (remember_sends head key ready).bind fun _ _ => .pure ready
  · exact .pure (held hit rfl)

theorem execute_sends (head : Header) (label : Name) (v : Value) {transform : Engine U (Reply U)}
    (runs : Sends (fun _ => True) transform) :
    Sends (fun u => u.isAwaitable = false) (execute h head label v context transform) :=
  throughCache_sends keeps head v (callOnce_sends head label runs)

theorem call_sends (fn v : Value) : Sends (fun _ => True) (h.call fn v context) :=
  fun w start => ⟨keeps.call fn v context w start, fun _ _ => trivial⟩

/-- A reply that is no result to be awaited, unless the morph is asynchronous. -/
def RepliesAtOnce (m : Morph) (reply : Reply U) : Prop :=
  m.isAsync = false → ∀ u, reply = .value u → u.isAwaitable = false

/-- A transformation replies at once, from any input that is ready. -/
def SendsReady (h : Host U) (context : Value) (m : Morph) : Prop :=
  ∀ v, v.isAwaitable = false → Sends (RepliesAtOnce m) (transform h m v context)

theorem runSteps_sends {steps : List Morph} (each : ∀ m ∈ steps, SendsReady h context m) (v : Value)
    (ready : v.isAwaitable = false) :
    Sends (fun u => u.isAwaitable = false) (runSteps h steps v context) := by
  induction steps generalizing v with
  | nil =>
    rw [runSteps]
    exact .pure ready
  | cons m rest ih =>
    rw [List.forall_mem_cons] at each
    rw [runSteps]
    exact (execute_sends keeps _ _ v (each.1 v ready).any).bind fun u ready' => ih each.2 u ready'

omit keeps in
theorem runMembers_sends {members : List Stage}
    (each : ∀ s ∈ members, SendsReady h context s.morph) (v : Value)
    (ready : v.isAwaitable = false) :
    Sends (fun u => u.isAwaitable = false) (runMembers h members v context) := by
  induction members generalizing v with
  | nil =>
    rw [runMembers]
    exact .pure ready
  | cons s rest ih =>
    obtain ⟨label, m⟩ := s
    rw [List.forall_mem_cons] at each
    rw [runMembers]
    exact (callOnce_sends _ _ (each.1 v ready).any).bind fun u ready' => ih each.2 u ready'

theorem runStages_sends {stages : List Stage}
    (each : ∀ s ∈ stages, SendsReady h context s.morph) (v : Value)
    (ready : v.isAwaitable = false) :
    Sends (fun u => u.isAwaitable = false) (runStages h stages v context) := by
  induction stages generalizing v with
  | nil =>
    rw [runStages]
    exact .pure ready
  | cons s rest ih =>
    obtain ⟨label, m⟩ := s
    rw [List.forall_mem_cons] at each
    rw [runStages]
    exact (execute_sends keeps _ _ v (each.1 v ready).any).bind fun u ready' => ih each.2 u ready'

/-- Morphs whose functions answer at once do so themselves. -/
theorem transform_sends {m : Morph} (atOnce : m.Throughout (AnswersAtOnce h)) :
    SendsReady h context m := by
  induction atOnce with
  | @intro m here parts ih =>
    intro v ready
    have handedOn {run : Engine U Value} (sends : Sends (fun u => u.isAwaitable = false) run) :
        Sends (RepliesAtOnce m) (.value <$> run : Engine U (Reply U)) :=
      sends.map fun a ready _ u same => Reply.value.inj same ▸ ready
    have putOff (run : Engine U Value) :
        Sends (RepliesAtOnce m) (pure (.deferred run) : Engine U (Reply U)) :=
      .pure fun _ u same => nomatch same
    have answered {fn : Value} (hfn : fn ∈ m.functions) (v : Value) :
        Sends (RepliesAtOnce m) (.value <$> h.call fn v context : Engine U (Reply U)) := by
      have called : Sends (fun u => m.isAsync = false → u.isAwaitable = false)
          (h.call fn v context) := fun w start =>
        ⟨keeps.call fn v context w start, fun u ended direct =>
          here direct fn hfn v context w u _ (Prod.ext ended rfl)⟩
      exact called.map fun a ready direct u same => Reply.value.inj same ▸ ready direct
    cases m with
    | simple head fn =>
      rw [transform]
      exact answered List.mem_cons_self v
    | identity head => exact .pure fun _ u same => Reply.value.inj same ▸ ready
    | composed head steps finish =>
      rw [transform]
      split
      · exact putOff _
      · refine (runSteps_sends keeps ih v ready).bind fun u ready' => ?_
        cases finish with
        | none => exact .pure fun _ u same => Reply.value.inj same ▸ ready'
        | some fn => exact answered List.mem_cons_self u
    | conditional head predicate body =>
      rw [transform]
      refine (call_sends keeps predicate v).bind fun holds _ => (Sends.ofExcept _).bind fun b _ => ?_
      split
      · split
        · exact putOff _
        · exact handedOn (execute_sends keeps _ _ v (ih body List.mem_cons_self v ready).any)
      · exact .pure fun _ u same => Reply.value.inj same ▸ ready
    | fused head members =>
      rw [transform]
      exact handedOn (runMembers_sends (fun s hs => ih s.morph (List.mem_map_of_mem hs)) v ready)
    | pipeline head info stages declared =>
      rw [transform]
      split
      · exact putOff _
      · exact handedOn
          (runStages_sends keeps (fun s hs => ih s.morph (List.mem_map_of_mem hs)) v ready)

/-- From caches of results, stages that are not asynchronous never come to a result to be awaited. -/
theorem not_comesToAwaiting {stages : List Stage}
    (made : ∀ s ∈ stages, s.morph.IsCoherent ∧ s.morph.isAsync = false)
    (atOnce : ∀ s ∈ stages, s.morph.Throughout (AnswersAtOnce h)) {v : Value}
    (ready : v.isAwaitable = false) {w : World U} (holds : w.HoldsResults) :
    ¬ ComesToAwaiting h context stages v w := by
  intro comes
  induction comes with
  | @here label m rest v w w₁ key missed needs =>
    rw [List.forall_mem_cons] at made atOnce
    have after : ((consult h context m.head v).runFrom w).2.HoldsResults :=
      (consult_sends keeps m.head v w holds).1
    rw [missed] at after
    obtain ⟨reply, replied, pending⟩ := needs
    rcases ended : (transform h m v context).runFrom w₁ with ⟨r, w₂⟩
    rw [ended] at replied
    cases replied
    obtain ⟨u, rfl⟩ := transform_replies_value h context made.1.1 made.1.2 v w₁ _ w₂ ended
    have replies : ∀ reply, ((transform h m v context).runFrom w₁).1 = .ok reply →
        RepliesAtOnce m reply := (transform_sends keeps atOnce.1 v ready w₁ after).2
    rw [ended] at replies
    have awaitable := Reply.isAwaitable_of_pending pending
    rw [replies _ rfl made.1.2 u rfl] at awaitable
    cases awaitable
  | @later label m rest v v' w w' ran comes ih =>
    rw [List.forall_mem_cons] at made atOnce
    have runs : Sends (fun _ => True) (transform h m v context) :=
      (transform_sends keeps atOnce.1 v ready).any
    have sends : Sends (fun u => u.isAwaitable = false)
        (execute h m.head label v context (transform h m v context)) :=
      execute_sends keeps m.head label v runs
    have sent := sends w holds
    rw [ran] at sent
    exact ih made.2 atOnce.2 (sent.2 v' rfl) sent.1

end Run

end Morph

end MorphEngine
