import MorphEngine.Proofs.Asynchrony.Awaited

/-!
# Running morphs to their end

A morph that is asynchronous is run to its end on the deferred path, any other one on the direct path.
Where nothing but asynchronous morphs hands out what has to be awaited, and what is awaited is there
then, either way ends in a result that is there. A part of an asynchronous sequence is run on the
deferred path even if it is not asynchronous itself; that changes nothing but that the end of an
iteration cannot leave. So a sequence of two morphs without a cache runs one to its end and then the
other, and puts its own label on what comes out without one.
-/

namespace MorphEngine

open Engine

variable {U α β : Type}

/-- Caches are left with results, and whatever is awaited is there then. -/
structure Host.Delivers (h : Host U) : Prop extends h.LeavesResults where
  arrives : ∀ v, (h.await v).ResultsIn Value.IsThere

namespace Fault

theorem leaveDeferred_leaveDeferred (f : Fault) :
    f.leaveDeferred.leaveDeferred = f.leaveDeferred := by
  by_cases stops : f.kind = .other "StopIteration"
  · have stopped : f.leaveDeferred.kind ≠ .other "StopIteration" := by
      rw [leaveDeferred, leave, if_pos stops]
      nofun
    exact if_neg stopped
  · have kept : f.leaveDeferred = f := if_neg stops
    rw [kept, kept]

end Fault

namespace Engine

/-- From caches of results, two computations do the same. -/
def SameFromResults (m n : Engine U α) : Prop :=
  ∀ w, w.HoldsResults → m.runFrom w = n.runFrom w

variable {m n : Engine U α} {P : α → Prop}

theorem SameFromResults.refl (m : Engine U α) : SameFromResults m m := fun _ _ => rfl

theorem SameFromResults.trans {o : Engine U α} (first : SameFromResults m n)
    (second : SameFromResults n o) : SameFromResults m o :=
  fun w start => (first w start).trans (second w start)

theorem SameFromResults.mapFault (same : SameFromResults m n) (g : Fault → Fault) :
    SameFromResults (Engine.mapFault g m) (Engine.mapFault g n) := by
  intro w start
  rw [runFrom_mapFault, runFrom_mapFault, same w start]

/-- What follows has to be the same only for the results that there can be. -/
theorem SameFromResults.bind {k l : α → Engine U β} (same : SameFromResults m n)
    (sends : Sends P m) (next : ∀ a, P a → SameFromResults (k a) (l a)) :
    SameFromResults (m >>= k) (n >>= l) := by
  intro w start
  obtain ⟨after, holds⟩ := sends w start
  rw [runFrom_bind, runFrom_bind, ← same w start]
  rcases ran : m.runFrom w with ⟨f | a, w'⟩
  · rfl
  · rw [ran] at after holds
    exact next a (holds a rfl) w' after

theorem mapFault_bind_apart (g : Fault → Fault) (m : Engine U α) (k : α → Engine U β) :
    mapFault g (m >>= k) = mapFault g m >>= fun a => mapFault g (k a) := by
  apply Engine.ext
  intro w
  simp only [runFrom_mapFault, runFrom_bind]
  rcases m.runFrom w with ⟨f | a, w'⟩
  · rfl
  · simp only [mapError_ok]

/-- Faults that were changed all along are changed in the same way in the end, unless that would be
something else. -/
theorem mapFault_bind {g : Fault → Fault} (settles : ∀ f, g (g f) = g f) (m : Engine U α)
    (k : α → Engine U β) :
    mapFault g (mapFault g m >>= fun a => mapFault g (k a)) = mapFault g (m >>= k) := by
  rw [← mapFault_bind_apart, mapFault_mapFault]
  simp only [settles]

theorem Sends.mapFault (sends : Sends P m) (g : Fault → Fault) :
    Sends P (Engine.mapFault g m) := by
  intro w start
  obtain ⟨after, holds⟩ := sends w start
  rw [runFrom_mapFault]
  refine ⟨after, fun a ended => holds a ?_⟩
  rcases ran : (m.runFrom w).1 with f | b
  · rw [ran] at ended
    cases ended
  · rw [ran] at ended
    exact ended

theorem Sends.foldlM {γ : Type} {f : α → γ → Engine U α} {xs : List γ}
    (each : ∀ x ∈ xs, ∀ a, P a → Sends P (f a x)) {a : α} (holds : P a) :
    Sends P (xs.foldlM f a) := by
  induction xs generalizing a with
  | nil =>
    rw [List.foldlM_nil]
    exact .pure holds
  | cons x rest ih =>
    rw [List.forall_mem_cons] at each
    rw [List.foldlM_cons]
    exact (each.1 a holds).bind fun b holds => ih each.2 holds

end Engine

namespace Morph

/-- A morph that agrees with its parts, and whose functions hand out what has to be awaited only where
they are run by something asynchronous. -/
structure IsPrompt (h : Host U) (m : Morph) : Prop where
  coherent : m.IsCoherent
  atOnce : m.Throughout (AnswersAtOnce h)

section Settled

variable {h : Host U} {context : Value}

/-- A morph that is not asynchronous hands its result out at once. -/
theorem settles_of_direct {m : Morph} (coherent : m.IsCoherent) (direct : m.isAsync = false)
    {v : Value} (replies : Sends (RepliesAtOnce m) (transform h m v context)) :
    Sends Value.IsThere (transform h m v context >>= settle h) := by
  intro w start
  obtain ⟨after, atOnce⟩ := replies w start
  have values := transform_replies_value h context coherent direct v w
  rw [runFrom_bind]
  rcases ran : (transform h m v context).runFrom w with ⟨f | reply, w'⟩
  · rw [ran] at after
    exact ⟨after, fun u ended => nomatch ended⟩
  · rw [ran] at after atOnce
    obtain ⟨u, rfl⟩ := values reply w' ran
    have there : u.isAwaitable = false := atOnce _ rfl direct u rfl
    simp only [settle, there, if_false, Bool.false_eq_true]
    exact ⟨after, fun x ended => Except.ok.inj ended ▸ there⟩

variable (delivers : h.Delivers)

include delivers

theorem settle_sends (u : Value) : Sends Value.IsThere (settle h (.value u)) := by
  cases awaitable : u.isAwaitable with
  | false =>
    simp only [settle, awaitable, if_false, Bool.false_eq_true]
    exact .pure awaitable
  | true =>
    simp only [settle, awaitable, if_true]
    exact fun w start => ⟨delivers.await u w start,
      fun v ended => delivers.arrives u w v _ (Prod.ext ended rfl)⟩

theorem executeDeferred_sends {head : Header} {label : Name} {v : Value}
    {transform : Engine U (Reply U)} (runs : Sends Value.IsThere (transform >>= settle h)) :
    Sends Value.IsThere (executeDeferred h head label v context transform) :=
  (throughCache_sends delivers.toKeepsResults head v (runs.mapFault _)).mapFault _

/-- Run to its end, a transformation comes to a result that is there: one case for each kind of
asynchronous morph. -/
theorem transform_settles {m : Morph} (prompt : m.IsPrompt h) {v : Value} (there : v.IsThere) :
    Sends Value.IsThere (transform h m v context >>= settle h) := by
  obtain ⟨coherent, atOnce⟩ := prompt
  induction atOnce generalizing v with
  | @intro m here parts ih =>
    have replies : Sends (RepliesAtOnce m) (transform h m v context) :=
      transform_sends delivers.toKeepsResults (.intro here parts) v there
    cases async : m.isAsync with
    | false => exact settles_of_direct coherent async replies
    | true =>
      have part {p : Morph} (among : p ∈ m.parts) (partCoherent : p.IsCoherent) {label : Name}
          {u : Value} (there : u.IsThere) : Sends Value.IsThere
            (executeDeferred h p.head label u context (transform h p u context)) :=
        executeDeferred_sends delivers (ih p among there partCoherent)
      cases m with
      | simple head fn =>
        rw [transform, bind_map_left]
        exact (call_sends delivers.toKeepsResults fn v).bind fun u _ => settle_sends delivers u
      | identity head =>
        rw [isAsync, coherent.2] at async
        cases async
      | fused head members =>
        rw [isAsync, coherent.2.1] at async
        cases async
      | composed head steps finish =>
        rw [transform, if_pos async, pure_bind]
        refine Sends.mapFault (.bind (P := Value.IsThere) ?_ fun u there => ?_) _
        · rw [runStepsDeferred_eq_foldlM]
          exact .foldlM (fun p among u there =>
            part among ((areCoherent_iff steps).mp coherent p among) there) there
        · cases finish with
          | none => exact .pure there
          | some fn =>
            exact (call_sends delivers.toKeepsResults fn u).bind fun x _ => settle_sends delivers x
      | conditional head predicate body =>
        have bodyAsync : body.isAsync = true := by
          rwa [isAsync, coherent.2.2.1] at async
        rw [transform, bind_assoc]
        refine (call_sends delivers.toKeepsResults predicate v).bind fun holds _ => ?_
        rw [bind_assoc]
        refine (Sends.ofExcept _).bind fun b _ => ?_
        rw [if_pos bodyAsync]
        split
        · rw [pure_bind]
          exact part List.mem_cons_self coherent.2.2.2 there
        · rw [pure_bind]
          exact settle_sends delivers v
      | pipeline head info stages declared =>
        have deferred : head.metadata.isAsync.getD false = true := async
        rw [transform, if_pos deferred, pure_bind]
        show Sends _ (runStagesDeferred h stages v context)
        rw [runStagesDeferred_eq_foldlM]
        exact .foldlM (fun s among u there => part (List.mem_map_of_mem among)
          ((stagesCoherent_iff stages).mp coherent.2.2 s among) there) there

end Settled

/-- A morph run to its end, on the path that it takes by itself. -/
def runToEnd (h : Host U) (context : Value) (m : Morph) (v : Value) : Engine U Value :=
  if m.isAsync then executeDeferred h m.head m.name v context (transform h m v context)
  else execute h m.head m.name v context (transform h m v context)

/-- A morph applied, and its reply awaited. -/
def complete (h : Host U) (m : Morph) (v context : Value) : Engine U Value :=
  apply h m v context >>= settle h

section ToEnd

variable {h : Host U} (delivers : h.Delivers) (context : Value) {m : Morph}

include delivers

theorem runToEnd_sends (prompt : m.IsPrompt h) {v : Value} (there : v.IsThere) :
    Sends Value.IsThere (runToEnd h context m v) := by
  rw [runToEnd]
  split
  · exact executeDeferred_sends delivers (transform_settles delivers prompt there)
  · exact execute_sends delivers.toKeepsResults m.head m.name v
      (transform_sends delivers.toKeepsResults prompt.atOnce v there).any

/-- Applied and awaited, a morph is run to its end. -/
theorem complete_same (prompt : m.IsPrompt h) {v : Value} (there : v.IsThere) :
    SameFromResults (complete h m v context) (runToEnd h (contextInEffect context) m v) := by
  cases async : m.isAsync with
  | true =>
    rw [complete, apply, runToEnd, if_pos async, if_pos async, pure_bind]
    exact .refl _
  | false =>
    have sends := runToEnd_sends delivers (contextInEffect context) prompt there
    rw [runToEnd, async, if_neg Bool.false_ne_true] at sends ⊢
    rw [complete, apply_of_direct h async, bind_map_left]
    refine (SameFromResults.bind (.refl _) sends fun u there' => ?_).trans (n := _ >>= pure) ?_
    · have ready : u.isAwaitable = false := there'
      simp only [settle, ready, if_false, Bool.false_eq_true]
      exact .refl _
    · rw [bind_pure]
      exact .refl _

/-- On the deferred path a morph is run to its end, but that the end of an iteration cannot leave. -/
theorem executeDeferred_same (prompt : m.IsPrompt h) {v : Value} (there : v.IsThere) :
    SameFromResults (executeDeferred h m.head m.name v context (transform h m v context))
      (mapFault Fault.leaveDeferred (runToEnd h context m v)) := by
  intro w start
  cases async : m.isAsync with
  | true =>
    rw [runToEnd, if_pos async, executeDeferred, mapFault_mapFault]
    simp only [Fault.leaveDeferred_leaveDeferred]
  | false =>
    have through : ¬ ComesToAwaiting h context [.mk m.name m] v w := by
      refine not_comesToAwaiting delivers.toKeepsResults ?_ ?_ there start
      · exact List.forall_mem_singleton.mpr ⟨prompt.coherent, async⟩
      · exact List.forall_mem_singleton.mpr prompt.atOnce
    rw [runToEnd, async, if_neg Bool.false_ne_true, runFrom_mapFault]
    exact executeDeferred_eq_execute m.name fun key w₁ missed needs => through (.here missed needs)

end ToEnd

/-! ### Against a recording host -/

section Recorded

variable {h : Host U}

theorem IsPrompt.recorded {m : Morph} (prompt : m.IsPrompt h) : m.IsPrompt h.recording where
  coherent := prompt.coherent
  atOnce := prompt.atOnce.imp fun _ answers direct fn own v context =>
    (answers direct fn own v context).recorded (h.matches_recording.call fn v context)

end Recorded

end Morph

/-- Recording leaves results and awaitings as they are. -/
theorem Host.Delivers.recorded {h : Host U} (delivers : h.Delivers) : h.recording.Delivers where
  call fn v context w holds := delivers.call fn v context w.withoutLog holds
  select fn context w holds := delivers.select fn context w.withoutLog holds
  await v w holds := delivers.await v w.withoutLog holds
  arrives v := (delivers.arrives v).recorded (h.matches_recording.await v)

end MorphEngine
