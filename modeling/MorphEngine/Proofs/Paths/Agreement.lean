import MorphEngine.Proofs.Fusion.Deferred
import MorphEngine.Proofs.Paths.Faults
import MorphEngine.Proofs.Paths.Results

/-!
# Applying on either path

A morph that was made and is not asynchronous does the same on both paths, with two exceptions. One is
a result to be awaited, which the direct path refuses. The other is how the run of its stages ends: a
pipeline puts its own name on a fault only on the direct path.
-/

namespace MorphEngine

namespace Fault

/-- Only the end of an iteration cannot leave a deferred computation as it is. -/
theorem leaveDeferred_eq_self_iff (f : Fault) :
    f.leaveDeferred = f ↔ f.kind ≠ .other "StopIteration" := by
  constructor
  · intro same stops
    rw [leaveDeferred, leave, if_pos stops] at same
    rw [← same] at stops
    cases stops
  · intro goesOn
    exact if_neg goesOn

/-- A name can be put on any fault that is not settled, so it then differs from the fault that leaves
a deferred computation. -/
theorem blame_eq_leaveDeferred_iff (f : Fault) (label : Name) (context : Value) :
    f.blame label context = f.leaveDeferred ↔ f.IsSettled := by
  constructor
  · intro same
    refine Classical.byContradiction fun unsettled => ?_
    by_cases unwritten : f.IsUnwritten
    · obtain ⟨g, gives⟩ := unwritten
      rw [gives.blame_eq] at same
      by_cases stops : f.kind = .other "StopIteration"
      · rw [leaveDeferred, leave, if_pos stops] at same
        rcases gives.cases with rfl | rfl <;> cases same
      · rw [(leaveDeferred_eq_self_iff f).mpr stops] at same
        exact gives.written_right ⟨g, same ▸ gives⟩
    · rw [blame_eq_under unwritten, under_of_not_isSettled unsettled] at same
      by_cases stops : f.kind = .other "StopIteration"
      · rw [leaveDeferred, leave, if_pos stops] at same
        cases same
      · rw [(leaveDeferred_eq_self_iff f).mpr stops] at same
        rw [← same] at unsettled
        exact unsettled (.named _ _ _ _)
  · intro settled
    rw [settled.blame_eq, settled.leaveDeferred_eq]

end Fault

namespace Morph

/-- What the deferred path of a morph runs one after the other: the stages of a pipeline, or the
morph itself. -/
def outerStages : Morph → List Stage
  | pipeline _ _ stages _ => stages
  | m => [.mk m.name m]

/-- The direct path and the deferred one treat the end of the stages otherwise. A pipeline puts its
name on a fault that has none, and refuses a result to be awaited, on the direct path only. The end of
an iteration cannot leave the deferred path. -/
def EndsOtherwise : Morph → Except Fault Value → Prop
  | pipeline _ _ _ _, .error f => ¬ f.IsSettled
  | pipeline _ _ _ _, .ok v => v.isAwaitable = true
  | _, .error f => f.kind = .other "StopIteration"
  | _, .ok _ => False

section Apply

variable {U : Type} (h : Host U)

theorem applyAsync_eq_runStagesDeferred (m : Morph) (input context : Value) :
    applyAsync h m input context =
      runStagesDeferred h m.outerStages input (contextInEffect context) := by
  cases m with
  | pipeline head info stages declared => rfl
  | _ =>
    simp only [outerStages, runStagesDeferred, bind_pure]
    rfl

/-- What a morph makes of the end of its stages on the direct path. -/
def outward (context : Value) : Morph → Except Fault Value → Except Fault Value
  | pipeline head _ _ _, .ok v =>
    if v.isAwaitable then .error (refusal head head.name context) else .ok v
  | pipeline head _ _ _, .error f => .error (f.blame head.name context)
  | _, r => r

theorem runFrom_apply_eq_outward {m : Morph} (coherent : m.IsCoherent) (direct : m.isAsync = false)
    (input context : Value) (w : World U) :
    (apply h m input context).runFrom w =
      ((m.outward (contextInEffect context)
          ((runStages h m.outerStages input (contextInEffect context)).runFrom w).1).map .value,
        ((runStages h m.outerStages input (contextInEffect context)).runFrom w).2) := by
  cases m with
  | pipeline head info stages declared =>
    have single : head.metadata.isAsync = some false := by
      have stated := coherent.2.1
      simp only [isAsync, stated, Option.getD_some] at direct
      rw [stated, direct]
    rw [Fusion.apply_pipeline h coherent.1 single, Engine.runFrom_map, runFrom_callOnce,
      Engine.runFrom_map, outerStages]
    rcases (runStages h stages input (contextInEffect context)).runFrom w with ⟨f | v, w'⟩
    · rfl
    · by_cases awaitable : v.isAwaitable = true
      · simp only [Except.map, Reply.ready?, awaitable, if_true, Option.elim, outward]
      · simp only [Except.map, Reply.ready?, awaitable, if_false, Option.elim, outward,
          Bool.false_eq_true]
  | _ =>
    simp only [apply_of_direct h direct, Engine.runFrom_map, outerStages, runStages, bind_pure,
      outward]

/-- The two paths make the same of the end of the stages just when they do not treat it otherwise. -/
theorem outward_eq_iff (m : Morph) (context : Value) (r : Except Fault Value) :
    m.outward context r = r.mapError Fault.leaveDeferred ↔ ¬ m.EndsOtherwise r := by
  cases m with
  | pipeline head info stages declared =>
    cases r with
    | error f =>
      change _ ↔ ¬ ¬ f.IsSettled
      rw [Classical.not_not, ← Fault.blame_eq_leaveDeferred_iff f head.name context]
      exact ⟨Except.error.inj, congrArg Except.error⟩
    | ok v =>
      by_cases awaitable : v.isAwaitable = true
      · simp [outward, EndsOtherwise, awaitable]
      · simp [outward, EndsOtherwise, awaitable]
  | _ =>
    cases r with
    | error f =>
      change Except.error f = Except.error f.leaveDeferred ↔ f.kind ≠ .other "StopIteration"
      rw [← Fault.leaveDeferred_eq_self_iff]
      exact ⟨fun same => (Except.error.inj same).symm, fun same => congrArg Except.error same.symm⟩
    | ok v =>
      change Except.ok v = Except.ok v ↔ ¬ False
      exact ⟨fun _ => not_false, fun _ => rfl⟩

variable (context : Value)

/-- The two paths of a morph part: the direct run of its stages comes to a result to be awaited, or
the paths treat its end otherwise. -/
def PathsPart (m : Morph) (input : Value) (w : World U) : Prop :=
  ComesToAwaiting h context m.outerStages input w ∨
    m.EndsOtherwise ((runStages h m.outerStages input context).runFrom w).1

end Apply

section Agreement

variable {U : Type} {h : Host U}

theorem outerStages_direct {m : Morph} (coherent : m.IsCoherent) (direct : m.isAsync = false) :
    ∀ s ∈ m.outerStages, s.morph.IsCoherent ∧ s.morph.isAsync = false := by
  cases m with
  | pipeline head info stages declared =>
    obtain ⟨_, stated, parts⟩ := coherent
    have none : (stages.any fun s => s.morph.isAsync) = false := by
      simpa only [isAsync, stated, Option.getD_some] using direct
    intro s hs
    exact ⟨(stagesCoherent_iff stages).mp parts s hs,
      Bool.eq_false_iff.mpr (List.any_eq_false.mp none s hs)⟩
  | _ =>
    intro s hs
    rw [List.mem_singleton.mp hs]
    exact ⟨coherent, direct⟩

/-- Short of parting, the paths come to the same outcome and the same world. -/
theorem applyAsync_of_not_parts {m : Morph} (coherent : m.IsCoherent) (direct : m.isAsync = false)
    {input context : Value} {w : World U}
    (together : ¬ PathsPart h (contextInEffect context) m input w) :
    (apply h m input context).runFrom w =
      (((applyAsync h m input context).runFrom w).1.map .value,
        ((applyAsync h m input context).runFrom w).2) := by
  have stages := runStagesDeferred_eq_runStages fun comes => together (Or.inl comes)
  have same := (outward_eq_iff m (contextInEffect context) _).mpr fun otherwise =>
    together (Or.inr otherwise)
  rw [runFrom_apply_eq_outward h coherent direct, applyAsync_eq_runStagesDeferred, stages, same]

theorem PathsPart.of_matches {V : Type} {k : Host V} {R : World U → World V → Prop} {context : Value}
    (hosts : h.Matches k R) {m : Morph} {input : Value} {w : World U} {x : World V} (start : R w x)
    (parts : PathsPart h context m input w) : PathsPart k context m input x := by
  rcases parts with comes | otherwise
  · exact Or.inl (comes.of_matches hosts start)
  · have same := (runStages_related hosts m.outerStages input context w x start).1.eq
    exact Or.inr (same ▸ otherwise)

theorem map_value_inj {r s : Except Fault Value}
    (same : r.map (Reply.value (U := U)) = s.map .value) : r = s := by
  cases r with
  | error f =>
    cases s with
    | error g =>
      cases same
      rfl
    | ok v => cases same
  | ok u =>
    cases s with
    | error g => cases same
    | ok v =>
      cases same
      rfl

/-- Where the direct path refuses a result to be awaited, the deferred path asks for more. -/
theorem ComesToAwaiting.calls_ne {m : Morph} (coherent : m.IsCoherent) (direct : m.isAsync = false)
    {input context : Value} {w : World U}
    (comes : ComesToAwaiting h (contextInEffect context) m.outerStages input w) :
    h.callsDuring (fun k => apply k m input context) w ≠
      h.callsDuring (fun k => applyAsync k m input context) w := by
  have recorded := comes.of_matches h.matches_recording (x := w.withLog []) rfl
  obtain ⟨f, x', entry, ran, further⟩ := recorded.goesOn h _ (outerStages_direct coherent direct)
  have refused := runFrom_apply_eq_outward h.recording coherent direct input context (w.withLog [])
  rw [ran] at refused
  intro same
  rw [Host.callsDuring, Host.callsDuring, refused, applyAsync_eq_runStagesDeferred] at same
  -- The direct path stops at the refusal; the deferred one goes on and records at least one more call.
  have longer := further.length_le
  rw [← same, List.length_append, List.length_singleton] at longer
  dsimp only at longer
  omega

/-- A fault that a morph treats otherwise on the two paths is not settled. -/
theorem EndsOtherwise.not_isSettled {m : Morph} {f : Fault} (otherwise : m.EndsOtherwise (.error f)) :
    ¬ f.IsSettled := by
  cases m with
  | pipeline head info stages declared => exact otherwise
  | _ =>
    intro settled
    exact (Fault.leaveDeferred_eq_self_iff f).mp settled.leaveDeferred_eq otherwise

/-- Where caches hold results, functions answer at once and keys can be made, the paths part only over
a fault that a stage lets out. -/
theorem pathsPart_iff_of_holdsResults {m : Morph} (coherent : m.IsCoherent)
    (direct : m.isAsync = false) (atOnce : m.Throughout (AnswersAtOnce h)) (keeps : h.KeepsResults)
    {context input : Value} (keys : KeysCanBeMade h context m.outerStages)
    (ready : input.isAwaitable = false) {w : World U} (holds : w.HoldsResults) :
    PathsPart h context m input w ↔
      ∃ f, LetsOut h context m.outerStages input w f ∧ m.EndsOtherwise (.error f) := by
  have stages : ∀ s ∈ m.outerStages, s.morph.Throughout (AnswersAtOnce h) := by
    cases m with
    | pipeline head info stages declared =>
      cases atOnce with
      | intro here parts => exact fun s hs => parts s.morph (List.mem_map_of_mem hs)
    | _ =>
      intro s hs
      rw [List.mem_singleton.mp hs]
      exact atOnce
  have sends : Engine.Sends (fun u => u.isAwaitable = false)
      (runStages h m.outerStages input context) :=
    runStages_sends keeps (fun s hs => transform_sends keeps (stages s hs)) input ready
  constructor
  · rintro (comes | otherwise)
    · exact absurd comes
        (not_comesToAwaiting keeps (outerStages_direct coherent direct) stages ready holds)
    · rcases ended : ((runStages h m.outerStages input context).runFrom w).1 with f | v
      · rw [ended] at otherwise
        exact ⟨f, letsOut_of_not_isSettled keys ended otherwise.not_isSettled, otherwise⟩
      · rw [ended] at otherwise
        have plain := (sends w holds).2 v ended
        cases m with
        | pipeline head info stages declared => exact absurd (plain.symm.trans otherwise) (by decide)
        | _ => exact otherwise.elim
  · rintro ⟨f, lets, otherwise⟩
    exact Or.inr (lets.ends ▸ otherwise)

/-- A morph that was made and is not asynchronous comes to the same outcome on both paths and makes
the same calls exactly when the paths do not part, and then it leaves the same world. While no cache
holds a result to be awaited, functions answer at once and keys can be made, they part only where a
stage lets out a fault: a pipeline puts its name on that, and the end of an iteration cannot be left as
it is. -/
theorem applyAsync_eq_apply_iff {m : Morph} (made : m.Made) (direct : m.isAsync = false)
    (h : Host U) (input context : Value) (w : World U) :
    let together := ¬ PathsPart h (contextInEffect context) m input w
    (((apply h m input context).runFrom w).1 =
          ((applyAsync h m input context).runFrom w).1.map .value ∧
        h.callsDuring (fun k => apply k m input context) w =
          h.callsDuring (fun k => applyAsync k m input context) w ↔ together) ∧
      (together → ((apply h m input context).runFrom w).2 =
        ((applyAsync h m input context).runFrom w).2) ∧
      (m.Throughout (AnswersAtOnce h) → h.KeepsResults → w.HoldsResults →
        KeysCanBeMade h (contextInEffect context) m.outerStages → input.isAwaitable = false →
          (together ↔ ∀ f, LetsOut h (contextInEffect context) m.outerStages input w f →
            ¬ m.EndsOtherwise (.error f))) := by
  intro together
  have coherent := made.isCoherent
  refine ⟨⟨?_, fun goes => ⟨?_, ?_⟩⟩, fun goes => ?_, fun atOnce keeps holds keys ready => ?_⟩
  · rintro ⟨sameOutcome, sameCalls⟩ parts
    -- Where something is awaited the calls differ, and otherwise the outcomes do.
    by_cases comes : ComesToAwaiting h (contextInEffect context) m.outerStages input w
    · exact comes.calls_ne coherent direct sameCalls
    · rcases parts with awaits | otherwise
      · exact comes awaits
      · rw [runFrom_apply_eq_outward h coherent direct, applyAsync_eq_runStagesDeferred,
          runStagesDeferred_eq_runStages comes] at sameOutcome
        exact (outward_eq_iff m _ _).mp (map_value_inj sameOutcome) otherwise
  · rw [applyAsync_of_not_parts coherent direct goes]
  · have recorded : ¬ PathsPart h.recording (contextInEffect context) m input (w.withLog []) :=
      fun parts => goes (parts.of_matches h.matches_recording.symm rfl)
    rw [Host.callsDuring, Host.callsDuring, applyAsync_of_not_parts coherent direct recorded]
  · rw [applyAsync_of_not_parts coherent direct goes]
  · change ¬ _ ↔ _
    rw [pathsPart_iff_of_holdsResults coherent direct atOnce keeps keys ready holds]
    constructor
    · intro none f lets otherwise
      exact none ⟨f, lets, otherwise⟩
    · rintro none ⟨f, lets, otherwise⟩
      exact none f lets otherwise

end Agreement

/-! ### A pipeline whose paths part -/

open Fusion

theorem failedUnder_map {α β : Type} (r : Except Fault α) (g : α → β) :
    failedUnder (r.map g) = failedUnder r := by
  cases r with
  | error f => cases f <;> rfl
  | ok a => rfl

/-- Where functions only fail, none hands out a result to be awaited. -/
theorem answersAtOnce_silentHost (m : Morph) : AnswersAtOnce silentHost m := by
  intro _ fn _ v context w u w' answered
  cases answered

/-- On the direct path the pipeline puts its name on what its first stage lets out, and on the
deferred path nothing does. -/
theorem applyAsync_silentPipeline :
    let idle : World Unit := ⟨fun _ => .empty, ()⟩
    failedUnder ((apply silentHost (samplePipeline false) (.int 0) .none).runFrom idle).1 =
        some ("p" : Text) ∧
      failedUnder ((applyAsync silentHost (samplePipeline false) (.int 0) .none).runFrom idle).1 =
        none ∧
      ∃ f, LetsOut silentHost .emptyContext (samplePipeline false).outerStages (.int 0) idle f ∧
        (samplePipeline false).EndsOtherwise (.error f) := by
  intro idle
  have built := samplePipeline_builds false
  have made : (samplePipeline false).Made := .build sampleStages_made built
  have direct : (samplePipeline false).isAsync = false := by decide +kernel
  have named : failedUnder ((apply silentHost (samplePipeline false) (.int 0) .none).runFrom
      idle).1 = some ("p" : Text) := by decide +kernel
  have unnamed : failedUnder ((applyAsync silentHost (samplePipeline false) (.int 0) .none).runFrom
      idle).1 = none := by decide +kernel
  refine ⟨named, unnamed, Classical.byContradiction fun never => ?_⟩
  obtain ⟨head, info, result, cost, pipe, _, _, _, kept⟩ := built.eq_pipeline
  have stages : (samplePipeline false).outerStages = sampleStages := by
    rw [pipe]
    exact kept
  have atOnce : (samplePipeline false).Throughout (AnswersAtOnce silentHost) := by
    refine .intro (answersAtOnce_silentHost _) fun part among => ?_
    have parts : (samplePipeline false).parts = sampleStages.map (·.morph) := by
      rw [pipe, parts, show result = sampleStages from kept]
    simp only [parts, sampleStages, List.map_cons, List.map_nil, List.mem_cons, List.not_mem_nil,
      or_false] at among
    have leaf (id : Nat) (label : Text) :
        (fusibleStage id label).morph.Throughout (AnswersAtOnce silentHost) :=
      .intro (answersAtOnce_silentHost _) fun _ none => absurd none List.not_mem_nil
    rcases among with rfl | rfl
    · exact leaf 0 "A"
    · exact leaf 1 "B"
  have keeps : silentHost.KeepsResults := ⟨fun _ _ _ _ holds => holds, fun _ _ _ holds => holds⟩
  have holds : idle.HoldsResults := fun _ => MemoCache.keeps_of_empty rfl
  have keys : KeysCanBeMade silentHost .emptyContext (samplePipeline false).outerStages := by
    intro s hs v w
    simp only [stages, sampleStages, List.mem_cons, List.not_mem_nil, or_false] at hs
    rcases hs with rfl | rfl
    · exact ⟨none, w, rfl⟩
    · exact ⟨none, w, rfl⟩
  obtain ⟨agreement, _, cause⟩ :=
    applyAsync_eq_apply_iff made direct silentHost (.int 0) .none idle
  have together := (cause atOnce keeps holds keys rfl).mpr fun f lets otherwise =>
    never ⟨f, lets, otherwise⟩
  rw [(agreement.mpr together).1, failedUnder_map, unnamed] at named
  cases named

end Morph

end MorphEngine
