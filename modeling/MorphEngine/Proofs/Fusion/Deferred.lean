import MorphEngine.Proofs.Fusion.Direct
import MorphEngine.Proofs.Made

/-!
# Fusion on the deferred path

The deferred path awaits what the stages of a pipeline hand out, but the members of a group run on
the direct path even there. So a pipeline that was built with fusion on does what the one that was
built with fusion off does until a member of a group hands out a result that has to be awaited, or
raises a fault whose message cannot be written. From there on the two always differ.
-/

namespace MorphEngine

namespace Fusion

open Morph Builder

variable {U V : Type}

/-- What the deferred path would treat otherwise if the member were not in a group. -/
def IsTreatedOtherwise (ended : Except Fault (Reply U)) : Prop :=
  RaisesUnwritten ended ∨ NeedsAwaiting ended

section Run

variable {h : Host U} {context : Value}

theorem runStagesDeferred_members {members : List Stage}
    (bare : ∀ s ∈ members, s.morph.head.cache = none) {v : Value} {w : World U}
    (through : ¬ ComesTo h context IsTreatedOtherwise members v w) :
    (runStagesDeferred h members v context).runFrom w =
      (runMembers h members v context).runFrom w := by
  induction members generalizing v w with
  | nil => rw [runStagesDeferred, runMembers]
  | cons s rest ih =>
    cases s with
    | mk label m =>
      rw [List.forall_mem_cons] at bare
      have unheld : m.head.cache = none := bare.1
      have first : (awaitOnce h label context (transform h m v context)).runFrom w =
          (callOnce m.head label context (transform h m v context)).runFrom w :=
        awaitOnce_eq_callOnce h fun needs => through (.here (Or.inr needs))
      rw [runStagesDeferred, runMembers, executeDeferred_eq_awaitOnce h unheld]
      rcases ran : (callOnce m.head label context (transform h m v context)).runFrom w
        with ⟨f | v', w'⟩
      · rw [Engine.runFrom_bind_error (first.trans ran), Engine.runFrom_bind_error ran]
      · rw [Engine.runFrom_bind_ok (first.trans ran), Engine.runFrom_bind_ok ran]
        exact ih bare.2 fun comes => through (.later ran comes)

/-- Running the fused stage adds its blame to what its members do. -/
theorem runStagesDeferred_fused {head : Header} {members : List Stage}
    (group : IsGroup head members) (label : Name) (v : Value) :
    runStagesDeferred h [.mk label (.fused head members)] v context =
      Engine.mapFault (Fault.blame label context) (runMembers h members v context) := by
  have settled : (transform h (.fused head members) v context >>= settle h) =
      runMembers h members v context := by
    apply Engine.ext
    intro w
    rw [transform, map_eq_pure_bind, bind_assoc]
    rcases ran : (runMembers h members v context).runFrom w with ⟨f | v', w'⟩
    · rw [Engine.runFrom_bind_error ran]
    · have plain := runMembers_results h group.members_ne_nil v context w v' w' ran
      have ready : (Reply.value v' : Reply U).ready? = some v' := by
        simp only [Reply.ready?, plain, if_false, Bool.false_eq_true]
      rw [Engine.runFrom_bind_ok ran, pure_bind, settle_of_ready h ready, Engine.runFrom_pure]
  rw [runStagesDeferred, executeDeferred_eq_awaitOnce h
    (show (Morph.fused head members).head.cache = none from group.bare), awaitOnce, settled]
  simp only [runStagesDeferred, bind_pure]

end Run

/-- The deferred path. The members of a group stumble there when the direct path treats one of them
otherwise than the deferred path would. -/
def deferredly (h : Host U) (context : Value) : Passage h context where
  run stages v := runStagesDeferred h stages v context
  Stumbles := ComesTo h context IsTreatedOtherwise
  append s t v := runStagesDeferred_append h s t v context
  declared group through := runStagesDeferred_members group.members_bare through
  fused {head members v w} label group through := by
    rw [runStagesDeferred_fused group, Engine.runFrom_mapFault]
    rcases ran : (runMembers h members v context).runFrom w with ⟨f | v', w'⟩
    · have settled := isSettled_of_runMembers (fun _ raises => Or.inl raises) through ran
      rw [mapError_error, settled.blame_eq]
    · rfl

/-- The run of the fused stages on the deferred path comes to a group one of whose members hands out
a result that has to be awaited, or raises a fault whose message cannot be written. -/
def Stumbles (h : Host U) (context : Value) (declared result : List Stage) (v : Value)
    (w : World U) : Prop :=
  ∃ label, (deferredly h context).Parts label declared result v w

section Hosts

variable {h : Host U} {k : Host V} {R : World U → World V → Prop} {context : Value}

theorem IsTreatedOtherwise.of_alike {r : Except Fault (Reply U)} {s : Except Fault (Reply V)}
    (alike : Engine.Alike (Reply.Alike R) r s) (otherwise : IsTreatedOtherwise r) :
    IsTreatedOtherwise s := by
  rcases otherwise with ⟨f, rfl, unwritten⟩ | ⟨reply, rfl, pending⟩
  · cases alike
    exact Or.inl ⟨f, rfl, unwritten⟩
  · cases alike with
    | ok same =>
      cases same with
      | value v => exact Or.inr ⟨_, rfl, pending⟩
      | deferred same => exact Or.inr ⟨_, rfl, rfl⟩

/-- Against hosts that answer alike, members come to the same end. -/
theorem comesTo_of_matches (hosts : h.Matches k R) {members : List Stage} {v : Value}
    {w : World U} {x : World V} (start : R w x)
    (comes : ComesTo h context IsTreatedOtherwise members v w) :
    ComesTo k context IsTreatedOtherwise members v x := by
  induction comes generalizing x with
  | @here label m rest v w ends =>
    exact .here (ends.of_alike (transform_related hosts m v context w x start).1)
  | @later label m rest v v' w w' ran comes ih =>
    have related := callOnce_related m.head label context (transform_related hosts m v context)
    obtain ⟨_, x', other, rfl, after⟩ := related.exists_ok start ran
    exact .later other (ih after)

theorem Stumbles.of_matches (hosts : h.Matches k R) {declared result : List Stage} {v : Value}
    {w : World U} {x : World V} (start : R w x)
    (stumbles : Stumbles h context declared result v w) :
    Stumbles k context declared result v x := by
  obtain ⟨label, parts⟩ := stumbles
  refine ⟨label, ?_⟩
  induction parts generalizing x with
  | here group comes => exact .here group (comesTo_of_matches hosts start comes)
  | @pastStage s declared result v v' w w' ran rest ih =>
    have related := runStagesDeferred_related hosts [s] v context
    obtain ⟨_, x', other, rfl, after⟩ := related.exists_ok start ran
    exact .pastStage other (ih after)
  | @pastGroup head members declared result name v v' w w' group through ran rest ih =>
    obtain ⟨_, x', other, rfl, after⟩ :=
      (runMembers_related hosts members v context).exists_ok start ran
    exact .pastGroup group (fun comes => through (comesTo_of_matches hosts.symm start comes)) other
      (ih after)

end Hosts

section Recorded

variable (h : Host U) (context : Value)

/-- A recorded run of the members that comes to one that is treated otherwise either fails in a way
that no label is on yet, or else the deferred path goes on to ask more of the host. -/
theorem members_part {members : List Stage} (rest : List Stage) {v : Value}
    {x : World (U × List HostCall)} (candidates : ∀ s ∈ members, isCandidate s.morph = true)
    (coherent : ∀ s ∈ members, s.morph.IsCoherent)
    (comes : ComesTo h.recording context IsTreatedOtherwise members v x) :
    (∃ (g g' : Fault) (x' : World (U × List HostCall)), g.GivesWay g' ∧
      (runMembers h.recording members v context).runFrom x = (.error g', x') ∧
      (runStagesDeferred h.recording (members ++ rest) v context).runFrom x = (.error g', x')) ∨
    ∃ f x' entry, f.IsSettled ∧
      (runMembers h.recording members v context).runFrom x = (.error f, x') ∧
      x'.log ++ [entry] <+:
        ((runStagesDeferred h.recording (members ++ rest) v context).runFrom x).2.log := by
  induction comes with
  | @here label m members v x ends =>
    rw [List.forall_mem_cons] at candidates coherent
    have bare : m.head.cache = none := cache_eq_none_of_isCandidate candidates.1
    rcases ran : (transform h.recording m v context).runFrom x with ⟨r, x'⟩
    rw [ran] at ends
    rw [runMembers, List.cons_append, runStagesDeferred, executeDeferred_eq_awaitOnce _ bare]
    rcases ends with ⟨f, rfl, g, gives⟩ | ⟨reply, rfl, pending⟩
    · have called := callOnce_of_fault ran m.head label context
      have awaited := awaitOnce_of_fault h.recording ran label context
      rw [gives.blame_eq] at called awaited
      refine Or.inl ⟨f, g, x', gives, ?_, ?_⟩
      · rw [Engine.runFrom_bind_error called]
      · rw [Engine.runFrom_bind_error awaited]
    · obtain ⟨u, rfl⟩ := transform_replies_value h.recording context coherent.1
        (isAsync_of_isCandidate candidates.1) v x _ x' ran
      have called := callOnce_of_pending ran pending m.head label context
      refine Or.inr ⟨_, x', .await u, .named _ _ _ _, Engine.runFrom_bind_error called, ?_⟩
      have awaitable := Reply.isAwaitable_of_pending pending
      have awaited : (awaitOnce h.recording label context
          (transform h.recording m v context)).runFrom x =
            (((h.await u).runFrom x'.withoutLog).1.mapError (Fault.blame label context),
              ((h.await u).runFrom x'.withoutLog).2.withLog (x'.log ++ [.await u])) := by
        rw [runFrom_awaitOnce, ran]
        simp only [settle, awaitable, if_true, Engine.runFrom_mapFault]
        rfl
      rw [Engine.runFrom_bind, awaited]
      rcases ended : (h.await u).runFrom x'.withoutLog with ⟨f | v', w'⟩
      · exact List.prefix_refl _
      · exact runStagesDeferred_grows h context _ _ (List.prefix_refl _)
  | @later label m members v v' x x' ran comes ih =>
    rw [List.forall_mem_cons] at candidates coherent
    have bare : m.head.cache = none := cache_eq_none_of_isCandidate candidates.1
    rw [runMembers, List.cons_append, runStagesDeferred, executeDeferred_eq_awaitOnce _ bare,
      Engine.runFrom_bind_ok ran,
      Engine.runFrom_bind_ok (awaitOnce_of_callOnce h.recording ran)]
    exact ih candidates.2 coherent.2

end Recorded

variable {name : Name} {stages : List Stage} {fused plain : Morph}

theorem applyAsync_of_builds {fusing : Bool} {m : Morph} (built : Builds name stages fusing m)
    (h : Host U) (input context : Value) :
    applyAsync h m input context =
      runStagesDeferred h m.executed input (contextInEffect context) := by
  obtain ⟨head, info, result, cost, rfl, _⟩ := built.eq_pipeline
  rfl

/-- With fusion on and off a pipeline does the same on the deferred path unless a group stumbles. -/
theorem applyAsync_eq_of_not_stumbles (h : Host U) (fusedBuilt : Builds name stages true fused)
    (plainBuilt : Builds name stages false plain) {input context : Value} {w : World U}
    (through : ¬ Stumbles h (contextInEffect context) stages fused.executed input w) :
    (applyAsync h fused input context).runFrom w =
      (applyAsync h plain input context).runFrom w := by
  rw [applyAsync_of_builds fusedBuilt, applyAsync_of_builds plainBuilt, plainBuilt.executed_eq]
  exact ((deferredly h (contextInEffect context)).run_eq_or_parts fusedBuilt.executed_fuses input
    w).resolve_right through

/-- Where a group stumbles, the outcomes or what is asked of the host differ. -/
theorem Stumbles.applyAsync_ne {h : Host U} (fusedBuilt : Builds name stages true fused)
    (plainBuilt : Builds name stages false plain) (made : ∀ s ∈ stages, s.morph.Made)
    {input context : Value} {x : World (U × List HostCall)}
    (stumbles : Stumbles h.recording (contextInEffect context) stages fused.executed input x) :
    ((applyAsync h.recording fused input context).runFrom x).1 ≠
        ((applyAsync h.recording plain input context).runFrom x).1 ∨
      ((applyAsync h.recording fused input context).runFrom x).2.log ≠
        ((applyAsync h.recording plain input context).runFrom x).2.log := by
  rw [applyAsync_of_builds fusedBuilt, applyAsync_of_builds plainBuilt, plainBuilt.executed_eq]
  generalize contextInEffect context = c at stumbles ⊢
  obtain ⟨label, parts⟩ := stumbles
  obtain ⟨head, members, declared', result', v, w, group, comes, among, alone, together⟩ :=
    parts.exists_group
  have coherent : ∀ s ∈ members, s.morph.IsCoherent := fun s hs => (made s (among s hs)).isCoherent
  have plainRun : (runStagesDeferred h.recording stages input c).runFrom x =
      (runStagesDeferred h.recording (members ++ declared') v c).runFrom w := alone
  have fusedRun : (runStagesDeferred h.recording fused.executed input c).runFrom x =
      (runStagesDeferred h.recording [.mk label (.fused head members)] v c >>=
        fun v => runStagesDeferred h.recording result' v c).runFrom w :=
    together.trans (by rw [(deferredly _ _).run_cons]; rfl)
  have fusedStage := Engine.runFrom_mapFault (Fault.blame label c)
    (runMembers h.recording members v c) w
  rw [← runStagesDeferred_fused group] at fusedStage
  rw [fusedRun, plainRun]
  rcases members_part h c declared' group.candidates coherent comes
    with ⟨g, g', w', gives, ran, ends⟩ | ⟨f, w', entry, settled, ran, goesOn⟩
  · left
    rw [ran, mapError_error, gives.blame_again] at fusedStage
    rw [Engine.runFrom_bind_error fusedStage, ends]
    intro same
    have bare : Fault.IsSettled g' := Except.error.inj same ▸ .named _ _ _ _
    exact gives.not_isSettled_right bare
  · right
    rw [ran, mapError_error, settled.blame_eq] at fusedStage
    rw [Engine.runFrom_bind_error fusedStage]
    intro same
    have longer := goesOn.length_le
    rw [← same, List.length_append] at longer
    exact absurd longer (by simp)

/-- With fusion on and off a pipeline comes to the same outcome on the deferred path and asks the
same of its host exactly when no group stumbles, and then it leaves the same world too. -/
theorem applyAsync_fused_eq_plain_iff (fusedBuilt : Builds name stages true fused)
    (plainBuilt : Builds name stages false plain) (made : ∀ s ∈ stages, s.morph.Made)
    (h : Host U) (input context : Value) (w : World U) :
    let through := ¬ Stumbles h (contextInEffect context) stages fused.executed input w
    (((applyAsync h fused input context).runFrom w).1 =
          ((applyAsync h plain input context).runFrom w).1 ∧
        h.callsDuring (fun k => applyAsync k fused input context) w =
          h.callsDuring (fun k => applyAsync k plain input context) w ↔ through) ∧
      (through → ((applyAsync h fused input context).runFrom w).2 =
        ((applyAsync h plain input context).runFrom w).2) := by
  intro through
  refine ⟨⟨?_, fun goes => ⟨?_, ?_⟩⟩, fun goes => ?_⟩
  · rintro ⟨sameOutcome, sameCalls⟩ stumbles
    have recorded := stumbles.of_matches h.matches_recording (x := w.withLog []) rfl
    have outcome (m : Morph) : ((applyAsync h m input context).runFrom w).1 =
        ((applyAsync h.recording m input context).runFrom (w.withLog [])).1 :=
      ((applyAsync_related h.matches_recording m input context) w (w.withLog []) rfl).1.eq
    rcases recorded.applyAsync_ne fusedBuilt plainBuilt made with differs | differs
    · rw [← outcome, ← outcome] at differs
      exact differs sameOutcome
    · exact differs sameCalls
  · rw [applyAsync_eq_of_not_stumbles h fusedBuilt plainBuilt goes]
  · have recorded : ¬ Stumbles h.recording (contextInEffect context) stages fused.executed input
        (w.withLog []) := fun stumbles => goes (stumbles.of_matches h.matches_recording.symm rfl)
    rw [Host.callsDuring, Host.callsDuring,
      applyAsync_eq_of_not_stumbles h.recording fusedBuilt plainBuilt recorded]
  · rw [applyAsync_eq_of_not_stumbles h fusedBuilt plainBuilt goes]

/-! ### A pipeline that stumbles -/

theorem sampleStages_made : ∀ s ∈ sampleStages, s.morph.Made := by
  have first : create 0 (.text "A") (.function 0 false) .none EngineSettings.default
      [("fusible", .bool true)] = .ok (fusibleStage 0 "A").morph := rfl
  have second : create 1 (.text "B") (.function 1 false) .none EngineSettings.default
      [("fusible", .bool true)] = .ok (fusibleStage 1 "B").morph := rfl
  intro s hs
  simp only [sampleStages, List.mem_cons, List.not_mem_nil, or_false] at hs
  rcases hs with rfl | rfl
  · exact .function first
  · exact .function second

/-- A host whose functions hand out a result that is there only once it is awaited. -/
def lateHost : Host Unit where
  cells := []
  call _ _ _ := pure (.awaitable 0)
  select _ _ := pure .none
  await _ := pure (.int 1)
  now _ _ := .ok (.int 0)

/-- Functions that hand out a result to be awaited are awaited with fusion off and refused with
fusion on. -/
theorem applyAsync_samplePipeline :
    let idle : World Unit := ⟨fun _ => .empty, ()⟩
    let outcome (fusing : Bool) :=
      ((applyAsync lateHost (samplePipeline fusing) (.int 0) .none).runFrom idle).1
    (outcome false).isOk = true ∧ failedUnder (outcome true) = some ("A" : Text) ∧
      Stumbles lateHost .emptyContext sampleStages (samplePipeline true).executed (.int 0)
        idle := by
  intro idle outcome
  have plainWell : (outcome false).isOk = true := by decide +kernel
  have fusedName : failedUnder (outcome true) = some ("A" : Text) := by decide +kernel
  refine ⟨plainWell, fusedName, Classical.byContradiction fun through => ?_⟩
  have same := ((applyAsync_fused_eq_plain_iff (samplePipeline_builds true)
    (samplePipeline_builds false) sampleStages_made lateHost (.int 0) .none idle).1.mpr through).1
  rw [show outcome true = outcome false from same] at fusedName
  rcases ended : outcome false with f | v
  · rw [ended] at plainWell
    cases plainWell
  · rw [ended] at fusedName
    cases fusedName

end Fusion

end MorphEngine
