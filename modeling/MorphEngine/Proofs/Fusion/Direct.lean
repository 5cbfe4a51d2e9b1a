import MorphEngine.Proofs.Assembly
import MorphEngine.Proofs.Fusion.Passage
import MorphEngine.Proofs.Recording

/-!
# Fusion on the direct path

A pipeline that was built with fusion on asks its host for the same things in the same order as the
one that was built with fusion off, and leaves the same world. The outcomes are the same too, but
for one kind of fault: when a member of a group raises one whose message cannot be written, the
fault of not being able to write it gets the label of the group instead of the pipeline's name.
-/

namespace MorphEngine

namespace Fusion

open Morph

variable {U : Type} (h : Host U) (context : Value)

/-- Running the fused stage adds its blame to what its members do. -/
theorem runStages_fused {head : Header} {members : List Stage} (group : IsGroup head members)
    (label : Name) (v : Value) :
    runStages h [.mk label (.fused head members)] v context =
      Engine.mapFault (Fault.blame label context) (runMembers h members v context) := by
  have plain := runMembers_results h group.members_ne_nil v context
  rw [runStages, execute_eq_callOnce h (show (Morph.fused head members).head.cache = none
    from group.bare), transform, callOnce_map_value _ _ _ plain]
  simp only [runStages, bind_pure]

variable {h context}

/-- The member that raises a fault without a message fails to put its own label on it. -/
theorem runMembers_of_raisesUnwritten {members : List Stage} {v : Value} {w : World U}
    (comes : ComesTo h context RaisesUnwritten members v w) :
    ∃ (f g : Fault) (w' : World U), f.GivesWay g ∧
      (runMembers h members v context).runFrom w = (.error g, w') := by
  induction comes with
  | @here label m rest v w ends =>
    obtain ⟨f, raised, g, gives⟩ := ends
    rcases ran : (transform h m v context).runFrom w with ⟨r, w'⟩
    rw [ran] at raised
    cases raised
    have called := callOnce_of_fault ran m.head label context
    rw [gives.blame_eq] at called
    refine ⟨f, g, w', gives, ?_⟩
    rw [runMembers, Engine.runFrom_bind_error called]
  | @later label m rest v v' w w' ran comes ih =>
    rw [runMembers, Engine.runFrom_bind_ok ran]
    exact ih

variable (h context)

/-- The direct path. The members of a group stumble there when one of them raises a fault without a
message: any other fault is settled, and the label of the group changes nothing in it. -/
def directly : Passage h context where
  run stages v := runStages h stages v context
  Stumbles := ComesTo h context RaisesUnwritten
  append s t v := runStages_append h s t v context
  declared {head members v w} group _ := by
    rw [runStages_eq_runMembers h group.members_bare]
  fused {head members v w} label group through := by
    rw [runStages_fused h context group, Engine.runFrom_mapFault]
    rcases ran : (runMembers h members v context).runFrom w with ⟨f | v', w'⟩
    · have settled := isSettled_of_runMembers (fun _ raises => raises) through ran
      rw [mapError_error, settled.blame_eq]
    · rfl

/-- The run of the fused stages comes to a group one of whose members raises a fault without a
message. The label is the one of the group. -/
def BreaksOff (label : Name) : List Stage → List Stage → Value → World U → Prop :=
  (directly h context).Parts label

variable {h context}

/-- Where a group breaks off, the stages fail by themselves with a fault that has no label yet, and
fused with the same fault under the label of the group. -/
theorem BreaksOff.runs {label : Name} {declared result : List Stage} {v : Value} {w : World U}
    (breaks : BreaksOff h context label declared result v w) :
    ∃ (f g : Fault) (w' : World U), f.GivesWay g ∧
      (runStages h declared v context).runFrom w = (.error g, w') ∧
      (runStages h result v context).runFrom w =
        (.error (.transform label.given g context true), w') := by
  obtain ⟨head, members, declared', result', v₁, w₁, group, comes, _, alone, together⟩ :=
    breaks.exists_group
  obtain ⟨f, g, w', gives, ran⟩ := runMembers_of_raisesUnwritten comes
  have blamed := Engine.runFrom_mapFault (Fault.blame label context)
    (runMembers h members v₁ context) w₁
  rw [ran, mapError_error, gives.blame_again, ← runStages_fused h context group] at blamed
  rw [← runStages_eq_runMembers h group.members_bare] at ran
  refine ⟨f, g, w', gives, ?_, ?_⟩
  · rw [← Engine.runFrom_bind_error (k := (directly h context).run declared') ran]
    exact alone.trans (by rw [(directly h context).append]; rfl)
  · rw [← Engine.runFrom_bind_error (k := (directly h context).run result') blamed]
    exact together.trans (by rw [(directly h context).run_cons]; rfl)

variable (h)

/-- A pipeline without a cache that is not asynchronous calls its stages once. -/
theorem apply_pipeline {head : Header} {info : PipelineInfo} {stages declared : List Stage}
    (bare : head.cache = none) (direct : head.metadata.isAsync = some false)
    (input context : Value) :
    apply h (.pipeline head info stages declared) input context =
      .value <$> callOnce head head.name (contextInEffect context)
        (.value <$> runStages h stages input (contextInEffect context)) := by
  have notAsync : (Morph.pipeline head info stages declared).isAsync = false := by
    simp only [isAsync, direct, Option.getD_some]
  have replies :
      transform h (.pipeline head info stages declared) input (contextInEffect context) =
        .value <$> runStages h stages input (contextInEffect context) := by
    simp only [transform, direct, Option.getD_some, if_false, Bool.false_eq_true]
  simp only [apply, notAsync, if_false, Bool.false_eq_true, replies]
  rw [execute_eq_callOnce h (show (Morph.pipeline head info stages declared).head.cache = none
    from bare)]
  rfl

open Builder

/-- A built pipeline of direct stages calls the stages that it runs once, under its own name. -/
theorem apply_of_builds {name : Name} {stages : List Stage} {fusing : Bool} {m : Morph}
    (built : Builds name stages fusing m) (direct : ∀ s ∈ stages, s.morph.isAsync = false)
    (input context : Value) :
    ∃ head : Header, head.name = name ∧ apply h m input context =
      .value <$> callOnce head name (contextInEffect context)
        (.value <$> runStages h m.executed input (contextInEffect context)) := by
  have notAsync : m.isAsync = false := by
    rw [built.isAsync_eq, List.any_eq_false]
    exact fun s hs => Bool.eq_false_iff.mp (direct s hs)
  obtain ⟨head, info, result, cost, rfl, rfl, _, declared, _⟩ := built.eq_pipeline
  have bare : head.cache = none := cache_eq_none (by rw [declared]; rfl)
  have async : head.metadata.isAsync = some false := by
    have stated : head.metadata.isAsync = some (result.any fun s => s.morph.isAsync) := by
      rw [declared]
      rfl
    simp only [isAsync, stated, Option.getD_some] at notAsync
    rw [stated, notAsync]
  exact ⟨head, rfl, apply_pipeline h bare async input context⟩

variable {name : Name} {stages : List Stage} {fused plain : Morph}

/-- With fusion on and off a pipeline does the same unless a group breaks off. -/
theorem apply_eq_or_breaksOff (fusedBuilt : Builds name stages true fused)
    (plainBuilt : Builds name stages false plain) (direct : ∀ s ∈ stages, s.morph.isAsync = false)
    (input context : Value) (w : World U) :
    (apply h fused input context).runFrom w = (apply h plain input context).runFrom w ∨
      ∃ label, BreaksOff h (contextInEffect context) label stages fused.executed input w := by
  obtain ⟨head, named, fusedApply⟩ := apply_of_builds h fusedBuilt direct input context
  obtain ⟨head', named', plainApply⟩ := apply_of_builds h plainBuilt direct input context
  rcases (directly h (contextInEffect context)).run_eq_or_parts fusedBuilt.executed_fuses input w
    with same | breaks
  · left
    have ran : (runStages h fused.executed input (contextInEffect context)).runFrom w =
        (runStages h plain.executed input (contextInEffect context)).runFrom w := by
      rw [plainBuilt.executed_eq]
      exact same
    rw [fusedApply, plainApply, Engine.runFrom_map, Engine.runFrom_map,
      runFrom_callOnce, runFrom_callOnce, Engine.runFrom_map, Engine.runFrom_map, ran, refusal,
      refusal, named, named']
  · exact Or.inr breaks

/-- Where a group breaks off, one and the same fault leaves a pipeline under its own name with
fusion off, and under the label of the group with fusion on. -/
theorem BreaksOff.apply_eq {label : Name} {input context : Value} {w : World U}
    (fusedBuilt : Builds name stages true fused) (plainBuilt : Builds name stages false plain)
    (direct : ∀ s ∈ stages, s.morph.isAsync = false)
    (breaks : BreaksOff h (contextInEffect context) label stages fused.executed input w) :
    ∃ g w', (apply h plain input context).runFrom w =
        (.error (.transform name.given g (contextInEffect context) true), w') ∧
      (apply h fused input context).runFrom w =
        (.error (.transform label.given g (contextInEffect context) true), w') := by
  obtain ⟨head, _, fusedApply⟩ := apply_of_builds h fusedBuilt direct input context
  obtain ⟨head', _, plainApply⟩ := apply_of_builds h plainBuilt direct input context
  obtain ⟨f, g, w', gives, declaredRun, fusedRun⟩ := breaks.runs
  have blamed := gives.blame_again name (contextInEffect context)
  refine ⟨g, w', ?_, ?_⟩
  · rw [plainApply, Engine.runFrom_map, runFrom_callOnce, Engine.runFrom_map,
      plainBuilt.executed_eq, declaredRun]
    simp only [Except.map, blamed]
  · rw [fusedApply, Engine.runFrom_map, runFrom_callOnce, Engine.runFrom_map, fusedRun]
    rfl

/-- With fusion on and off a pipeline is declared alike, asks the host for the same, and leaves the
same world. Its outcomes are the same exactly when no group breaks off whose label differs from the
pipeline's name. -/
theorem apply_fused_eq_plain_iff (fusedBuilt : Builds name stages true fused)
    (plainBuilt : Builds name stages false plain)
    (direct : ∀ s ∈ stages, s.morph.isAsync = false) :
    (fused.isPure = plain.isPure ∧ fused.cost = plain.cost ∧ fused.isAsync = plain.isAsync) ∧
    ∀ {U : Type} (h : Host U) (input context : Value) (w : World U),
      ((apply h fused input context).runFrom w).2 = ((apply h plain input context).runFrom w).2 ∧
      h.callsDuring (fun k => apply k fused input context) w =
        h.callsDuring (fun k => apply k plain input context) w ∧
      (((apply h fused input context).runFrom w).1 = ((apply h plain input context).runFrom w).1 ↔
        ∀ label, BreaksOff h (contextInEffect context) label stages fused.executed input w →
          label.given = name.given) := by
  have sameWorld : ∀ {U : Type} (h : Host U) (input context : Value) (w : World U),
      ((apply h fused input context).runFrom w).2 =
        ((apply h plain input context).runFrom w).2 := by
    intro U h input context w
    rcases apply_eq_or_breaksOff h fusedBuilt plainBuilt direct input context w
      with same | ⟨label, breaks⟩
    · rw [same]
    · obtain ⟨g, w', plainRun, fusedRun⟩ := breaks.apply_eq h fusedBuilt plainBuilt direct
      rw [plainRun, fusedRun]
  refine ⟨⟨?_, ?_, ?_⟩, fun h input context w => ⟨sameWorld h input context w, ?_, ?_, ?_⟩⟩
  · rw [fusedBuilt.isPure_eq, plainBuilt.isPure_eq]
  · exact Except.ok.inj (fusedBuilt.cost_eq.symm.trans plainBuilt.cost_eq)
  · rw [fusedBuilt.isAsync_eq, plainBuilt.isAsync_eq]
  · rw [Host.callsDuring, Host.callsDuring, sameWorld]
  · intro same label breaks
    obtain ⟨g, w', plainRun, fusedRun⟩ := breaks.apply_eq h fusedBuilt plainBuilt direct
    rw [plainRun, fusedRun] at same
    injection same with same
    injection same with named
  · intro harmless
    rcases apply_eq_or_breaksOff h fusedBuilt plainBuilt direct input context w
      with same | ⟨label, breaks⟩
    · rw [same]
    · obtain ⟨g, w', plainRun, fusedRun⟩ := breaks.apply_eq h fusedBuilt plainBuilt direct
      rw [plainRun, fusedRun, harmless label breaks]

/-! ### A pipeline that breaks off -/

/-- A stage of a function that may be fused. -/
def fusibleStage (id : Nat) (label : Text) : Stage :=
  .mk label (.simple ⟨id, label, { MorphMetadata.default with fusible := true }, none, nofun⟩
    (.function id false))

def sampleStages : List Stage := [fusibleStage 0 "A", fusibleStage 1 "B"]

/-- A builder of the two stages, with fusion on or off. -/
def sampleBench (fusing : Bool) : Workbench :=
  ⟨⟨("p" : Text), { EngineSettings.default with fusionEnabled := .bool fusing }, sampleStages,
    none⟩, .missing⟩

/-- What the builder makes. -/
def samplePipeline (fusing : Bool) : Morph :=
  match (build [] 2 3 .none []).run (sampleBench fusing) with
  | (.ok m, _) => m
  | (.error _, _) => (fusibleStage 0 "A").morph

theorem samplePipeline_builds (fusing : Bool) :
    Builds ("p" : Text) sampleStages fusing (samplePipeline fusing) := by
  have works : ((build [] 2 3 .none []).run (sampleBench fusing)).1.isOk = true := by
    cases fusing <;> decide +kernel
  have switch : (sampleBench fusing).builder.settings.isFusing [] = .ok fusing := rfl
  rcases ran : (build [] 2 3 .none []).run (sampleBench fusing) with ⟨f | m, bench⟩
  · rw [ran] at works
    cases works
  · have made : samplePipeline fusing = m := by rw [samplePipeline, ran]
    rw [made]
    exact .intro rfl rfl switch ran

/-- A host whose functions fail with a key that has too many digits to be written. -/
def silentHost : Host Unit where
  cells := []
  call _ _ _ := throw (.missingKey (.int (Int.ofNat (Nat.pow 10 5000))))
  select _ _ := pure .none
  await v := pure v
  now _ _ := .ok (.int 0)

/-- The text of the name that a failed transformation carries. -/
def failedUnder {α : Type} : Except Fault α → Option Text
  | .error (.transform label _ _ _) => label.text?
  | _ => none

/-- What fails under the name of the pipeline with fusion off fails under the label of the group
with fusion on. -/
theorem apply_samplePipeline :
    let idle : World Unit := ⟨fun _ => .empty, ()⟩
    let outcome (fusing : Bool) :=
      ((apply silentHost (samplePipeline fusing) (.int 0) .none).runFrom idle).1
    (samplePipeline true).cost = (samplePipeline false).cost ∧
      failedUnder (outcome false) = some ("p" : Text) ∧
      failedUnder (outcome true) = some ("fused[A+B]" : Text) ∧
      ∃ label : Name, label.given ≠ Name.given ("p" : Text) ∧
        BreaksOff silentHost .emptyContext label sampleStages (samplePipeline true).executed
          (.int 0) idle := by
  intro idle outcome
  have direct : ∀ s ∈ sampleStages, s.morph.isAsync = false := by decide +kernel
  obtain ⟨⟨_, cost, _⟩, runs⟩ := apply_fused_eq_plain_iff (samplePipeline_builds true)
    (samplePipeline_builds false) direct
  have plainName : failedUnder (outcome false) = some ("p" : Text) := by decide +kernel
  have fusedName : failedUnder (outcome true) = some ("fused[A+B]" : Text) := by decide +kernel
  refine ⟨cost, plainName, fusedName, Classical.byContradiction fun never => ?_⟩
  have harmless : ∀ label : Name, BreaksOff silentHost .emptyContext label sampleStages
      (samplePipeline true).executed (.int 0) idle → label.given = Name.given ("p" : Text) :=
    fun label breaks => Classical.byContradiction fun differs => never ⟨label, differs, breaks⟩
  have same := (runs silentHost (.int 0) .none idle).2.2.mpr harmless
  rw [show outcome true = outcome false from same, plainName] at fusedName
  exact absurd fusedName (by decide)

end Fusion

end MorphEngine
