import MorphEngine.Builder
import MorphEngine.Proofs.Fusion.Pieces

/-!
# The pipelines that builders make

A builder that has built a pipeline has given it its own name and declared stages. The pipeline runs
those stages, or what fusion makes of them; its purity and cost come from the declared stages, and
whether it is asynchronous from the stages that it runs.
-/

namespace MorphEngine

/-- The stages that a pipeline runs. -/
def Morph.executed : Morph → List Stage
  | .pipeline _ _ stages _ => stages
  | _ => []

namespace Builder

open Fusion

/-- What is declared about a pipeline of declared stages that runs the given ones. -/
def declaration (declared : List Stage) (cost : Quantity) (stages : List Stage) : MorphMetadata :=
  { MorphMetadata.default with
    pure := (declared.map (·.morph)).all Morph.isPure
    cost := cost
    isAsync := some (stages.any fun s => s.morph.isAsync) }

theorem assemble_eq_ok {b : Builder} {id : Nat} {labels : Labels} {stages : List Stage}
    {fusion : FusionReport} {m : Morph} (made : b.assemble id labels stages fusion = .ok m) :
    ∃ head cost, m = .pipeline head ⟨labels, fusion⟩ stages b.stages ∧ head.name = b.name ∧
      declaredCost b.stages = .ok cost ∧ head.metadata = declaration b.stages cost stages := by
  obtain ⟨total, summed, made⟩ := bind_eq_ok made
  obtain ⟨cost, read, made⟩ := bind_eq_ok made
  obtain ⟨head, header, made⟩ := bind_eq_ok made
  cases made
  obtain ⟨_, named, declared⟩ := makeHeader_eq_ok header
  have costs : declaredCost b.stages = .ok cost := by
    rw [declaredCost, summed]
    exact read
  exact ⟨head, cost, rfl, Morph.readName_given named, costs, declared⟩

/-- A step that only looks something up leaves the state as it is. -/
theorem ofExcept_eq_ok {α : Type} {r : Except Fault α} {a : α} {s s' : Workbench}
    (ran : (ofExcept r).run s = (.ok a, s')) : r = .ok a ∧ s' = s := by
  cases ran
  exact ⟨rfl, rfl⟩

theorem liftM_eq_ok {α : Type} {r : Except Fault α} {a : α} {s s' : Workbench}
    (ran : (liftM r : Change α).run s = (.ok a, s')) : r = .ok a ∧ s' = s := by
  cases r with
  | error f => cases ran
  | ok b =>
    cases ran
    exact ⟨rfl, rfl⟩

/-- A build that ends well has chosen whether to fuse, and put the pipeline together. -/
theorem build_eq_ok {cells : Cells} {id firstId : Nat} {metadata : Value} {options : Fields}
    {bench bench' : Workbench} {m : Morph}
    (built : (build cells id firstId metadata options).run bench = (.ok m, bench')) :
    ∃ fusing labels stages fusion, bench.builder.settings.isFusing cells = .ok fusing ∧
      bench.builder.optimize fusing firstId = .ok (stages, fusion) ∧
      bench.builder.assemble id labels stages fusion = .ok m := by
  obtain ⟨b, s, ran, built⟩ := exists_of_run_bind_eq_ok built
  cases ran
  obtain ⟨_, s, ran, built⟩ := exists_of_run_bind_eq_ok built
  obtain ⟨_, rfl⟩ := ofExcept_eq_ok ran
  obtain ⟨labels, s, ran, built⟩ := exists_of_run_bind_eq_ok built
  obtain ⟨_, rfl⟩ := ofExcept_eq_ok ran
  obtain ⟨_, s, ran, built⟩ := exists_of_run_bind_eq_ok built
  obtain ⟨_, rfl⟩ := ofExcept_eq_ok ran
  obtain ⟨fusing, s, ran, built⟩ := exists_of_run_bind_eq_ok built
  obtain ⟨switch, rfl⟩ := liftM_eq_ok ran
  obtain ⟨⟨stages, fusion⟩, s, ran, built⟩ := exists_of_run_bind_eq_ok built
  obtain ⟨optimized, rfl⟩ := ofExcept_eq_ok ran
  obtain ⟨pipeline, s, ran, built⟩ := exists_of_run_bind_eq_ok built
  obtain ⟨assembled, rfl⟩ := ofExcept_eq_ok ran
  obtain ⟨_, s, _, built⟩ := exists_of_run_bind_eq_ok built
  obtain ⟨_, s, _, built⟩ := exists_of_run_bind_eq_ok built
  cases built
  exact ⟨fusing, labels, stages, fusion, switch, optimized, assembled⟩

/-- The pipeline is what some builder of the given name and stages builds, whose settings say
whether to fuse. -/
inductive Builds (name : Name) (stages : List Stage) (fusing : Bool) (m : Morph) : Prop
  | intro {bench bench' : Workbench} {cells : Cells} {id firstId : Nat} {metadata : Value}
      {options : Fields} (named : bench.builder.name = name)
      (staged : bench.builder.stages = stages)
      (switch : bench.builder.settings.isFusing cells = .ok fusing)
      (ran : (build cells id firstId metadata options).run bench = (.ok m, bench'))

theorem Builds.eq_pipeline {name : Name} {stages : List Stage} {fusing : Bool} {m : Morph}
    (built : Builds name stages fusing m) :
    ∃ head info result cost, m = .pipeline head info result stages ∧ head.name = name ∧
      declaredCost stages = .ok cost ∧ head.metadata = declaration stages cost result ∧
      if fusing then Fuses stages result else result = stages := by
  obtain ⟨named, staged, switch, ran⟩ := built
  obtain ⟨switched, labels, result, fusion, stated, optimized, assembled⟩ := build_eq_ok ran
  have agree : switched = fusing := Except.ok.inj (stated.symm.trans switch)
  subst agree named staged
  obtain ⟨head, cost, made, headNamed, costs, declared⟩ := assemble_eq_ok assembled
  refine ⟨head, ⟨labels, fusion⟩, result, cost, made, headNamed, costs, declared, ?_⟩
  cases switched with
  | true => exact fuse_fuses optimized
  | false =>
    cases optimized
    rfl

theorem Builds.executed_fuses {name : Name} {stages : List Stage} {m : Morph}
    (built : Builds name stages true m) : Fuses stages m.executed := by
  obtain ⟨head, info, result, cost, rfl, _, _, _, fuses⟩ := built.eq_pipeline
  exact fuses

theorem Builds.executed_eq {name : Name} {stages : List Stage} {m : Morph}
    (built : Builds name stages false m) : m.executed = stages := by
  obtain ⟨head, info, result, cost, rfl, _, _, _, kept⟩ := built.eq_pipeline
  exact kept

variable {name : Name} {stages : List Stage} {fusing : Bool} {m : Morph}

/-- Whatever it runs, a pipeline is asynchronous when a declared stage is. -/
theorem Builds.isAsync_eq (built : Builds name stages fusing m) :
    m.isAsync = stages.any fun s => s.morph.isAsync := by
  obtain ⟨head, info, result, cost, rfl, _, _, declared, runs⟩ := built.eq_pipeline
  have executed : (Morph.pipeline head info result stages).isAsync =
      result.any fun s => s.morph.isAsync := by
    simp only [Morph.isAsync, declared, declaration, Option.getD_some]
  rw [executed]
  cases fusing with
  | true => exact Fuses.any_isAsync runs
  | false =>
    have kept : result = stages := runs
    rw [kept]

theorem Builds.isPure_eq (built : Builds name stages fusing m) :
    m.isPure = (stages.map (·.morph)).all Morph.isPure := by
  obtain ⟨head, info, result, cost, rfl, _, _, declared, _⟩ := built.eq_pipeline
  rw [Morph.isPure, Morph.metadata, Morph.head, declared]
  rfl

theorem Builds.cost_eq (built : Builds name stages fusing m) :
    declaredCost stages = .ok m.cost := by
  obtain ⟨head, info, result, cost, rfl, _, costs, declared, _⟩ := built.eq_pipeline
  rw [costs, Morph.cost, Morph.metadata, Morph.head, declared]
  rfl

end Builder

end MorphEngine
