import MorphEngine.Proofs.Engine

/-!
# Parts one after the other

Sequences, fused runs and pipelines differ in how one part is run: under which label, on which path,
and whether through its cache. Beyond that each of them hands what one part has come to on to the
next.
-/

namespace MorphEngine

namespace Morph

variable {U : Type} (h : Host U)

theorem runSteps_eq_foldlM (steps : List Morph) (v context : Value) :
    runSteps h steps v context = steps.foldlM
      (fun v m => execute h m.head m.name v context (transform h m v context)) v := by
  induction steps generalizing v with
  | nil => simp only [runSteps, List.foldlM_nil]
  | cons m rest ih => simp only [runSteps, List.foldlM_cons, ih]

theorem runStepsDeferred_eq_foldlM (steps : List Morph) (v context : Value) :
    runStepsDeferred h steps v context = steps.foldlM
      (fun v m => executeDeferred h m.head m.name v context (transform h m v context)) v := by
  induction steps generalizing v with
  | nil => simp only [runStepsDeferred, List.foldlM_nil]
  | cons m rest ih => simp only [runStepsDeferred, List.foldlM_cons, ih]

theorem runMembers_eq_foldlM (members : List Stage) (v context : Value) :
    runMembers h members v context = members.foldlM
      (fun v s => callOnce s.morph.head s.label context (transform h s.morph v context)) v := by
  induction members generalizing v with
  | nil => simp only [runMembers, List.foldlM_nil]
  | cons s rest ih =>
    obtain ⟨label, m⟩ := s
    simp only [runMembers, List.foldlM_cons, ih, Stage.morph, Stage.label]

theorem runStages_eq_foldlM (stages : List Stage) (v context : Value) :
    runStages h stages v context = stages.foldlM
      (fun v s => execute h s.morph.head s.label v context (transform h s.morph v context)) v := by
  induction stages generalizing v with
  | nil => simp only [runStages, List.foldlM_nil]
  | cons s rest ih =>
    obtain ⟨label, m⟩ := s
    simp only [runStages, List.foldlM_cons, ih, Stage.morph, Stage.label]

theorem runStagesDeferred_eq_foldlM (stages : List Stage) (v context : Value) :
    runStagesDeferred h stages v context = stages.foldlM
      (fun v s =>
        executeDeferred h s.morph.head s.label v context (transform h s.morph v context)) v := by
  induction stages generalizing v with
  | nil => simp only [runStagesDeferred, List.foldlM_nil]
  | cons s rest ih =>
    obtain ⟨label, m⟩ := s
    simp only [runStagesDeferred, List.foldlM_cons, ih, Stage.morph, Stage.label]

end Morph

end MorphEngine
