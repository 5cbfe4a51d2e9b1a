import MorphEngine.Proofs.Fusion.Direct
import MorphEngine.Proofs.Fusion.Pieces

/-!
# Labels after fusion

When the declared labels are all different, so are the labels of the stages that are executed: each
fused stage gets a label that no declared stage has and no fused stage before it has, even where the
declared labels look like those of fused stages.
-/

namespace MorphEngine

namespace Fusion

variable {firstId start : Nat} {taken before : List Text} {pieces : List Piece}

def labelTexts (stages : List Stage) : List Text := stages.map (·.label.text)

@[simp] theorem labelTexts_nil : labelTexts [] = [] := rfl

@[simp] theorem labelTexts_cons (s : Stage) (stages : List Stage) :
    labelTexts (s :: stages) = s.label.text :: labelTexts stages := rfl

@[simp] theorem labelTexts_append (stages more : List Stage) :
    labelTexts (stages ++ more) = labelTexts stages ++ labelTexts more := List.map_append

/-- Where all labels up to a place and all declared ones from there on are taken and different, the
labels that are executed are different. -/
theorem Laid.nodup_labels (laid : Laid firstId start taken pieces)
    (known : ∀ t ∈ before ++ labelTexts (pieces.flatMap Piece.members), t ∈ taken)
    (distinct : (before ++ labelTexts (pieces.flatMap Piece.members)).Nodup) :
    (before ++ labelTexts (pieces.map Piece.stage)).Nodup := by
  induction laid generalizing before with
  | nil => exact distinct
  | @kept start taken pieces s rest ih =>
    rw [List.flatMap_cons, labelTexts_append] at known distinct
    rw [List.map_cons, labelTexts_cons, List.append_cons]
    refine ih ?_ ?_
    · rw [← List.append_cons]
      exact known
    · rw [← List.append_cons]
      exact distinct
  | @fused start taken pieces head members many candidates finds made rest ih =>
    rw [List.flatMap_cons, labelTexts_append] at known distinct
    -- The labels of the members give way to the new one, which is among none of the others.
    have others : (before ++ labelTexts (pieces.flatMap Piece.members)).Sublist
        (before ++ (labelTexts members ++ labelTexts (pieces.flatMap Piece.members))) :=
      (List.sublist_append_right _ _).append_left before
    have stillKnown : ∀ t ∈ before ++ labelTexts (pieces.flatMap Piece.members), t ∈ taken :=
      fun t ht => known t (others.subset ht)
    have unused : head.name.text ∉ before ++ labelTexts (pieces.flatMap Piece.members) :=
      fun among => finds.not_mem (stillKnown _ among)
    rw [List.map_cons, labelTexts_cons, List.append_cons]
    refine ih ?_ ?_
    · intro t ht
      rw [← List.append_cons, List.mem_append, List.mem_cons] at ht
      rcases ht with earlier | rfl | later
      · exact List.mem_append_left _ (stillKnown t (List.mem_append_left _ earlier))
      · exact List.mem_append_right _ List.mem_cons_self
      · exact List.mem_append_left _ (stillKnown t (List.mem_append_right _ later))
    · rw [← List.append_cons, List.nodup_middle, List.nodup_cons]
      exact ⟨unused, distinct.sublist others⟩

/-- Every search for a free name ends. When the declared labels are different, so are the labels that
are executed, and those that the pass has made up differ from all declared ones. -/
theorem fuse_keeps_labels_apart (firstId : Nat) {stages : List Stage}
    (distinct : (labelTexts stages).Nodup) :
    (∀ taken base start,
      Finds taken base base start (freeName taken base (taken.length + 1) base start)) ∧
    match fuse firstId stages with
    | .ok (result, _) => (labelTexts result).Nodup ∧
      ∃ pieces, Laid firstId 0 (labelTexts stages) pieces ∧
        pieces.flatMap Piece.members = stages ∧ pieces.map Piece.stage = result ∧
        ∀ head members, .fused head members ∈ pieces →
          ∀ s ∈ stages, head.name.text ≠ s.label.text
    | .error f => LacksCost stages f := by
  refine ⟨finds_freeName, ?_⟩
  have pass := fuse_cases firstId stages
  rcases fused : fuse firstId stages with f | ⟨result, report⟩
  · rw [fused] at pass
    exact pass
  · rw [fused] at pass
    obtain ⟨pieces, laid, segmented, rfl, _⟩ := pass
    have covers := covers_of_segmented segmented
    have apart : ([] ++ labelTexts (pieces.map Piece.stage)).Nodup := by
      refine laid.nodup_labels (fun t ht => ?_) ?_
      · rw [covers] at ht
        exact ht
      · rw [covers]
        exact distinct
    refine ⟨apart, pieces, laid, covers, rfl, fun head members among s hs same => ?_⟩
    exact (laid.created head members among).1 (same ▸ List.mem_map_of_mem hs)

/-! Two stages that are fused stand before two that have the first names for them. -/

/-- A stage that is not fused. -/
def plainStage (label : Text) : Stage := .mk label (.identity (bareHead 0 label .default))

def imitatedStages : List Stage :=
  sampleStages ++ [plainStage "fused[A+B]", plainStage "fused[A+B]@0"]

theorem fuse_imitatedStages :
    (labelTexts imitatedStages).Nodup ∧
      ∃ result report, fuse 2 imitatedStages = .ok (result, report) ∧
        labelTexts result = (["fused[A+B]@1", "fused[A+B]", "fused[A+B]@0"] : List Text) ∧
        (labelTexts result).Nodup := by
  have distinct : (labelTexts imitatedStages).Nodup := by decide +kernel
  have labels : (fuse 2 imitatedStages).toOption.map (fun made => labelTexts made.1) =
      some (["fused[A+B]@1", "fused[A+B]", "fused[A+B]@0"] : List Text) := by decide +kernel
  have apart := (fuse_keeps_labels_apart 2 distinct).2
  refine ⟨distinct, ?_⟩
  rcases fused : fuse 2 imitatedStages with f | ⟨result, report⟩
  · rw [fused] at labels
    cases labels
  · rw [fused] at labels apart
    exact ⟨result, report, rfl, Option.some.inj labels, apart.1⟩

end Fusion

end MorphEngine
