import MorphEngine.Proofs.Fusion.Pieces

/-!
# A second pass finds nothing to fuse

The runs that a pass closes are as long as they can be, and a fused stage is no candidate. So no two
candidates are left next to each other, and a pass over what a pass has made leaves it as it is.
-/

namespace MorphEngine

namespace Fusion

variable {firstId start : Nat} {taken : List Text} {pieces : List Piece} {stages : List Stage}
  {pass : Pass}

/-- A piece that is executed as a candidate is a stage that was kept. -/
theorem Laid.eq_kept (laid : Laid firstId start taken pieces) :
    ∀ p ∈ pieces, isCandidate p.stage.morph = true → p = .kept p.stage := by
  intro p among candidate
  cases p with
  | kept s => rfl
  | fused head members =>
    obtain ⟨_, _, _, id, made⟩ := laid.created head members among
    exact absurd candidate (not_isCandidate_of_fusedMorph made)

/-- No two candidates are next to each other. -/
def IsSettled (stages : List Stage) : Prop := stages.IsChain fun s t => areCandidates s t = false

/-- Pieces that cover segments are executed as stages of which no neighbours are candidates. -/
theorem Laid.isSettled (laid : Laid firstId start taken pieces)
    (segmented : pieces.map Piece.members = segments stages) :
    IsSettled (pieces.map Piece.stage) := by
  have apart := List.isChain_getLast_head_splitBy areCandidates stages
  change (segments stages).IsChain _ at apart
  rw [← segmented, List.isChain_iff_getElem] at apart
  rw [IsSettled, List.isChain_iff_getElem]
  intro i hi
  rw [List.length_map] at hi
  rw [List.getElem_map, List.getElem_map, Bool.eq_false_iff]
  intro both
  rw [areCandidates, Bool.and_eq_true] at both
  obtain ⟨some, some', unrelated⟩ := apart i (by rwa [List.length_map])
  have first := laid.eq_kept _ (List.getElem_mem (by omega)) both.1
  have second := laid.eq_kept _ (List.getElem_mem hi) both.2
  have members (p : Piece) (kept : p = .kept p.stage) : p.members = [p.stage] := by
    rw [kept]
    rfl
  simp only [List.getElem_map, members _ first, members _ second, List.getLast_singleton,
    List.head_cons] at unrelated
  rw [areCandidates, both.1, both.2] at unrelated
  cases unrelated

theorem segments_of_isSettled (settled : IsSettled stages) :
    segments stages = stages.map fun s => [s] := by
  have joined : (stages.map fun s => [s]).flatten = stages := by
    rw [← List.flatMap_def, List.flatMap_singleton']
  have split := List.splitBy_flatten (r := areCandidates) (l := stages.map fun s => [s]) ?_ ?_ ?_
  · rwa [joined] at split
  · intro none
    obtain ⟨s, _, same⟩ := List.mem_map.mp none
    cases same
  · intro m hm
    obtain ⟨s, _, rfl⟩ := List.mem_map.mp hm
    exact List.isChain_singleton s
  · rw [List.isChain_map]
    exact settled.imp fun s t apart => ⟨List.cons_ne_nil _ _, List.cons_ne_nil _ _, apart⟩

/-- Single stages are closed as they are. -/
theorem closeAll_singletons (stages : List Stage) :
    closeAll firstId start (stages.map fun s => [s]) pass =
      .ok { pass with stages := pass.stages ++ stages } := by
  induction stages generalizing start pass with
  | nil => rw [List.map_nil, closeAll, List.append_nil]
  | cons s rest ih =>
    have alone : [s].length < 2 := Nat.lt_add_one 1
    rw [List.map_cons, closeAll, closeRun_short alone]
    exact ih.trans (by rw [List.append_assoc, List.singleton_append])

/-- A pass over stages without neighbouring candidates leaves them and reports no group. -/
theorem fuse_of_isSettled (firstId : Nat) (settled : IsSettled stages) :
    fuse firstId stages = .ok (stages, ⟨true, stages.length, stages.length, []⟩) := by
  rw [fuse_eq_closeAll, segments_of_isSettled settled, closeAll_singletons]
  rfl

/-- For every list of stages a pass leaves no two candidates next to each other, and a second pass
over what it has made changes nothing and reports no group. The first pass fails only when a run of
candidates lacks a cost. -/
theorem fuse_again (firstId : Nat) (stages : List Stage) :
    match fuse firstId stages with
    | .ok (result, _) => IsSettled result ∧
        ∀ laterId, fuse laterId result = .ok (result, ⟨true, result.length, result.length, []⟩)
    | .error f => LacksCost stages f := by
  have pass := fuse_cases firstId stages
  rcases fused : fuse firstId stages with f | ⟨result, report⟩
  · rw [fused] at pass
    exact pass
  · rw [fused] at pass
    obtain ⟨pieces, laid, segmented, rfl, _⟩ := pass
    have settled := laid.isSettled segmented
    exact ⟨settled, fun laterId => fuse_of_isSettled laterId settled⟩

end Fusion

end MorphEngine
