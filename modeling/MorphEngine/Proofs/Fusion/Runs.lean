import Mathlib.Data.List.SplitBy
import MorphEngine.Proofs.Fusion.Partition

/-!
# The runs that a fusion pass closes

Declared stages split in one way into longest runs of neighbouring candidates, with every other
stage by itself. Going over the stages one by one, the pass closes exactly these segments, from left
to right, each at the place where it begins.
-/

namespace MorphEngine

namespace Fusion

/-- Whether two neighbours belong into one run. -/
def areCandidates (s t : Stage) : Bool := isCandidate s.morph && isCandidate t.morph

/-- The longest runs of neighbouring candidates, and the other stages one by one. -/
def segments (stages : List Stage) : List (List Stage) := stages.splitBy areCandidates

/-- Closes segments one after the other, the first of which begins at `start`. -/
def closeAll (firstId : Nat) : Nat → List (List Stage) → Pass → Except Fault Pass
  | _, [], pass => .ok pass
  | start, run :: rest, pass => do
    closeAll firstId (start + run.length) rest (← closeRun firstId start run pass)

variable {firstId start index : Nat} {run rest stages : List Stage} {s t : Stage} {pass : Pass}

/-! ### Segments -/

theorem areCandidates_of_not_left (not : ¬ isCandidate s.morph = true) :
    areCandidates s t = false := by
  rw [areCandidates, Bool.eq_false_iff.mpr not, Bool.false_and]

theorem areCandidates_of_not_right (not : ¬ isCandidate t.morph = true) :
    areCandidates s t = false := by
  rw [areCandidates, Bool.eq_false_iff.mpr not, Bool.and_false]

theorem flatten_segments (stages : List Stage) : (segments stages).flatten = stages :=
  List.flatten_splitBy areCandidates stages

/-- Candidates next to each other are one segment. -/
theorem segments_of_candidates (candidates : ∀ s ∈ run, isCandidate s.morph = true)
    (some : run ≠ []) : segments run = [run] := by
  refine List.splitBy_of_isChain some ?_
  rw [List.isChain_iff_getElem]
  intro i hi
  rw [areCandidates, candidates _ (List.getElem_mem _), candidates _ (List.getElem_mem _)]
  rfl

/-- A stage that is no candidate is a segment of its own. -/
theorem segments_append_cons (not : ¬ isCandidate s.morph = true) :
    segments (run ++ s :: rest) = segments run ++ [s] :: segments rest := by
  have before : segments (run ++ s :: rest) = segments run ++ segments (s :: rest) :=
    List.splitBy_append_cons rest fun t _ => areCandidates_of_not_right not
  have after : segments (s :: rest) = [s] :: segments rest :=
    List.splitBy_append (l := [s]) fun t ht u _ => by
      cases ht
      exact areCandidates_of_not_left not
  rw [before, after]

/-- A segment of several stages has candidates only. -/
theorem candidates_of_mem_segments (among : run ∈ segments stages) (many : 2 ≤ run.length) :
    ∀ s ∈ run, isCandidate s.morph = true := by
  have chain := List.isChain_of_mem_splitBy among
  rw [List.isChain_iff_getElem] at chain
  intro s hs
  obtain ⟨i, hi, rfl⟩ := List.mem_iff_getElem.mp hs
  -- Every stage has a neighbour: the one behind it, or the one before the last.
  by_cases last : i + 1 < run.length
  · exact (Bool.and_eq_true_iff.mp (chain i last)).1
  · have behind : i - 1 + 1 = i := by omega
    have related := (Bool.and_eq_true_iff.mp (chain (i - 1) (by omega))).2
    simpa only [behind] using related

/-! ### The pass -/

/-- Fewer than two stages are left as they are. -/
theorem closeRun_short (short : run.length < 2) :
    closeRun firstId start run pass = .ok { pass with stages := pass.stages ++ run } := by
  rw [closeRun, if_neg (Nat.not_le.mpr short)]

theorem closeAll_append (runs more : List (List Stage)) :
    closeAll firstId start (runs ++ more) pass =
      closeAll firstId start runs pass >>= closeAll firstId (start + runs.flatten.length) more := by
  induction runs generalizing start pass with
  | nil => rfl
  | cons run runs ih =>
    rw [List.cons_append, closeAll, closeAll, List.flatten_cons, List.length_append,
      ← Nat.add_assoc, bind_assoc]
    exact bind_congr fun closed => ih

theorem closeAll_candidates (candidates : ∀ s ∈ run, isCandidate s.morph = true) :
    closeAll firstId start (segments run) pass = closeRun firstId start run pass := by
  by_cases none : run = []
  · subst none
    rw [closeRun_short (by decide), List.append_nil]
    rfl
  · rw [segments_of_candidates candidates none, closeAll]
    exact bind_pure _

/-- Going over the stages one by one closes the segments one by one. -/
theorem walk_eq_closeAll (stages : List Stage)
    (candidates : ∀ s ∈ run, isCandidate s.morph = true) (behind : run.length ≤ index) :
    walk firstId index run stages pass =
      closeAll firstId (index - run.length) (segments (run ++ stages)) pass := by
  induction stages generalizing index run pass with
  | nil => rw [walk, List.append_nil, closeAll_candidates candidates]
  | cons s rest ih =>
    by_cases candidate : isCandidate s.morph = true
    · have extended : ∀ t ∈ run ++ [s], isCandidate t.morph = true := by
        rw [List.forall_mem_append]
        exact ⟨candidates, List.forall_mem_singleton.mpr candidate⟩
      have place : index + 1 - (run ++ [s]).length = index - run.length := by
        rw [List.length_append, List.length_singleton, Nat.add_sub_add_right]
      rw [walk, if_pos candidate, ih extended (by simpa using behind), place, List.append_assoc]
      rfl
    · have place : index - run.length + run.length = index := Nat.sub_add_cancel behind
      rw [walk, if_neg candidate, segments_append_cons candidate, closeAll_append,
        closeAll_candidates candidates, flatten_segments, place]
      have alone : [s].length < 2 := Nat.lt_add_one 1
      refine bind_congr fun closed => ?_
      rw [closeAll, closeRun_short alone, ih (List.forall_mem_nil _) (Nat.zero_le _)]
      rfl

/-- A pass closes the segments of the declared stages, from the first place on. -/
theorem fuse_eq_closeAll (firstId : Nat) (stages : List Stage) :
    fuse firstId stages = do
      let pass ← closeAll firstId 0 (segments stages) ⟨[], [], stages.map (·.label.text)⟩
      return (pass.stages, ⟨true, stages.length, pass.stages.length, pass.groups⟩) := by
  rw [fuse, walk_eq_closeAll stages (List.forall_mem_nil _) (Nat.zero_le _)]
  rfl

end Fusion

end MorphEngine
