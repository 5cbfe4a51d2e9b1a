import Mathlib.Algebra.Ring.Int.Defs
import MorphEngine.Proofs.Fusion.FreeNames
import MorphEngine.Proofs.Fusion.Runs

/-!
# The pieces that a fusion pass lays down

A pass covers the declared stages with pieces: stages that are kept, and runs of candidates that one
fused stage replaces, under a name that was free at that point. The pass fails only when the members
of some run cannot be given a cost together. Otherwise what it executes and what it reports can be
read off the pieces.
-/

namespace MorphEngine

/-- What declared stages cost together. -/
def Builder.declaredCost (declared : List Stage) : Except Fault Quantity := do
  MorphMetadata.readCost (← Morph.costSum (declared.map (·.morph)))

namespace Fusion

open Builder

/-- A piece of the declared stages: one that is kept, or a run with the head of the fused morph that
replaces it. -/
inductive Piece where
  | kept (s : Stage)
  | fused (head : Header) (members : List Stage)

namespace Piece

/-- The declared stages that the piece covers. -/
def members : Piece → List Stage
  | kept s => [s]
  | fused _ members => members

/-- The stage that is executed for the piece. -/
def stage : Piece → Stage
  | kept s => s
  | fused head members => .mk head.name (.fused head members)

/-- What a report lists for pieces, the first of which begins at `start`: where each run began, with
the labels of its members. -/
def groups : Nat → List Piece → List FusionGroup
  | _, [] => []
  | start, kept _ :: rest => groups (start + 1) rest
  | start, fused _ members :: rest =>
    ⟨start, members.map (·.label)⟩ :: groups (start + members.length) rest

theorem groups_cons (start : Nat) (p : Piece) (rest : List Piece) :
    groups start (p :: rest) = groups start [p] ++ groups (start + p.members.length) rest := by
  cases p <;> rfl

end Piece

/-- The name that is tried first for a run. -/
def baseName (members : List Stage) : Text := fusedName ((members.map (·.label)).map (·.text))

/-- Pieces as a pass lays them down from a place on, when some labels are taken already: every run
is made into a fused morph under the name at which the search for a free one ends. -/
inductive Laid (firstId : Nat) : Nat → List Text → List Piece → Prop
  | nil {start : Nat} {taken : List Text} : Laid firstId start taken []
  | kept {start : Nat} {taken : List Text} {pieces : List Piece} (s : Stage)
      (rest : Laid firstId (start + 1) taken pieces) : Laid firstId start taken (.kept s :: pieces)
  | fused {start : Nat} {taken : List Text} {pieces : List Piece} {head : Header}
      {members : List Stage} (many : 2 ≤ members.length)
      (candidates : ∀ s ∈ members, isCandidate s.morph = true)
      (finds : Finds taken (baseName members) (baseName members) start head.name.text)
      (made : fusedMorph (firstId + start) head.name.text members = .ok (.fused head members))
      (rest : Laid firstId (start + members.length) (taken ++ [head.name.text]) pieces) :
      Laid firstId start taken (.fused head members :: pieces)

/-- Some run of at least two candidates cannot be given a cost, which is the fault. -/
def LacksCost (stages : List Stage) (f : Fault) : Prop :=
  ∃ run ∈ segments stages, 2 ≤ run.length ∧ declaredCost run = .error f

/-! ### Making a fused morph -/

variable {firstId start id : Nat} {name : Text} {run members stages : List Stage}
  {runs : List (List Stage)} {pass pass' : Pass} {pieces : List Piece} {f : Fault}

/-- Without a cache, anything can be declared. -/
theorem isCacheable_of_cached {d : MorphMetadata}
    (cached : (none : Option CacheSlot).isSome = true) : d.isCacheable = true :=
  absurd cached Bool.false_ne_true

/-- A head without a cache. -/
def bareHead (id : Nat) (n : Name) (d : MorphMetadata) : Header :=
  ⟨id, n, d, none, isCacheable_of_cached⟩

/-- What is declared about the fused morph of some members. -/
def fusedDeclaration (members : List Stage) (cost : Quantity) : MorphMetadata :=
  { MorphMetadata.default with
    pure := (members.map (·.morph)).all Morph.isPure
    cost := cost
    isAsync := some false }

/-- What is not memoizable gets a head without a cache, under any name that is not empty. -/
theorem makeHeader_uncached (id : Nat) {n : Name} (filled : n.isEmpty = false) {d : MorphMetadata}
    (not : d.memoizable = false) (settings : CacheSettings) :
    Morph.makeHeader id n.given d settings = .ok (bareHead id n d) := by
  have named : Morph.readName n.given = .ok n := by
    simp only [Morph.readName, n.ofValue?_given, filled, if_false, Bool.false_eq_true]
  have uncacheable : ¬ d.isCacheable = true := by
    rw [MorphMetadata.isCacheable, not, Bool.and_false]
    exact Bool.false_ne_true
  have slot : Morph.cacheSlot n d settings = .ok ⟨none, isCacheable_of_cached⟩ := dif_neg uncacheable
  rw [Morph.makeHeader, named]
  simp only [bind, Except.bind, slot]
  rfl

/-- Members are fused under any name just when they have a cost together. -/
theorem fusedMorph_eq (id : Nat) (filled : name.isEmpty = false) (members : List Stage) :
    fusedMorph id name members = (declaredCost members).map fun cost =>
      .fused (bareHead id name (fusedDeclaration members cost)) members := by
  have costed : fusedMorph id name members = declaredCost members >>= fun cost => do
      return .fused (← Morph.makeHeader id (Name.ofText name).given
        (fusedDeclaration members cost) EngineSettings.default) members := by
    rw [declaredCost, bind_assoc]
    rfl
  rw [costed]
  cases declaredCost members with
  | error f => rfl
  | ok cost =>
    have made := makeHeader_uncached id (n := name) filled
      (d := fusedDeclaration members cost) rfl EngineSettings.default
    simp only [bind, Except.bind, made]
    rfl

/-- A fused morph is no candidate itself. -/
theorem not_isCandidate_of_fusedMorph {m : Morph} (made : fusedMorph id name members = .ok m) :
    ¬ isCandidate m = true := by
  obtain ⟨total, _, made⟩ := bind_eq_ok made
  obtain ⟨cost, _, made⟩ := bind_eq_ok made
  obtain ⟨head, header, made⟩ := bind_eq_ok made
  cases made
  obtain ⟨_, _, declared⟩ := makeHeader_eq_ok header
  have unfusible : (Morph.fused head members).isFusible = false := by
    rw [Morph.isFusible, Morph.metadata, Morph.head, declared]
    rfl
  rw [isCandidate, unfusible]
  exact Bool.false_ne_true

/-! ### Closing runs -/

/-- What is found for a run is not empty, since it begins as every name of a fused run does. -/
theorem isEmpty_of_finds {taken : List Text} {found : Text}
    (finds : Finds taken (baseName run) (baseName run) start found) : found.isEmpty = false := by
  obtain ⟨rest, goesOn⟩ := finds.begins (List.prefix_refl _)
  rw [Text.isEmpty, ← goesOn]
  rfl

/-- Several stages are closed as their fused morph, under the name the search finds, unless they
lack a cost. -/
theorem closeRun_many (firstId start : Nat) (pass : Pass) (many : 2 ≤ run.length) :
    ∃ name, Finds pass.taken (baseName run) (baseName run) start name ∧
      closeRun firstId start run pass = (declaredCost run).map fun cost =>
        let head := bareHead (firstId + start) name (fusedDeclaration run cost)
        { stages := pass.stages ++ [.mk head.name (.fused head run)]
          groups := pass.groups ++ [⟨start, run.map (·.label)⟩]
          taken := pass.taken ++ [head.name.text] } := by
  have finds := finds_freeName pass.taken (baseName run) start
  refine ⟨_, finds, ?_⟩
  have made := fusedMorph_eq (firstId + start) (isEmpty_of_finds finds) run
  rw [closeRun, if_pos many]
  unfold baseName at made ⊢
  simp only [made]
  cases declaredCost run <;> rfl

/-- Closing a segment lays down one piece, unless the segment lacks a cost. -/
theorem closeRun_lays (some : run ≠ [])
    (candidates : 2 ≤ run.length → ∀ s ∈ run, isCandidate s.morph = true)
    (closed : closeRun firstId start run pass = .ok pass') :
    ∃ p : Piece, p.members = run ∧ pass'.stages = pass.stages ++ [p.stage] ∧
      pass'.groups = pass.groups ++ Piece.groups start [p] ∧
      ∀ pieces, Laid firstId (start + run.length) pass'.taken pieces →
        Laid firstId start pass.taken (p :: pieces) := by
  by_cases many : 2 ≤ run.length
  · obtain ⟨name, finds, closes⟩ := closeRun_many firstId start pass many
    have made := fusedMorph_eq (firstId + start) (isEmpty_of_finds finds) run
    rw [closes] at closed
    cases costed : declaredCost run with
    | error f =>
      rw [costed] at closed
      cases closed
    | ok cost =>
      rw [costed] at closed made
      cases closed
      exact ⟨.fused (bareHead (firstId + start) name (fusedDeclaration run cost)) run, rfl, rfl, rfl,
        fun pieces rest => .fused many (candidates many) finds made rest⟩
  · have short : run.length < 2 := Nat.not_le.mp many
    rw [closeRun_short short] at closed
    cases closed
    obtain ⟨s, rfl⟩ : ∃ s, run = [s] :=
      List.length_eq_one_iff.mp (by have := List.length_pos_iff.mpr some; omega)
    exact ⟨.kept s, rfl, rfl, (List.append_nil _).symm, fun pieces rest => .kept s rest⟩

theorem many_of_closeRun (failed : closeRun firstId start run pass = .error f) :
    2 ≤ run.length ∧ declaredCost run = .error f := by
  by_cases many : 2 ≤ run.length
  · obtain ⟨name, _, closes⟩ := closeRun_many firstId start pass many
    rw [closes] at failed
    refine ⟨many, ?_⟩
    cases costed : declaredCost run with
    | error f' =>
      rw [costed] at failed
      cases failed
      rfl
    | ok cost =>
      rw [costed] at failed
      cases failed
  · rw [closeRun_short (Nat.not_le.mp many)] at failed
    cases failed

/-- Segments are not empty, and several stages together are candidates. -/
def AreSegments (runs : List (List Stage)) : Prop :=
  ∀ run ∈ runs, run ≠ [] ∧ (2 ≤ run.length → ∀ s ∈ run, isCandidate s.morph = true)

theorem areSegments_segments (stages : List Stage) : AreSegments (segments stages) :=
  fun _ among => ⟨List.ne_nil_of_mem_splitBy among, candidates_of_mem_segments among⟩

/-- Closing segments one after the other lays down a piece for each. -/
theorem closeAll_lays (segmented : AreSegments runs)
    (closed : closeAll firstId start runs pass = .ok pass') :
    ∃ pieces, Laid firstId start pass.taken pieces ∧ pieces.map Piece.members = runs ∧
      pass'.stages = pass.stages ++ pieces.map Piece.stage ∧
      pass'.groups = pass.groups ++ Piece.groups start pieces := by
  induction runs generalizing start pass with
  | nil =>
    cases closed
    exact ⟨[], .nil, rfl, (List.append_nil _).symm, (List.append_nil _).symm⟩
  | cons run runs ih =>
    obtain ⟨⟨some, candidates⟩, others⟩ := List.forall_mem_cons.mp segmented
    obtain ⟨next, closes, closed⟩ := bind_eq_ok closed
    obtain ⟨p, covers, stages, groups, lays⟩ := closeRun_lays some candidates closes
    obtain ⟨pieces, laid, coverOthers, laterStages, laterGroups⟩ := ih others closed
    refine ⟨p :: pieces, lays pieces laid, by rw [List.map_cons, covers, coverOthers], ?_, ?_⟩
    · rw [laterStages, stages, List.append_assoc]
      rfl
    · rw [laterGroups, groups, List.append_assoc, Piece.groups_cons start p pieces, covers]

theorem lacksCost_of_closeAll (failed : closeAll firstId start runs pass = .error f) :
    ∃ run ∈ runs, 2 ≤ run.length ∧ declaredCost run = .error f := by
  induction runs generalizing start pass with
  | nil => cases failed
  | cons run runs ih =>
    rcases bind_eq_error failed with first | ⟨next, _, later⟩
    · exact ⟨run, List.mem_cons_self, many_of_closeRun first⟩
    · obtain ⟨run', among, lacks⟩ := ih later
      exact ⟨run', List.mem_cons_of_mem _ among, lacks⟩

/-- A pass lays pieces down over the segments of the declared stages, and tells what it did, unless
some run lacks a cost. -/
theorem fuse_cases (firstId : Nat) (stages : List Stage) :
    match fuse firstId stages with
    | .ok (result, report) =>
      ∃ pieces, Laid firstId 0 (stages.map (·.label.text)) pieces ∧
        pieces.map Piece.members = segments stages ∧ result = pieces.map Piece.stage ∧
        report = ⟨true, stages.length, result.length, Piece.groups 0 pieces⟩
    | .error f => LacksCost stages f := by
  rcases closes : closeAll firstId 0 (segments stages) ⟨[], [], stages.map (·.label.text)⟩ with
    f | pass
  · rw [fuse_eq_closeAll, closes]
    exact lacksCost_of_closeAll closes
  · obtain ⟨pieces, laid, covers, executed, groups⟩ :=
      closeAll_lays (areSegments_segments stages) closes
    rw [fuse_eq_closeAll, closes]
    exact ⟨pieces, laid, covers, executed, by rw [groups]; rfl⟩

/-! ### What the pieces tell -/

theorem covers_of_segmented (segmented : pieces.map Piece.members = segments stages) :
    pieces.flatMap Piece.members = stages := by
  rw [List.flatMap_def, segmented, flatten_segments]

theorem Laid.fuses {taken : List Text} (laid : Laid firstId start taken pieces) :
    Fuses (pieces.flatMap Piece.members) (pieces.map Piece.stage) := by
  induction laid with
  | nil => exact .nil
  | kept s rest ih => exact .keep s ih
  | @fused start taken pieces head members many candidates finds made rest ih =>
    obtain ⟨_, shape, bare, direct, _⟩ := fusedMorph_eq_ok made
    cases shape
    exact .group ⟨many, candidates, bare, direct⟩ head.name ih

/-- The pass only fuses runs of candidates. -/
theorem fuse_fuses {result : List Stage} {report : FusionReport}
    (fused : fuse firstId stages = .ok (result, report)) : Fuses stages result := by
  have pass := fuse_cases firstId stages
  rw [fused] at pass
  obtain ⟨pieces, laid, segmented, rfl, _⟩ := pass
  rw [← covers_of_segmented segmented]
  exact laid.fuses

/-- Declared stages are covered by pieces, stage by stage, which are executed and reported. -/
structure Partitions (stages result : List Stage) (report : FusionReport) (pieces : List Piece) :
    Prop where
  covers : pieces.flatMap Piece.members = stages
  executes : pieces.map Piece.stage = result
  /-- Every stage that is created runs at least two stages, all of them candidates. -/
  created : ∀ head members, .fused head members ∈ pieces →
    2 ≤ members.length ∧ (∀ s ∈ members, isCandidate s.morph = true) ∧
      ∃ id, fusedMorph id head.name.text members = .ok (.fused head members)
  groups : report.groups = Piece.groups 0 pieces
  /-- A group has the labels of the declared stages from its start on. -/
  slices : ∀ g ∈ report.groups,
    g.labels = ((stages.drop g.start).take g.labels.length).map (·.label)
  enabled : report.enabled = true
  declared : report.declared = stages.length
  executed : report.executed = result.length
  eliminated : report.eliminated = (report.groups.map fun g => (g.labels.length : Int) - 1).sum

/-- A fused stage is made of at least two candidates, under a name that was not taken. -/
theorem Laid.created {taken : List Text} (laid : Laid firstId start taken pieces) :
    ∀ head members, .fused head members ∈ pieces →
      head.name.text ∉ taken ∧ 2 ≤ members.length ∧
        (∀ s ∈ members, isCandidate s.morph = true) ∧
          ∃ id, fusedMorph id head.name.text members = .ok (.fused head members) := by
  induction laid with
  | nil => exact fun _ _ none => absurd none List.not_mem_nil
  | kept s rest ih =>
    intro head members among
    rcases List.mem_cons.mp among with here | later
    · cases here
    · exact ih head members later
  | fused many candidates finds made rest ih =>
    intro head members among
    rcases List.mem_cons.mp among with here | later
    · cases here
      exact ⟨finds.not_mem, many, candidates, _, made⟩
    · obtain ⟨unused, others⟩ := ih head members later
      exact ⟨fun hit => unused (List.mem_append_left _ hit), others⟩

/-- Behind the stages before them, groups of pieces are slices of all stages. -/
theorem slice_of_mem_groups (before : List Stage) (pieces : List Piece) :
    ∀ g ∈ Piece.groups before.length pieces, g.labels =
      (((before ++ pieces.flatMap Piece.members).drop g.start).take g.labels.length).map
        (·.label) := by
  induction pieces generalizing before with
  | nil => exact fun g none => absurd none List.not_mem_nil
  | cons p rest ih =>
    have later := ih (before ++ p.members)
    rw [List.length_append, List.append_assoc] at later
    intro g among
    rw [Piece.groups_cons, List.mem_append] at among
    rw [List.flatMap_cons]
    rcases among with here | among
    · cases p with
      | kept s => cases here
      | fused head members =>
        rw [List.mem_singleton.mp here]
        simp [Piece.members]
    · exact later g among

theorem length_flatMap_members (start : Nat) (pieces : List Piece) :
    ((pieces.flatMap Piece.members).length : Int) = pieces.length +
      ((Piece.groups start pieces).map fun g => (g.labels.length : Int) - 1).sum := by
  induction pieces generalizing start with
  | nil => rfl
  | cons p rest ih =>
    rw [List.flatMap_cons, List.length_append, List.length_cons, Piece.groups_cons,
      List.map_append, List.sum_append]
    have tail := ih (start + p.members.length)
    cases p with
    | kept s =>
      simp only [Piece.members, Piece.groups, List.map_nil, List.sum_nil, List.length_singleton]
        at tail ⊢
      omega
    | fused head members =>
      simp only [Piece.members, Piece.groups, List.map_cons, List.map_nil, List.sum_cons,
        List.sum_nil, List.length_map] at tail ⊢
      omega

/-- For every list of stages the pass covers it piece by piece: it keeps stages, and puts one fused
stage in the place of at least two neighbouring candidates; and it reports just that. It fails only
when a run of candidates lacks a cost. -/
theorem fuse_partitions (firstId : Nat) (stages : List Stage) :
    match fuse firstId stages with
    | .ok (result, report) => ∃ pieces, Partitions stages result report pieces
    | .error f => LacksCost stages f := by
  have pass := fuse_cases firstId stages
  rcases fused : fuse firstId stages with f | ⟨result, report⟩
  · rw [fused] at pass
    exact pass
  · rw [fused] at pass
    obtain ⟨pieces, laid, segmented, rfl, rfl⟩ := pass
    have covers := covers_of_segmented segmented
    have created := fun head members among => (laid.created head members among).2
    refine ⟨pieces, covers, rfl, created, rfl, ?_, rfl, rfl, rfl, ?_⟩
    · have slices := slice_of_mem_groups [] pieces
      rwa [List.nil_append, covers] at slices
    · have lengths := length_flatMap_members 0 pieces
      rw [covers] at lengths
      dsimp only [FusionReport.eliminated]
      rw [lengths, List.length_map]
      omega

end Fusion

end MorphEngine
