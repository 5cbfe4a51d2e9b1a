import MorphEngine.Proofs.Costs.Derived

/-!
# What pipelines cost

Fused stages cost what their members cost together, and a pipeline what its declared stages cost.
So a build compares with the build of free stages: costs make a difference only where they overflow,
over all declared stages, or over a run of them that is fused.
-/

namespace MorphEngine

open Fusion (bind_eq_ok)
open Morph (prices)

namespace Stage

def free (s : Stage) : Stage := .mk s.label s.morph.free

theorem morphs_free (stages : List Stage) :
    (stages.map free).map (·.morph) = (stages.map (·.morph)).map Morph.free := by
  simp [free, morph]

theorem labels_free (stages : List Stage) :
    (stages.map free).map (·.label) = stages.map (·.label) := by
  simp [free, label]

end Stage

/-- All stages cost numbers that are not negative. -/
def ArePriced (stages : List Stage) : Prop := ∀ s ∈ stages, s.morph.IsPriced

theorem arePriced_free (stages : List Stage) : ArePriced (stages.map Stage.free) := by
  intro s among
  obtain ⟨t, _, rfl⟩ := List.mem_map.mp among
  exact t.morph.isPriced_free

theorem ArePriced.morphs {stages : List Stage} (priced : ArePriced stages) :
    ∀ m ∈ stages.map (·.morph), m.IsPriced :=
  List.forall_mem_map.mpr priced

namespace Fusion

open Builder (declaredCost)

variable {firstId : Nat} {stages run : List Stage} {f : Fault}

/-- Some run that is to be fused overflows. -/
def RunOverflows (stages : List Stage) : Prop :=
  ∃ run ∈ segments stages, 2 ≤ run.length ∧ Number.Overflows (prices (run.map (·.morph)))

/-- Stages have a cost together unless they overflow. -/
theorem declaredCost_cases (priced : ArePriced run) :
    (Number.Overflows (prices (run.map (·.morph))) ∧ declaredCost run = .error .overflowingInt) ∨
      ¬Number.Overflows (prices (run.map (·.morph))) ∧
        ∃ q, declaredCost run = .ok q ∧ q.IsPrice := by
  obtain ⟨exceeds, sum⟩ | ⟨within, c, sum, nonneg⟩ := Morph.costSum_derives priced.morphs
  · refine Or.inl ⟨exceeds, ?_⟩
    rw [declaredCost, sum]
    rfl
  · obtain ⟨q, read, price⟩ := Quantity.exists_readCost nonneg
    refine Or.inr ⟨within, q, ?_, price⟩
    rw [declaredCost, sum]
    exact read

theorem arePriced_of_mem_segments (priced : ArePriced stages) (among : run ∈ segments stages) :
    ArePriced run := by
  intro s hs
  refine priced s ?_
  rw [← flatten_segments stages]
  exact List.mem_flatten_of_mem among hs

/-- Priced stages lack a cost only when some run overflows. -/
theorem LacksCost.runOverflows (priced : ArePriced stages) (lacks : LacksCost stages f) :
    RunOverflows stages ∧ f = .overflowingInt := by
  obtain ⟨run, among, many, lacks⟩ := lacks
  have members := arePriced_of_mem_segments priced among
  obtain ⟨exceeds, failed⟩ | ⟨_, q, costs, _⟩ := declaredCost_cases members
  · rw [failed] at lacks
    cases lacks
    exact ⟨⟨run, among, many, exceeds⟩, rfl⟩
  · rw [costs] at lacks
    cases lacks

theorem not_runOverflows_free (stages : List Stage) : ¬RunOverflows (stages.map Stage.free) := by
  rintro ⟨run, among, _, exceeds⟩
  refine Morph.not_overflows_of_free ?_ exceeds
  intro m hm
  obtain ⟨s, hs, rfl⟩ := List.mem_map.mp hm
  have listed : s ∈ stages.map Stage.free := by
    rw [← flatten_segments (stages.map Stage.free)]
    exact List.mem_flatten_of_mem among hs
  obtain ⟨t, _, rfl⟩ := List.mem_map.mp listed
  exact ⟨t.morph, rfl⟩

/-- Members that a fused morph could be made of do not overflow, and it is priced like them. -/
theorem isPriced_of_fusedMorph {id : Nat} {name : Text} {m : Morph} (priced : ArePriced run)
    (made : fusedMorph id name run = .ok m) :
    ¬Number.Overflows (prices (run.map (·.morph))) ∧ m.IsPriced := by
  obtain ⟨total, sum, made⟩ := bind_eq_ok made
  obtain ⟨q, read, made⟩ := bind_eq_ok made
  obtain ⟨head, header, made⟩ := bind_eq_ok made
  cases made
  obtain ⟨_, failed⟩ | ⟨within, c, sum', nonneg⟩ := Morph.costSum_derives priced.morphs
  · rw [sum] at failed
    cases failed
  · rw [sum] at sum'
    cases sum'
    obtain ⟨q', read', price⟩ := Quantity.exists_readCost nonneg
    rw [read] at read'
    cases read'
    obtain ⟨_, _, declared⟩ := makeHeader_eq_ok header
    refine ⟨within, ?_⟩
    rw [Morph.IsPriced, Morph.cost, Morph.metadata, Morph.head, declared]
    exact price

/-- What a pass executes is priced. -/
theorem Laid.arePriced {start : Nat} {taken : List Text} {pieces : List Piece}
    (laid : Laid firstId start taken pieces)
    (priced : ArePriced (pieces.flatMap Piece.members)) : ArePriced (pieces.map Piece.stage) := by
  intro s among
  obtain ⟨p, hp, rfl⟩ := List.mem_map.mp among
  have members : ArePriced p.members := fun t ht => priced t (List.mem_flatMap.mpr ⟨p, hp, ht⟩)
  cases p with
  | kept s => exact members s List.mem_cons_self
  | fused head run =>
    obtain ⟨_, _, _, id, made⟩ := laid.created head run hp
    exact (isPriced_of_fusedMorph members made).2

/-- Nor do runs overflow that a pass has fused. -/
theorem Laid.not_runOverflows {start : Nat} {taken : List Text} {pieces : List Piece}
    (laid : Laid firstId start taken pieces)
    (segmented : pieces.map Piece.members = segments stages) (priced : ArePriced stages) :
    ¬RunOverflows stages := by
  rintro ⟨run, among, many, exceeds⟩
  have members := arePriced_of_mem_segments priced among
  rw [← segmented] at among
  obtain ⟨p, hp, rfl⟩ := List.mem_map.mp among
  cases p with
  | kept s => exact absurd many (by simp [Piece.members])
  | fused head run =>
    obtain ⟨_, _, _, id, made⟩ := laid.created head run hp
    exact (isPriced_of_fusedMorph members made).1 exceeds

theorem fuse_aside (firstId : Nat) (priced : ArePriced stages) :
    CostsAside (RunOverflows stages) (fun r => ArePriced r.1) (fuse firstId stages)
      (fuse firstId (stages.map Stage.free)) := by
  have goes : (fuse firstId (stages.map Stage.free)).isOk = true := by
    have pass := fuse_cases firstId (stages.map Stage.free)
    cases fused : fuse firstId (stages.map Stage.free) with
    | ok r => rfl
    | error f =>
      rw [fused] at pass
      exact absurd (pass.runOverflows (arePriced_free stages)).1 (not_runOverflows_free stages)
  have pass := fuse_cases firstId stages
  cases fused : fuse firstId stages with
  | error f =>
    rw [fused] at pass
    obtain ⟨exceeds, rfl⟩ := LacksCost.runOverflows priced pass
    exact ⟨fun within => absurd exceeds within, fun _ _ => rfl, fun _ => rfl⟩
  | ok r =>
    rw [fused] at pass
    obtain ⟨pieces, laid, segmented, executed, _⟩ := pass
    have within := laid.not_runOverflows segmented priced
    rw [← covers_of_segmented segmented] at priced
    refine ⟨fun _ _ => ⟨r, rfl, executed ▸ laid.arePriced priced⟩,
      fun exceeds => absurd exceeds within, ?_⟩
    intro stays
    rw [goes] at stays
    cases stays

end Fusion

namespace Builder

variable {b : Builder} {w : Workbench}

def free (b : Builder) : Builder := { b with stages := b.stages.map Stage.free }

/-- Building takes a whole number beyond all doubles for a double. -/
def Overflows (b : Builder) (cells : Cells) : Prop :=
  Number.Overflows (prices (b.stages.map (·.morph))) ∨
    b.settings.isFusing cells = .ok true ∧ Fusion.RunOverflows b.stages

theorem optimize_aside (fusing : Bool) (firstId : Nat) (priced : ArePriced b.stages) :
    CostsAside (fusing = true ∧ Fusion.RunOverflows b.stages) (fun r => ArePriced r.1)
      (b.optimize fusing firstId) (b.free.optimize fusing firstId) := by
  cases fusing with
  | true => exact (Fusion.fuse_aside firstId priced).congr (by simp)
  | false =>
    refine ⟨fun _ _ => ⟨_, rfl, priced⟩, ?_, nofun⟩
    rintro ⟨never, _⟩
    cases never

theorem assemble_aside (id : Nat) (labels : Labels) {stages : List Stage} (stages' : List Stage)
    (fusion fusion' : FusionReport) (priced : ArePriced b.stages) (executed : ArePriced stages) :
    CostsAside (Number.Overflows (prices (b.stages.map (·.morph))))
      (fun m => m.IsPriced ∧ ArePriced m.executed) (b.assemble id labels stages fusion)
      (b.free.assemble id labels stages' fusion') := by
  refine CostsAside.mono ?_ fun m made (valid : m.IsPriced) => ⟨valid, ?_⟩
  · unfold assemble
    have freed : b.free.stages.map (·.morph) = (b.stages.map (·.morph)).map Morph.free :=
      Stage.morphs_free b.stages
    refine .derive (Morph.costSum_derives priced.morphs)
      (Morph.costSum_derives (arePriced_free b.stages).morphs) ?_ fun x y nonneg nonneg' => ?_
    · rw [freed]
      exact Morph.not_overflows_free _
    · refine .readCost nonneg nonneg' fun q q' price => ?_
      refine Morph.head_aside ?_ (fun _ => rfl) price
      rw [Morph.isOk_makeHeader_uncached rfl, Morph.isOk_makeHeader_uncached rfl]
  · obtain ⟨head, _, rfl, _⟩ := assemble_eq_ok made
    exact executed

theorem draft_aside (cells : Cells) (id firstId : Nat) (metadata : Value) (options : Fields)
    (priced : ArePriced b.stages) :
    CostsAside (b.Overflows cells) (fun m => m.IsPriced ∧ ArePriced m.executed)
      (b.draft cells id firstId metadata options)
      (b.free.draft cells id firstId metadata options) := by
  have checked : b.free.checkLabels = b.checkLabels := by
    unfold checkLabels sharedLabels
    rw [free, Stage.labels_free]
  unfold draft
  rw [checked]
  refine .after fun ⟨⟩ _ => .after fun labels _ => .after fun ⟨⟩ _ => ?_
  refine .after fun fusing switched => ?_
  refine CostsAside.congr ?_ <| .bind (optimize_aside fusing firstId priced)
    fun (stages, fusion) (stages', fusion') _ _ executed =>
      assemble_aside id labels stages' fusion fusion' priced executed
  rw [Overflows, switched, or_comm]
  simp

/-- What a shelf says to a pipeline depends on its name only. -/
theorem IsPipeline.isOk_takeUp {m m' : Morph} {n : Name} {stages stages' : List Stage}
    (made : IsPipeline m n stages) (made' : IsPipeline m' n stages') (shelf : Shelf) :
    (shelf.takeUp m).isOk = (shelf.takeUp m').isOk := by
  have takes := made.takeUp shelf
  have takes' := made'.takeUp shelf
  split at takes
  · next place =>
    rw [if_pos place] at takes'
    obtain ⟨_, taken, _⟩ := takes
    obtain ⟨_, taken', _⟩ := takes'
    rw [taken, taken']
    rfl
  · next full =>
    rw [if_neg full] at takes'
    obtain ⟨_, refused⟩ := takes
    obtain ⟨_, refused'⟩ := takes'
    rw [refused, refused']
    rfl

theorem run_build_fst (cells : Cells) (id firstId : Nat) (metadata : Value) (options : Fields) :
    ((Builder.build cells id firstId metadata options).run w).1 = do
      let m ← w.builder.draft cells id firstId metadata options
      let _ ← w.shelf.takeUp m
      return m := by
  rw [run_build]
  cases w.builder.draft cells id firstId metadata options with
  | error f => rfl
  | ok m =>
    dsimp only [bind, Except.bind, finished]
    cases w.shelf.takeUp m <;> rfl

theorem build_aside (cells : Cells) (id firstId : Nat) (metadata : Value) (options : Fields)
    (priced : ArePriced w.builder.stages) :
    CostsAside (w.builder.Overflows cells) (fun m => m.IsPriced ∧ ArePriced m.executed)
      ((Builder.build cells id firstId metadata options).run w).1
      ((Builder.build cells id firstId metadata options).run
        { w with builder := w.builder.free }).1 := by
  rw [run_build_fst, run_build_fst]
  refine CostsAside.congr (iff_of_eq (or_false _)) <|
    .bind (draft_aside cells id firstId metadata options priced)
      fun m m' drafted drafted' valid => ?_
  have alike := (draft_eq_ok drafted).2.isOk_takeUp (draft_eq_ok drafted').2 w.shelf
  refine .of_isOk ?_ fun n built => ?_
  · rw [isOk_bind_pure, isOk_bind_pure, alike]
  · obtain ⟨_, _, built⟩ := bind_eq_ok built
    cases built
    exact valid

end Builder

/-- For all priced parts, whatever they cost: a conditional, a sequence whose cost is not declared,
a sequence of two and a pipeline are made as if their parts were free, and are priced again,
together with the stages that they execute. They fail because of their costs exactly when these
overflow: when four fifths are to be taken of a whole number beyond all doubles, or when such a
number and a double are to be added up. -/
theorem derived_costs_hold (id : Nat) (name : Value) (settings : CacheSettings) :
    (∀ (m : Morph) (shown predicate : Value), m.IsPriced →
      CostsAside m.CostsBeyond Morph.IsPriced
        (Morph.conditionalOn id name predicate (shown, some m) settings)
        (Morph.conditionalOn id name predicate (shown, some m.free) settings)) ∧
    (∀ (parts : List (Value × Morph)) (finish metadata : Value), Morph.LeavesCostOpen metadata →
      (∀ p ∈ parts, p.2.IsPriced) →
      CostsAside (Number.Overflows (prices (parts.map (·.2)))) Morph.IsPriced
        (Morph.compose id name (Morph.given parts) finish metadata settings)
        (Morph.compose id name (Morph.given (parts.map fun p => (p.1, p.2.free))) finish metadata
          settings)) ∧
    (∀ (a b : Morph) (v w : Value), a.IsPriced → b.IsPriced →
      CostsAside (Number.Overflows (prices [a, b])) Morph.IsPriced
        (Morph.andThen id (v, some a) (w, some b) name)
        (Morph.andThen id (v, some a.free) (w, some b.free) name)) ∧
    ∀ (w : Workbench) (cells : Cells) (firstId : Nat) (metadata : Value) (options : Fields),
      ArePriced w.builder.stages →
      CostsAside (w.builder.Overflows cells) (fun m => m.IsPriced ∧ ArePriced m.executed)
        ((Builder.build cells id firstId metadata options).run w).1
        ((Builder.build cells id firstId metadata options).run
          { w with builder := w.builder.free }).1 :=
  ⟨fun _ _ _ priced => Morph.conditionalOn_aside id name _ _ settings priced,
    fun _ finish _ undeclared priced =>
      Morph.compose_aside undeclared id name finish priced settings,
    fun _ _ v w priced priced' => Morph.andThen_aside id v w name priced priced',
    fun _ cells firstId metadata options priced =>
      Builder.build_aside cells id firstId metadata options priced⟩

/-! ### Parts that cost a lot -/

/-- A morph that may be fused, of the given cost. -/
def costing (cost : Number) : Morph :=
  .identity (Fusion.bareHead 0 ("A" : Text)
    { MorphMetadata.default with fusible := true, cost := .ofNumber cost })

theorem isPriced_costing (cost : Number) (nonneg : Number.zero.le cost = true) :
    (costing cost).IsPriced :=
  ⟨cost, .ofNumber cost, nonneg⟩

/-- A whole number beyond all doubles. -/
def dear : Number := .int (Int.ofNat (Nat.pow 10 400))

/-- A builder with two stages, one of which costs a half, with fusion switched on. -/
def costlyBench (cost : Number) : Workbench :=
  ⟨⟨("p" : Text), EngineSettings.default,
    [.mk ("A" : Text) (costing (.real 0.5)), .mk ("B" : Text) (costing cost)], none⟩, .missing⟩

/-- What is dear cannot be wrapped or added to a half, but it can be added to what is dear too. -/
theorem derived_costs_hold_dear :
    (costing dear).IsPriced ∧ (costing (.real 0.5)).IsPriced ∧
    Morph.conditionalOn 1 (.text "C") (.function 7 false) (.none, some (costing dear))
      EngineSettings.default = .error .overflowingInt ∧
    (∃ m, Morph.compose 1 (.text "C") (Morph.given [(.none, costing dear), (.none, costing dear)])
      .none .none EngineSettings.default = .ok m ∧ m.IsPriced) ∧
    Morph.andThen 1 (.none, some (costing (.real 0.5))) (.none, some (costing dear)) (.text "C") =
      .error .overflowingInt ∧
    (∃ m, ((Builder.build [] 1 2 .none []).run (costlyBench (.int 3))).1 = .ok m ∧ m.IsPriced ∧
      ArePriced m.executed) ∧
    ((Builder.build [] 1 2 .none []).run (costlyBench dear)).1 = .error .overflowingInt := by
  have beyond : Number.IsBeyond (Int.ofNat (Nat.pow 10 400)) := by
    unfold Number.IsBeyond Number.toFloat?
    decide +kernel
  have costly := isPriced_costing dear (by decide +kernel)
  have light := isPriced_costing (.real 0.5) (by decide +kernel)
  have cheap := isPriced_costing (.int 3) (by decide +kernel)
  have mixed : Number.Overflows [.real 0.5, dear] :=
    ⟨[], 0.5, [dear], rfl, Or.inr ⟨_, List.mem_cons_self, beyond⟩⟩
  have whole : ¬Number.Overflows [dear, dear] := by
    rw [← Number.addAll?_eq_none]
    nofun
  have small : ¬Number.Overflows [.real 0.5, .int 3] := by
    rw [← Number.addAll?_eq_none]
    exact Option.isSome_iff_ne_none.mp (by decide +kernel)
  have priced {cost : Number} (nonneg : (costing cost).IsPriced) :
      ArePriced (costlyBench cost).builder.stages :=
    List.forall_mem_cons.mpr ⟨light, List.forall_mem_singleton.mpr nonneg⟩
  have fused : Fusion.segments (costlyBench (.int 3)).builder.stages =
      [(costlyBench (.int 3)).builder.stages] := rfl
  obtain ⟨wraps, composes, joins, builds⟩ :=
    derived_costs_hold 1 (.text "C") EngineSettings.default
  refine ⟨costly, light, ?_, ?_, ?_, ?_, ?_⟩
  · exact (wraps _ .none _ costly).fails ⟨_, rfl, beyond⟩ (by decide +kernel)
  · exact (composes [(.none, costing dear), (.none, costing dear)] .none .none (Or.inl rfl)
      (by simp [costly])).gives whole (by decide +kernel)
  · exact (joins _ _ .none .none light costly).fails mixed (by decide +kernel)
  · refine (builds _ [] 2 .none [] (priced cheap)).gives ?_ (by decide +kernel)
    rintro (exceeds | ⟨_, run, among, _, exceeds⟩)
    · exact small exceeds
    · rw [fused, List.mem_singleton] at among
      subst among
      exact small exceeds
  · exact (builds _ [] 2 .none [] (priced costly)).fails (Or.inl mixed) (by decide +kernel)

end MorphEngine
