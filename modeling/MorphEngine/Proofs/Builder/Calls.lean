import MorphEngine.Proofs.Builder.Enrolment

/-!
# Calls of a builder

A call of a builder reads and checks its arguments, and changes something only as its very last act:
an addition appends one stage, a build puts the pipeline on the shelf and freezes the builder. So a
call comes down to a fault or to a result with a new workbench, and a fault leaves everything as it
was.
-/

namespace MorphEngine.Builder

/-- A call that is to append a stage, with its arguments. -/
inductive Addition
  | pipe (m : Value × Option Morph) (label : Value)
  | shift (m : Value × Option Morph)
  | map (id : Nat) (fn name metadata : Value) (options : Fields)
  | when (id : Nat) (predicate : Value) (m : Value × Option Morph) (label : Value)
  | pipeTo (name label : Value)

namespace Addition

def change : Addition → Change Unit
  | pipe m label => Builder.pipe m label
  | shift m => Builder.pipe m .none
  | map id fn name metadata options => Builder.map id fn name metadata options
  | when id predicate m label => Builder.when id predicate m label
  | pipeTo name label => Builder.pipeTo name label

/-- The stage of a morph, under a label when one is given. -/
def pipedStage (b : Builder) (m : Value × Option Morph) (label : Value) : Except Fault Stage :=
  match m.2 with
  | none => m.1.refuse ("Pipeline '" ++ b.name.plain ++ "' can only pipe morphs, got ") ""
  | some morph => do return Stage.ofMorph morph (← readLabel label)

/-- The stage that an addition comes with; whether the builder is still open is not asked yet. -/
def stage (w : Workbench) : Addition → Except Fault Stage
  | pipe m label => pipedStage w.builder m label
  | shift m => pipedStage w.builder m .none
  | map id fn name metadata options => do
    let name ← name.orElse (.text ("map_" ++ Text.ofNat w.builder.stages.length))
    return Stage.ofMorph (← Morph.create id name fn metadata w.builder.settings options) none
  | when id predicate m label => do
    let name ← label.orElse (.text (m.2.elim ("when" : Text) fun m => "when_" ++ m.name.plain))
    return Stage.ofMorph (← Morph.conditionalOn id name predicate m w.builder.settings) none
  | pipeTo name label =>
    match w.shelf with
    | .missing => do
      throw (.configuration ("Pipeline '" ++ w.builder.name.plain ++
        "' has no registry to resolve '" ++ (← name.insertedOrFault) ++ "'"))
    | .other v => .error (.lacking v "get")
    | .catalog c => do
      match ← c.get name with
      | none =>
        throw (.configuration ("Morph '" ++ (← name.insertedOrFault) ++ "' is not registered"))
      | some r => pipedStage w.builder (r.target.toValue, some r.target) label

end Addition

/-- The workbench with a stage more, as long as the builder is open. -/
def grown (w : Workbench) (s : Stage) : Except Fault (Unit × Workbench) := do
  w.builder.refuseWhenBuilt
  return ((), { w with builder := { w.builder with stages := w.builder.stages ++ [s] } })

/-- The pipeline that a build puts together, before it goes on the shelf. -/
def draft (b : Builder) (cells : Cells) (id firstId : Nat) (metadata : Value) (options : Fields) :
    Except Fault Morph := do
  b.refuseWhenBuilt
  let labels ← b.readLabels metadata options
  b.checkLabels
  let (stages, fusion) ← b.optimize (← b.settings.isFusing cells) firstId
  b.assemble id labels stages fusion

/-- The workbench with a pipeline on the shelf, and with the builder frozen into it. -/
def finished (w : Workbench) (m : Morph) : Except Fault (Morph × Workbench) := do
  return (m, ⟨{ w.builder with built := some m }, ← w.shelf.takeUp m⟩)

/-- A change that goes through as a whole, or not at all. -/
def commit {α : Type} (x : Except Fault (α × Workbench)) (w : Workbench) :
    Except Fault α × Workbench :=
  match x with
  | .ok (a, w') => (.ok a, w')
  | .error f => (.error f, w)

variable {w : Workbench}

theorem run_ofExcept {α : Type} (x : Except Fault α) : (ofExcept x).run w = (x, w) := rfl

theorem run_liftM {α : Type} (x : Except Fault α) : (liftM x : Change α).run w = (x, w) := by
  cases x <;> rfl

theorem run_current : current.run w = (.ok w.builder, w) := rfl

theorem run_set (b : Builder) : (set b).run w = (.ok (), { w with builder := b }) := rfl

/-! ### Additions -/

theorem run_append (s : Stage) : (append s).run w = commit (grown w s) w := by
  simp only [append, run_bind, run_current, run_ofExcept, grown]
  cases w.builder.refuseWhenBuilt <;> rfl

theorem run_pipe (m : Value × Option Morph) (label : Value) :
    (Builder.pipe m label).run w =
      commit (Addition.pipedStage w.builder m label >>= grown w) w := by
  obtain ⟨v, _ | morph⟩ := m
  · obtain ⟨f, refused⟩ :=
      v.exists_refuse ("Pipeline '" ++ w.builder.name.plain ++ "' can only pipe morphs, got ") ""
    simp only [Builder.pipe, run_bind, run_current, run_ofExcept, Addition.pipedStage, refused]
    rfl
  · simp only [Builder.pipe, run_bind, run_current, run_ofExcept, run_append, Addition.pipedStage]
    cases readLabel label <;> rfl

/-- An addition works out its stage, and then appends it. -/
theorem run_change (a : Addition) : a.change.run w = commit (a.stage w >>= grown w) w := by
  cases a with
  | pipe m label => exact run_pipe m label
  | shift m => exact run_pipe m .none
  | map id fn name metadata options =>
    simp only [Addition.change, Builder.map, Addition.stage, run_bind, run_current, run_ofExcept,
      run_append]
    rcases name.orElse (.text ("map_" ++ Text.ofNat w.builder.stages.length)) with f | name
    · rfl
    · dsimp only [bind, Except.bind]
      cases Morph.create id name fn metadata w.builder.settings options <;> rfl
  | when id predicate m label =>
    simp only [Addition.change, Builder.when, Addition.stage, run_bind, run_current, run_ofExcept,
      run_append]
    rcases label.orElse (.text (m.2.elim ("when" : Text) fun m => "when_" ++ m.name.plain))
      with f | name
    · rfl
    · dsimp only [bind, Except.bind]
      cases Morph.conditionalOn id name predicate m w.builder.settings <;> rfl
  | pipeTo name label =>
    obtain ⟨b, _ | c | v⟩ := w
    · simp only [Addition.change, Builder.pipeTo, Addition.stage, run_bind, run_current]
      cases name.insertedOrFault <;> rfl
    · have looked : (Builder.pipeTo name label).run ⟨b, .catalog c⟩ =
          ((ofExcept (c.get name) >>= fun found => match found with
            | none => do
              let shown ← ofExcept name.insertedOrFault
              throw (.configuration ("Morph '" ++ shown ++ "' is not registered"))
            | some r => Builder.pipe (r.target.toValue, some r.target) label) : Change Unit).run
            ⟨b, .catalog c⟩ := rfl
      simp only [Addition.change, looked, Addition.stage, run_bind, run_ofExcept]
      rcases c.get name with f | (_ | r)
      · rfl
      · cases name.insertedOrFault <;> rfl
      · exact run_pipe (r.target.toValue, some r.target) label
    · rfl

/-! ### Builds -/

theorem run_register (m : Morph) :
    (register m).run w = commit ((w.shelf.takeUp m).map fun shelf => ((), { w with shelf })) w := by
  obtain ⟨b, _ | c | v⟩ := w
  · rfl
  · have defined : (register m).run ⟨b, .catalog c⟩ =
        (((Catalog.define (m.toValue, some m) .none (.bool false) .none).run c).1.map fun _ => (),
          ⟨b, .catalog ((Catalog.define (m.toValue, some m) .none (.bool false) .none).run c).2⟩) :=
      rfl
    rw [defined, Catalog.run_define, Shelf.takeUp]
    cases Catalog.registered (m.toValue, some m) .none (.bool false) .none c <;> rfl
  · rfl

/-- A build puts the pipeline together, and then finishes. -/
theorem run_build (cells : Cells) (id firstId : Nat) (metadata : Value) (options : Fields) :
    (Builder.build cells id firstId metadata options).run w =
      commit (w.builder.draft cells id firstId metadata options >>= finished w) w := by
  simp only [Builder.build, draft, run_bind, run_current, run_ofExcept, run_liftM, run_register,
    run_set]
  rcases w.builder.refuseWhenBuilt with f | ⟨⟩
  · rfl
  · rcases w.builder.readLabels metadata options with f | labels
    · rfl
    · dsimp only [bind, Except.bind]
      rcases w.builder.checkLabels with f | ⟨⟩
      · rfl
      · rcases w.builder.settings.isFusing cells with f | fusing
        · rfl
        · dsimp only
          rcases w.builder.optimize fusing firstId with f | ⟨stages, fusion⟩
          · rfl
          · dsimp only
            rcases w.builder.assemble id labels stages fusion with f | m
            · rfl
            · dsimp only [finished]
              cases w.shelf.takeUp m <;> rfl

/-! ### Calls -/

/-- A call that is to change a builder, with its arguments. -/
inductive Call
  | add (a : Addition)
  | build (cells : Cells) (id firstId : Nat) (metadata : Value) (options : Fields)

namespace Call

/-- Carries out a call. A build gives a pipeline. -/
def run : Call → Workbench → Except Fault (Option Morph) × Workbench
  | add a, w =>
    let (result, w) := a.change.run w
    (result.map fun _ => none, w)
  | build cells id firstId metadata options, w =>
    let (result, w) := (Builder.build cells id firstId metadata options).run w
    (result.map some, w)

/-- What a call comes to. -/
def outcome : Call → Workbench → Except Fault (Option Morph × Workbench)
  | add a, w => do
    let r ← a.stage w >>= grown w
    return (none, r.2)
  | build cells id firstId metadata options, w => do
    let r ← w.builder.draft cells id firstId metadata options >>= finished w
    return (some r.1, r.2)

theorem run_eq (c : Call) : c.run w = commit (c.outcome w) w := by
  cases c with
  | add a =>
    simp only [run, outcome, run_change]
    cases a.stage w >>= grown w <;> rfl
  | build cells id firstId metadata options =>
    simp only [run, outcome, run_build]
    cases w.builder.draft cells id firstId metadata options >>= finished w <;> rfl

/-- A call that fails leaves the builder and the shelf as they were. -/
theorem run_error {c : Call} {f : Fault} (fails : (c.run w).1 = .error f) : (c.run w).2 = w := by
  rw [run_eq] at fails ⊢
  cases comes : c.outcome w with
  | error f => rfl
  | ok r =>
    rw [comes] at fails
    cases fails

/-- A builder that has been built refuses every call. -/
theorem refuses_of_built {m : Morph} (built : w.builder.built = some m) (c : Call) :
    ∃ f, c.run w = (.error f, w) := by
  obtain ⟨f, frozen⟩ : ∃ f, w.builder.refuseWhenBuilt = .error f := by
    simp [refuseWhenBuilt, isFrozen, built]
  rw [run_eq]
  cases c with
  | add a =>
    cases staged : a.stage w with
    | error f => exact ⟨f, by simp [outcome, staged, commit, bind, Except.bind]⟩
    | ok s =>
      exact ⟨f, by simp [outcome, staged, grown, frozen, commit, bind, Except.bind]⟩
  | build cells id firstId metadata options =>
    exact ⟨f, by simp [outcome, draft, frozen, commit, bind, Except.bind]⟩

end Call

end MorphEngine.Builder
