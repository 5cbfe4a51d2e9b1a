import Mathlib.Data.List.Nodup
import MorphEngine.Proofs.Builder.Calls
import MorphEngine.Proofs.Catalog.Ledger

/-!
# The life of a builder

Between the calls of a builder others may change the catalog that it works on. Whatever happens, the
stages of the builder are those of the additions that went through, in their order, and it builds at
most one pipeline, of just these stages. A build that comes upon a record under its name leaves the
builder open, and goes through once the name is free.
-/

namespace MorphEngine

namespace Morph

/-- The stages that a pipeline was declared with. -/
def declaredStages : Morph → List Stage
  | pipeline _ _ _ declared => declared
  | _ => []

end Morph

namespace Builder

/-- Something that happens to a builder and its shelf: a call of the builder, or a request to the
catalog that comes from elsewhere. -/
inductive Event
  | call (c : Call)
  | request (r : Catalog.Request)

namespace Event

def run : Event → Workbench → Except Fault (Option Morph) × Workbench
  | call c, w => c.run w
  | request r, ⟨b, .catalog c⟩ =>
    let (result, c) := r.run c
    (result.map fun _ => none, ⟨b, .catalog c⟩)
  | request _, w => (.ok none, w)

/-- The stage that an addition has come with, if it has gone through. -/
def accepted (w : Workbench) : Event → List Stage
  | call (.add a) =>
    match ((Call.add a).run w).1, a.stage w with
    | .ok _, .ok s => [s]
    | _, _ => []
  | _ => []

/-- The pipeline that a build has given. -/
def pipelines (w : Workbench) (e : Event) : List Morph :=
  match (e.run w).1 with
  | .ok (some m) => [m]
  | _ => []

end Event

/-- The workbench after events. -/
def after (w : Workbench) (es : List Event) : Workbench := es.foldl (fun w e => (e.run w).2) w

/-- The stages that have been accepted, in the order of the calls. -/
def accepted (w : Workbench) : List Event → List Stage
  | [] => []
  | e :: es => e.accepted w ++ accepted (e.run w).2 es

/-- The pipelines that have been built. -/
def pipelines (w : Workbench) : List Event → List Morph
  | [] => []
  | e :: es => e.pipelines w ++ pipelines (e.run w).2 es

/-- The morph is a pipeline of some name and declared stages, whose labels all differ. -/
structure IsPipeline (m : Morph) (n : Name) (stages : List Stage) : Prop where
  shape : ∃ head info executed, m = .pipeline head info executed stages ∧ head.name = n
  labels : (stages.map (·.label.text)).Nodup

/-! ### Labels -/

/-- A text that several labels have is among the shared ones. -/
theorem exists_mem_sharedLabels {stages : List Stage} {t : Text}
    (many : 1 < (stages.map (·.label.text)).count t) : ∃ n ∈ sharedLabels stages, n.text = t := by
  have texts : (stages.map (·.label)).map (·.text) = stages.map (·.label.text) := by
    simp only [List.map_map, Function.comp_def]
  have there : t ∈ stages.map (·.label.text) := List.count_pos_iff.mp (by omega)
  obtain ⟨s, hs, named⟩ := List.mem_map.mp there
  obtain ⟨n, found⟩ : ∃ n, (stages.map (·.label)).find? (·.text = t) = some n := by
    rw [← Option.isSome_iff_exists, List.find?_isSome]
    exact ⟨s.label, List.mem_map_of_mem hs, decide_eq_true named⟩
  have same : n.text = t := by simpa using List.find?_some found
  refine ⟨n, ?_, same⟩
  rw [sharedLabels, Name.mem_sort, List.mem_filterMap]
  refine ⟨t, ?_, found⟩
  rw [List.mem_filter, List.mem_eraseDups, texts]
  exact ⟨there, decide_eq_true many⟩

/-- Labels pass their check only when no two of them are the same. -/
theorem nodup_of_checkLabels {b : Builder} (checked : b.checkLabels = .ok ()) :
    (b.stages.map (·.label.text)).Nodup := by
  rw [List.nodup_iff_count_le_one]
  intro t
  by_contra shared
  have many : 1 < (b.stages.map (·.label.text)).count t := by omega
  obtain ⟨n, hn, _⟩ := exists_mem_sharedLabels many
  have nonempty : (sharedLabels b.stages).isEmpty = false := by
    cases listed : sharedLabels b.stages with
    | nil => simp [listed] at hn
    | cons n ns => rfl
  simp [checkLabels, nonempty] at checked

/-! ### What calls come to -/

variable {w w' : Workbench}

theorem built_of_refuseWhenBuilt {b : Builder} (opened : b.refuseWhenBuilt = .ok ()) :
    b.built = none := by
  cases built : b.built with
  | none => rfl
  | some m => simp [refuseWhenBuilt, isFrozen, built] at opened

theorem draft_eq_ok {b : Builder} {cells : Cells} {id firstId : Nat} {metadata : Value}
    {options : Fields} {m : Morph} (drafted : b.draft cells id firstId metadata options = .ok m) :
    b.built = none ∧ IsPipeline m b.name b.stages := by
  obtain ⟨⟨⟩, opened, drafted⟩ := Fusion.bind_eq_ok drafted
  obtain ⟨labels, _, drafted⟩ := Fusion.bind_eq_ok drafted
  obtain ⟨⟨⟩, checked, drafted⟩ := Fusion.bind_eq_ok drafted
  obtain ⟨fusing, _, drafted⟩ := Fusion.bind_eq_ok drafted
  obtain ⟨⟨stages, fusion⟩, _, drafted⟩ := Fusion.bind_eq_ok drafted
  obtain ⟨head, _, made, named, _⟩ := assemble_eq_ok drafted
  exact ⟨built_of_refuseWhenBuilt opened,
    ⟨head, ⟨labels, fusion⟩, stages, made, named⟩, nodup_of_checkLabels checked⟩

/-- An addition that goes through finds the builder open, and appends its stage. -/
theorem add_eq_ok {a : Addition} {r : Option Morph}
    (added : (Call.add a).outcome w = .ok (r, w')) :
    ∃ s, a.stage w = .ok s ∧ r = none ∧ w.builder.built = none ∧
      w' = { w with builder := { w.builder with stages := w.builder.stages ++ [s] } } := by
  obtain ⟨⟨_, grew⟩, added, ends⟩ := Fusion.bind_eq_ok added
  obtain ⟨s, staged, added⟩ := Fusion.bind_eq_ok added
  obtain ⟨⟨⟩, opened, added⟩ := Fusion.bind_eq_ok added
  cases added
  cases ends
  exact ⟨s, staged, rfl, built_of_refuseWhenBuilt opened, rfl⟩

/-- A build that goes through finds the builder open; it gives a pipeline of the stages, which it
puts on the shelf. -/
theorem build_outcome_eq_ok {cells : Cells} {id firstId : Nat} {metadata : Value} {options : Fields}
    {r : Option Morph}
    (built : (Call.build cells id firstId metadata options).outcome w = .ok (r, w')) :
    ∃ m, r = some m ∧ w.builder.draft cells id firstId metadata options = .ok m ∧
      w'.builder = { w.builder with built := some m } ∧ w.shelf.takeUp m = .ok w'.shelf := by
  obtain ⟨⟨m, done⟩, built, ends⟩ := Fusion.bind_eq_ok built
  obtain ⟨m, drafted, built⟩ := Fusion.bind_eq_ok built
  obtain ⟨shelf, taken, built⟩ := Fusion.bind_eq_ok built
  cases built
  cases ends
  exact ⟨m, rfl, drafted, rfl, taken⟩

/-- A shelf takes a pipeline up exactly when it has a place for it. -/
theorem IsPipeline.takeUp {m : Morph} {n : Name} {stages : List Stage}
    (made : IsPipeline m n stages) (shelf : Shelf) :
    if shelf.hasPlaceFor n then
      ∃ shelf', shelf.takeUp m = .ok shelf' ∧
        Shelf.Enrols m (stages.map (·.label.given)) shelf shelf'
    else ∃ f, shelf.takeUp m = .error f := by
  obtain ⟨⟨head, info, executed, rfl, rfl⟩, _⟩ := made
  split
  · next place => exact Shelf.takeUp_of_place place
  · next full => exact Shelf.takeUp_of_no_place (Bool.eq_false_iff.mpr full)

/-! ### Runs -/

/-- How a workbench stands whose builder has accepted some stages and given some pipelines. -/
structure Stands (n : Name) (stages : List Stage) (ms : List Morph) (w : Workbench) : Prop where
  named : w.builder.name = n
  staged : w.builder.stages = stages
  built : w.builder.built = none ∧ ms = [] ∨
    ∃ m, w.builder.built = some m ∧ ms = [m] ∧ IsPipeline m n stages

variable {n : Name} {stages : List Stage} {ms : List Morph}

/-- A call that fails accepts nothing and builds nothing. -/
theorem call_of_error {c : Call} {f : Fault} (fails : c.outcome w = .error f) :
    c.run w = (.error f, w) ∧ (Event.call c).accepted w = [] ∧ (Event.call c).pipelines w = [] := by
  have ran : c.run w = (.error f, w) := by rw [Call.run_eq, fails, commit]
  refine ⟨ran, ?_, ?_⟩
  · cases c with
    | add a => simp only [Event.accepted, ran]
    | build cells id firstId metadata options => rfl
  · simp only [Event.pipelines, Event.run, ran]

theorem Stands.add (stands : Stands n stages ms w) {a : Addition} {r : Option Morph}
    (added : (Call.add a).outcome w = .ok (r, w')) :
    Stands n (stages ++ (Event.call (.add a)).accepted w)
      (ms ++ (Event.call (.add a)).pipelines w) w' := by
  obtain ⟨s, staged, rfl, opened, rfl⟩ := add_eq_ok added
  have ran := Call.run_eq (w := w) (.add a)
  rw [added, commit] at ran
  have accepts : (Event.call (.add a)).accepted w = [s] := by
    simp only [Event.accepted, ran, staged]
  have builds : (Event.call (.add a)).pipelines w = [] := by
    simp only [Event.pipelines, Event.run, ran]
  rw [accepts, builds, List.append_nil]
  refine ⟨stands.named, by rw [← stands.staged], Or.inl ⟨opened, ?_⟩⟩
  rcases stands.built with ⟨_, none⟩ | ⟨m, built, _⟩
  · exact none
  · simp [opened] at built

theorem Stands.build (stands : Stands n stages ms w) {cells : Cells} {id firstId : Nat}
    {metadata : Value} {options : Fields} {r : Option Morph}
    (built : (Call.build cells id firstId metadata options).outcome w = .ok (r, w')) :
    Stands n (stages ++ (Event.call (.build cells id firstId metadata options)).accepted w)
      (ms ++ (Event.call (.build cells id firstId metadata options)).pipelines w) w' := by
  obtain ⟨m, rfl, drafted, froze, _⟩ := build_outcome_eq_ok built
  obtain ⟨opened, made⟩ := draft_eq_ok drafted
  have ran := Call.run_eq (w := w) (.build cells id firstId metadata options)
  rw [built, commit] at ran
  have builds : (Event.call (.build cells id firstId metadata options)).pipelines w = [m] := by
    simp only [Event.pipelines, Event.run, ran]
  have accepts : (Event.call (.build cells id firstId metadata options)).accepted w = [] := rfl
  rw [stands.named, stands.staged] at made
  rw [accepts, builds, List.append_nil]
  refine ⟨by rw [froze, stands.named], by rw [froze, stands.staged],
    Or.inr ⟨m, by rw [froze], ?_, made⟩⟩
  rcases stands.built with ⟨_, none⟩ | ⟨m', built', _⟩
  · rw [none, List.nil_append]
  · simp [opened] at built'

/-- One event keeps up how the workbench stands. -/
theorem Stands.step (stands : Stands n stages ms w) (e : Event) :
    Stands n (stages ++ e.accepted w) (ms ++ e.pipelines w) (e.run w).2 := by
  cases e with
  | request r =>
    have nothing : (Event.request r).pipelines w = [] := by
      obtain ⟨b, _ | c | v⟩ := w
      · rfl
      · have ran : ((Event.request r).run ⟨b, .catalog c⟩).1 = (r.run c).1.map fun _ => none := rfl
        rw [Event.pipelines, ran]
        cases (r.run c).1 <;> rfl
      · rfl
    have kept : ((Event.request r).run w).2.builder = w.builder := by
      obtain ⟨b, _ | c | v⟩ := w <;> rfl
    have added : (Event.request r).accepted w = [] := rfl
    rw [nothing, added, List.append_nil, List.append_nil]
    exact ⟨by rw [kept, stands.named], by rw [kept, stands.staged], by rw [kept]; exact stands.built⟩
  | call c =>
    have ran := Call.run_eq (w := w) c
    cases comes : c.outcome w with
    | error f =>
      obtain ⟨ran, accepts, builds⟩ := call_of_error comes
      rw [accepts, builds, List.append_nil, List.append_nil, Event.run, ran]
      exact stands
    | ok r =>
      obtain ⟨r, w'⟩ := r
      rw [comes, commit] at ran
      rw [Event.run, ran]
      cases c with
      | add a => exact stands.add comes
      | build cells id firstId metadata options => exact stands.build comes

/-- So does any run of events. -/
theorem Stands.run (stands : Stands n stages ms w) (es : List Event) :
    Stands n (stages ++ Builder.accepted w es) (ms ++ Builder.pipelines w es) (after w es) := by
  induction es generalizing w stages ms with
  | nil => simpa [Builder.accepted, Builder.pipelines, after] using stands
  | cons e es ih =>
    have next := ih (stands.step e)
    rw [List.append_assoc, List.append_assoc] at next
    exact next

theorem start_eq_ok {name : Value} {settings : EngineSettings} {b : Builder}
    (started : start name settings = .ok b) : b.stages = [] ∧ b.built = none := by
  obtain ⟨f, refused⟩ :=
    name.exists_refuse "Pipeline name must be a non-empty string, got " ""
  simp only [start, refused] at started
  cases read : Name.ofValue? name with
  | none => simp [read] at started
  | some n =>
    by_cases blank : n.isEmpty = true
    · simp [read, blank] at started
    · simp only [read, blank, Bool.false_eq_true, if_false, Except.ok.injEq] at started
      subst started
      exact ⟨rfl, rfl⟩

/-- What holds of a workbench on which a builder of some name has accepted some stages and given
some pipelines. -/
structure Sound (n : Name) (stages : List Stage) (ms : List Morph) (w : Workbench) : Prop where
  /-- A call that fails leaves the stages, the frozen state and the shelf as they are. -/
  atomic : ∀ (c : Call) (f : Fault), (c.run w).1 = .error f → (c.run w).2 = w
  once : ms.length ≤ 1
  frozen : w.builder.built = ms.head?
  /-- Once a build has gone through, every call fails and changes nothing. -/
  closed : ms ≠ [] → ∀ c : Call, ∃ f, c.run w = (.error f, w)
  staged : w.builder.stages = stages
  declared : ∀ m ∈ ms, m.name = n ∧ m.declaredStages = stages ∧ (stages.map (·.label.text)).Nodup
  /-- A build that goes through freezes the builder into a pipeline of the accepted stages, and puts
  just that pipeline on the shelf. -/
  builds : ∀ cells id firstId metadata options m w',
    (Call.build cells id firstId metadata options).run w = (.ok (some m), w') →
      w'.builder = { w.builder with built := some m } ∧ m.name = n ∧ m.declaredStages = stages ∧
        (stages.map (·.label.text)).Nodup ∧
        Shelf.Enrols m (stages.map (·.label.given)) w.shelf w'.shelf
  /-- A build that would go through without a shelf goes through with any shelf that has a place for
  the name. A shelf that has none refuses it, and the builder is as open as before. -/
  retries : ∀ cells id firstId metadata options m w',
    (Call.build cells id firstId metadata options).run { w with shelf := .missing } =
        (.ok (some m), w') →
      ∀ shelf : Shelf,
        if shelf.hasPlaceFor n then
          ∃ w'', (Call.build cells id firstId metadata options).run { w with shelf } =
            (.ok (some m), w'')
        else
          w.builder.isFrozen = false ∧
            ∃ f, (Call.build cells id firstId metadata options).run { w with shelf } =
              (.error f, { w with shelf })

theorem IsPipeline.declares {m : Morph} (made : IsPipeline m n stages) :
    m.name = n ∧ m.declaredStages = stages ∧ (stages.map (·.label.text)).Nodup := by
  obtain ⟨⟨head, info, executed, rfl, named⟩, labels⟩ := made
  exact ⟨named, rfl, labels⟩

/-- A build comes down to its draft and to what the shelf makes of it. -/
theorem run_build_of_draft {cells : Cells} {id firstId : Nat} {metadata : Value} {options : Fields}
    {m : Morph} (drafted : w.builder.draft cells id firstId metadata options = .ok m) :
    (Call.build cells id firstId metadata options).run w =
      match w.shelf.takeUp m with
      | .ok shelf => (.ok (some m), ⟨{ w.builder with built := some m }, shelf⟩)
      | .error f => (.error f, w) := by
  rw [Call.run_eq]
  simp only [Call.outcome, drafted, finished, bind, Except.bind]
  cases w.shelf.takeUp m <;> rfl

/-- A build that goes through has a draft, and the shelf takes it up. -/
theorem exists_draft_of_run_build {cells : Cells} {id firstId : Nat} {metadata : Value}
    {options : Fields} {m : Morph}
    (ran : (Call.build cells id firstId metadata options).run w = (.ok (some m), w')) :
    w.builder.draft cells id firstId metadata options = .ok m ∧
      w'.builder = { w.builder with built := some m } ∧ w.shelf.takeUp m = .ok w'.shelf := by
  rw [Call.run_eq] at ran
  cases comes : (Call.build cells id firstId metadata options).outcome w with
  | error f => simp [comes, commit] at ran
  | ok r =>
    obtain ⟨given, reached⟩ := r
    rw [comes, commit] at ran
    cases ran
    obtain ⟨m, same, drafted, froze, taken⟩ := build_outcome_eq_ok comes
    cases same
    exact ⟨drafted, froze, taken⟩

theorem Stands.sound (stands : Stands n stages ms w) : Sound n stages ms w where
  atomic c f fails := Call.run_error fails
  once := by
    rcases stands.built with ⟨_, rfl⟩ | ⟨m, _, rfl, _⟩
    · exact Nat.zero_le 1
    · exact Nat.le_refl 1
  frozen := by
    rcases stands.built with ⟨opened, rfl⟩ | ⟨m, built, rfl, _⟩
    · exact opened
    · exact built
  closed := by
    intro some c
    rcases stands.built with ⟨_, none⟩ | ⟨m, built, _⟩
    · exact absurd none some
    · exact Call.refuses_of_built built c
  staged := stands.staged
  declared := by
    intro m hm
    rcases stands.built with ⟨_, rfl⟩ | ⟨m', _, rfl, made⟩
    · cases hm
    · rw [List.mem_singleton.mp hm]
      exact made.declares
  builds := by
    intro cells id firstId metadata options m w' ran
    obtain ⟨drafted, froze, taken⟩ := exists_draft_of_run_build ran
    obtain ⟨_, made⟩ := draft_eq_ok drafted
    rw [stands.named, stands.staged] at made
    obtain ⟨named, declares, labels⟩ := made.declares
    refine ⟨froze, named, declares, labels, ?_⟩
    have takes := made.takeUp w.shelf
    split at takes
    · obtain ⟨shelf, taken', enrols⟩ := takes
      rw [taken] at taken'
      cases taken'
      exact enrols
    · obtain ⟨f, refused⟩ := takes
      rw [taken] at refused
      cases refused
  retries := by
    intro cells id firstId metadata options m w' ran shelf
    obtain ⟨drafted, _, _⟩ := exists_draft_of_run_build ran
    -- A draft does not look at the shelf, so it is the same with another one.
    have drafted : w.builder.draft cells id firstId metadata options = .ok m := drafted
    obtain ⟨opened, made⟩ := draft_eq_ok drafted
    have comes : (Call.build cells id firstId metadata options).run { w with shelf } =
        match shelf.takeUp m with
        | .ok shelf' => (.ok (some m), ⟨{ w.builder with built := some m }, shelf'⟩)
        | .error f => (.error f, { w with shelf }) := run_build_of_draft drafted
    have takes := made.takeUp shelf
    rw [stands.named] at takes
    rw [comes]
    split
    · next place =>
      rw [if_pos place] at takes
      obtain ⟨shelf', taken, _⟩ := takes
      rw [taken]
      exact ⟨_, rfl⟩
    · next full =>
      rw [if_neg full] at takes
      obtain ⟨f, refused⟩ := takes
      rw [refused]
      exact ⟨by rw [isFrozen, opened]; rfl, f, rfl⟩

/-- Whatever happens to a new builder and its shelf, they are sound. -/
theorem after_sound {name : Value} {settings : EngineSettings} {b : Builder}
    (started : start name settings = .ok b) (shelf : Shelf) (es : List Event) :
    Sound b.name (accepted ⟨b, shelf⟩ es) (pipelines ⟨b, shelf⟩ es) (after ⟨b, shelf⟩ es) := by
  obtain ⟨empty, opened⟩ := start_eq_ok started
  have begins : Stands b.name [] [] ⟨b, shelf⟩ := ⟨rfl, empty, Or.inl ⟨opened, rfl⟩⟩
  have stands := begins.run es
  rw [List.nil_append, List.nil_append] at stands
  exact stands.sound

def sampleBuilder : Builder := ⟨("orders" : Text), EngineSettings.default, [], none⟩

/-- A build that comes upon a record under the name of the pipeline, and one after the record is
gone. -/
def sampleEvents : List Event :=
  [.call (.add (.pipe (Catalog.sampleTarget "A") .none)),
    .request (.define (Catalog.sampleTarget "orders") .none (.bool false) .none),
    .call (.build [] 1 2 .none []),
    .request (.remove (.text "orders")),
    .call (.add (.pipeTo (.text "A") .none)),
    .call (.build [] 1 2 .none []),
    .call (.build [] 1 2 .none [])]

theorem sampleEvents_sound :
    start (.text "orders") EngineSettings.default = .ok sampleBuilder ∧
      (pipelines ⟨sampleBuilder, .catalog .empty⟩ sampleEvents).length = 1 ∧
      Sound ("orders" : Text) (accepted ⟨sampleBuilder, .catalog .empty⟩ sampleEvents)
        (pipelines ⟨sampleBuilder, .catalog .empty⟩ sampleEvents)
        (after ⟨sampleBuilder, .catalog .empty⟩ sampleEvents) := by
  have started : start (.text "orders") EngineSettings.default = .ok sampleBuilder := rfl
  exact ⟨started, by decide +kernel, after_sound started (.catalog .empty) sampleEvents⟩

end Builder

end MorphEngine
