import MorphEngine.Proofs.Fusion.Direct
import MorphEngine.Proofs.Memo.Family
import MorphEngine.Proofs.Plan.Performance

/-!
# Morphs perform their plans

A morph without asynchronous or memoizable parts does what its plan says: it makes the calls of the
plan in order, stops at the first that fails, and puts the label of that instruction on the fault.
Only a fault whose message cannot be written gets no label: what is raised instead is the fault of
not being able to write it, under a label further out or none.
-/

namespace MorphEngine

/-- The fault of a stopped plan. -/
def Stop.fault (context : Value) (s : Stop) : Fault := s.raised.under s.label context

/-- What a performance gives: its result, or the fault of its stop. -/
def Performance.reply {U : Type} (context : Value) (p : Performance U) : Except Fault (Reply U) :=
  match p.outcome with
  | .ok v => .ok (.value v)
  | .error s => .error (s.fault context)

section Following

variable {U : Type} (h : Host U) (context : Value)

/-- The outcome of a run is what a plan came to. A stop shows as the fault under its label, or, when
that cannot be written, as the fault of this, which an outer label may be put on. -/
inductive Shows : Except Fault Value → Except Stop Value → Prop
  | result {v : Value} (ready : v.isAwaitable = false) : Shows (.ok v) (.ok v)
  | labelled {s : Stop} (written : ¬ s.raised.IsUnwritten) :
      Shows (.error (s.fault context)) (.error s)
  | lost {s : Stop} {g : Fault} (gives : s.raised.GivesWay g) : Shows (.error g) (.error s)
  | outside {s : Stop} {g : Fault} (gives : s.raised.GivesWay g) (label : Name) :
      Shows (.error (.transform label.given g context true)) (.error s)

/-- A run ends as a performance does. -/
structure Follows (ran : Except Fault Value × World U) (p : Performance U) : Prop where
  shows : Shows context ran.1 p.outcome
  world : ran.2 = p.world

variable {h context}

/-- Blame puts its label on what an instruction raised. -/
theorem shows_blame (label : Name) (f : Fault) :
    Shows context (.error (f.blame label context)) (.error ⟨label, f⟩) := by
  by_cases unwritten : f.IsUnwritten
  · obtain ⟨g, gives⟩ := unwritten
    rw [gives.blame_eq]
    exact .lost (s := ⟨label, f⟩) gives
  · rw [Fault.blame_eq_under unwritten]
    exact .labelled (s := ⟨label, f⟩) unwritten

/-- Further out, blame goes on showing the same stop. -/
theorem Shows.blame {f : Fault} {s : Stop} (shows : Shows context (.error f) (.error s))
    (label : Name) : Shows context (.error (f.blame label context)) (.error s) := by
  cases shows with
  | labelled written =>
    have settled : (s.fault context).IsSettled := Fault.under_isSettled _ _ _
    rw [settled.blame_eq]
    exact .labelled written
  | lost gives =>
    rw [gives.blame_again]
    exact .outside gives label
  | outside gives inner =>
    rw [(Fault.IsSettled.named _ _ _ _).blame_eq]
    exact .outside gives inner

open Morph

/-- A run that goes on from a result follows a performance that does. -/
theorem Follows.andThen {run : Engine U Value} {next : Value → Engine U Value} {w : World U}
    {p : Performance U} {later : Value → World U → Performance U}
    (follows : Follows context (run.runFrom w) p)
    (goesOn : ∀ v w, v.isAwaitable = false → Follows context ((next v).runFrom w) (later v w)) :
    Follows context ((run >>= next).runFrom w) (p.andThen later) := by
  rw [Engine.runFrom_bind]
  generalize run.runFrom w = ran at follows ⊢
  obtain ⟨r, w'⟩ := ran
  obtain ⟨calls, outcome, world⟩ := p
  obtain ⟨shows, rfl⟩ := follows
  cases shows with
  | @result v ready =>
    obtain ⟨shows, world⟩ := goesOn v w' ready
    exact ⟨shows, world⟩
  | labelled written => exact ⟨.labelled written, rfl⟩
  | lost gives => exact ⟨.lost gives, rfl⟩
  | outside gives label => exact ⟨.outside gives label, rfl⟩

/-- Blame leaves a run following what it followed. -/
theorem Follows.blame {run : Engine U Value} {w : World U} {p : Performance U}
    (follows : Follows context (run.runFrom w) p) (label : Name) :
    Follows context ((Engine.mapFault (Fault.blame label context) run).runFrom w) p := by
  rw [Engine.runFrom_mapFault]
  generalize run.runFrom w = ran at follows ⊢
  obtain ⟨f | v, w'⟩ := ran
  · obtain ⟨calls, outcome, world⟩ := p
    obtain ⟨shows, rfl⟩ := follows
    cases outcome with
    | ok u => cases shows
    | error s => exact ⟨shows.blame label, rfl⟩
  · exact follows

/-- A transformation that hands on a run follows what the run follows. -/
theorem Follows.callOnce {run : Engine U Value} {w : World U} {p : Performance U}
    (follows : Follows context (run.runFrom w) p) (head : Header) (label : Name) :
    Follows context ((callOnce head label context (.value <$> run)).runFrom w) p := by
  have blamed := follows.blame label
  rw [Engine.runFrom_mapFault] at blamed
  rw [runFrom_callOnce, Engine.runFrom_map]
  generalize run.runFrom w = ran at follows blamed ⊢
  obtain ⟨f | v, w'⟩ := ran
  · exact blamed
  · obtain ⟨calls, outcome, world⟩ := p
    obtain ⟨shows, rfl⟩ := follows
    cases shows with
    | result ready =>
      simp only [Except.map, Reply.ready?, ready, if_false, Bool.false_eq_true, Option.elim]
      exact ⟨.result ready, rfl⟩

/-- Blame reaches into a transformation that begins with a run. -/
theorem callOnce_bind {α : Type} (head : Header) (label : Name) (run : Engine U α)
    (next : α → Engine U (Reply U)) :
    Morph.callOnce head label context (run >>= next) =
      Engine.mapFault (Fault.blame label context) run >>= fun a =>
        Morph.callOnce head label context (next a) := by
  apply Engine.ext
  intro w
  rw [runFrom_callOnce, Engine.runFrom_bind, Engine.runFrom_bind, Engine.runFrom_mapFault]
  rcases run.runFrom w with ⟨f | a, w'⟩
  · rfl
  · exact (runFrom_callOnce head label context (next a) w').symm

/-- A function is called under the label of its morph. -/
theorem follows_call (head : Header) (label : Name) (fn v : Value) (w : World U) :
    Follows context ((Morph.callOnce head label context (.value <$> h.call fn v context)).runFrom w)
      (perform h context [.call label head.name fn] v w) := by
  rw [perform_singleton, carryOut, ask, runFrom_callOnce, Engine.runFrom_map]
  rcases (h.call fn v context).runFrom w with ⟨f | r, w'⟩
  · exact ⟨shows_blame label f, rfl⟩
  · have refused : ¬ (unawaited head.name).IsUnwritten := by
      rintro ⟨g, gives⟩
      cases gives.unwritten
    by_cases awaitable : r.isAwaitable = true
    · simp only [Except.map, mapError_ok, Reply.ready?, awaitable, if_true, Option.elim,
        Performance.andThen_ok]
      exact ⟨.labelled (s := ⟨label, unawaited head.name⟩) refused, rfl⟩
    · have ready : r.isAwaitable = false := Bool.eq_false_iff.mpr awaitable
      simp only [Except.map, mapError_ok, Reply.ready?, ready, if_false, Bool.false_eq_true,
        Option.elim, Performance.andThen_ok]
      exact ⟨.result ready, rfl⟩

/-- A predicate is called under the label of its condition, and the body runs where it holds. -/
theorem follows_guard (head : Header) (label : Name) (predicate v : Value) (w : World U)
    (ready : v.isAwaitable = false) {run : Engine U Value} {body : List Instruction}
    (follows : ∀ w, Follows context (run.runFrom w) (perform h context body v w)) :
    Follows context
      ((Morph.callOnce head label context (do
        let holds ← h.call predicate v context
        if ← Engine.ofExcept (holds.resolve h.cells).truth then .value <$> run
        else return .value v)).runFrom w)
      (perform h context [.guard label predicate body] v w) := by
  rw [perform_singleton, carryOut, ask, callOnce_bind, Engine.runFrom_bind, Engine.runFrom_mapFault]
  rcases (h.call predicate v context).runFrom w with ⟨f | holds, w'⟩
  · exact ⟨shows_blame label f, rfl⟩
  · simp only [mapError_ok, Performance.andThen_ok, callOnce_bind, Engine.runFrom_bind,
      Engine.runFrom_mapFault, Engine.runFrom_ofExcept]
    rcases (holds.resolve h.cells).truth with f | (_ | _)
    · exact ⟨shows_blame label f, rfl⟩
    · have passed : (Reply.value v : Reply U).ready? = some v := by
        simp only [Reply.ready?, ready, if_false, Bool.false_eq_true]
      have ran := callOnce_of_ready (Engine.runFrom_pure (.value v) w') passed head label context
      simp only [mapError_ok, Bool.false_eq_true, if_false, ran]
      exact ⟨.result ready, rfl⟩
    · have body := (follows w').callOnce head label
      simp only [mapError_ok, if_true]
      exact ⟨body.shows, body.world⟩

/-- Steps that each follow their plan follow the plan of all of them. -/
theorem follows_runSteps {steps : List Morph}
    (each : ∀ m ∈ steps, ∀ v w, v.isAwaitable = false →
      Follows context ((execute h m.head m.name v context (transform h m v context)).runFrom w)
        (perform h context (plan m.name m) v w))
    (v : Value) (w : World U) (ready : v.isAwaitable = false) :
    Follows context ((runSteps h steps v context).runFrom w)
      (perform h context (planSteps steps) v w) := by
  induction steps generalizing v w with
  | nil =>
    rw [runSteps, planSteps, perform_nil]
    exact ⟨.result ready, rfl⟩
  | cons m rest ih =>
    rw [List.forall_mem_cons] at each
    rw [runSteps, planSteps, perform_append]
    exact (each.1 v w ready).andThen fun v' w' ready' => ih each.2 v' w' ready'

theorem follows_runMembers {members : List Stage}
    (each : ∀ s ∈ members, ∀ label v w, v.isAwaitable = false →
      Follows context
        ((callOnce s.morph.head label context (transform h s.morph v context)).runFrom w)
        (perform h context (plan label s.morph) v w))
    (v : Value) (w : World U) (ready : v.isAwaitable = false) :
    Follows context ((runMembers h members v context).runFrom w)
      (perform h context (planStages members) v w) := by
  induction members generalizing v w with
  | nil =>
    rw [runMembers, planStages, perform_nil]
    exact ⟨.result ready, rfl⟩
  | cons s rest ih =>
    obtain ⟨label, m⟩ := s
    rw [List.forall_mem_cons] at each
    rw [runMembers, planStages, perform_append]
    exact (each.1 label v w ready).andThen fun v' w' ready' => ih each.2 v' w' ready'

/-- Neither asynchronous nor memoizable. -/
def Morph.IsDirect (m : Morph) : Prop := m.isAsync = false ∧ m.isMemoizable = false

theorem Morph.IsDirect.bare {m : Morph} (direct : m.IsDirect) : m.head.cache = none :=
  Fusion.cache_eq_none direct.2

/-- A morph all of whose parts are direct follows its plan. -/
theorem follows_transform (h : Host U) (context : Value) {m : Morph}
    (direct : m.Throughout Morph.IsDirect) (label : Name) (v : Value) (w : World U)
    (ready : v.isAwaitable = false) :
    Follows context ((callOnce m.head label context (transform h m v context)).runFrom w)
      (perform h context (plan label m) v w) := by
  -- A member is called under the label of its stage, not under its own name, so the label is general.
  induction direct generalizing label v w with
  | @intro m here parts ih =>
    have notAsync : m.isAsync = false := here.1
    cases m with
    | simple head fn =>
      rw [transform, plan]
      exact follows_call head label fn v w
    | identity head =>
      have passed : (Reply.value v : Reply U).ready? = some v := by
        simp only [Reply.ready?, ready, if_false, Bool.false_eq_true]
      rw [transform, plan, perform_nil,
        callOnce_of_ready (Engine.runFrom_pure (.value v) w) passed]
      exact ⟨.result ready, rfl⟩
    | composed head steps finish =>
      have each : ∀ p ∈ steps, ∀ v w, v.isAwaitable = false →
          Follows context ((execute h p.head p.name v context (transform h p v context)).runFrom w)
            (perform h context (plan p.name p) v w) := by
        intro p hp v w ready
        rw [execute_eq_callOnce h (parts p hp).here.bare]
        exact ih p hp p.name v w ready
      have run := follows_runSteps each v w ready
      rw [transform, if_neg (Bool.eq_false_iff.mp notAsync), plan]
      cases finish with
      | none =>
        rw [Option.map_none, Option.toList_none, List.append_nil, ← map_eq_pure_bind]
        exact run.callOnce head label
      | some fn =>
        rw [Option.map_some, Option.toList_some, perform_append, callOnce_bind]
        exact (run.blame label).andThen fun v' w' _ => follows_call head label fn v' w'
    | conditional head predicate body =>
      have direct := parts body List.mem_cons_self
      have bodyNotAsync : ¬ body.isAsync = true := Bool.eq_false_iff.mp direct.here.1
      simp only [transform, if_neg bodyNotAsync, execute_eq_callOnce h direct.here.bare]
      rw [plan]
      exact follows_guard head label predicate v w ready fun w =>
        ih body List.mem_cons_self body.name v w ready
    | fused head members =>
      rw [transform, plan]
      refine Follows.callOnce (follows_runMembers ?_ v w ready) head label
      intro s hs label v w ready
      exact ih s.morph (List.mem_map_of_mem hs) label v w ready
    | pipeline head info stages declared =>
      have bare : ∀ s ∈ stages, s.morph.head.cache = none := fun s hs =>
        (parts s.morph (List.mem_map_of_mem hs)).here.bare
      have single : ¬ head.metadata.isAsync.getD false = true := by
        simpa only [isAsync, Bool.not_eq_true] using notAsync
      rw [transform, if_neg single, plan, runStages_eq_runMembers h bare]
      refine Follows.callOnce (follows_runMembers ?_ v w ready) head label
      intro s hs label v w ready
      exact ih s.morph (List.mem_map_of_mem hs) label v w ready

/-- A stop shows as the fault under its label just when that can be written. -/
theorem Shows.map_value_eq_reply_iff {r : Except Fault Value} {p : Performance U}
    (shows : Shows context r p.outcome) :
    r.map Reply.value = p.reply context ↔ ∀ s, p.outcome = .error s → ¬ s.raised.IsUnwritten := by
  obtain ⟨calls, outcome, world⟩ := p
  have labelled {s : Stop} {g : Fault} (gives : s.raised.GivesWay g) :
      s.fault context = .transform s.label.given s.raised context true :=
    Fault.under_of_not_isSettled gives.not_isSettled _ _
  cases shows with
  | result ready =>
    refine ⟨fun _ s stopped => ?_, fun _ => rfl⟩
    cases stopped
  | labelled written =>
    refine ⟨fun _ s stopped => ?_, fun _ => rfl⟩
    cases stopped
    exact written
  | @lost s g gives =>
    refine ⟨fun same => ?_, fun written => absurd ⟨g, gives⟩ (written s rfl)⟩
    have fault : g = s.fault context := Except.error.inj same
    have settled : (s.fault context).IsSettled := Fault.under_isSettled _ _ _
    exact absurd (fault ▸ settled) gives.not_isSettled_right
  | @outside s g gives label =>
    refine ⟨fun same => ?_, fun written => absurd ⟨g, gives⟩ (written s rfl)⟩
    have fault : Fault.transform label.given g context true = s.fault context :=
      Except.error.inj same
    rw [labelled gives] at fault
    injection fault with _ cause
    -- What takes the place of a fault can be written, and the fault itself cannot.
    exact absurd ⟨g, cause.symm ▸ gives⟩ gives.written_right

end Following

namespace Morph

variable {U : Type} (h : Host U)

theorem runFrom_apply {m : Morph} (direct : m.IsDirect) (input context : Value) (w : World U) :
    (apply h m input context).runFrom w =
      (((callOnce m.head m.name (contextInEffect context)
          (transform h m input (contextInEffect context))).runFrom w).1.map .value,
        ((callOnce m.head m.name (contextInEffect context)
          (transform h m input (contextInEffect context))).runFrom w).2) := by
  rw [apply_of_direct h direct.1, execute_eq_callOnce h direct.bare, Engine.runFrom_map]

/-- A morph without asynchronous or memoizable parts makes the calls of its plan and no others, and
leaves the world as they do. It comes to the result of the plan, or to the fault of the stop under the
label of the instruction, just when that fault can be written. -/
theorem apply_performs_plan {m : Morph} (direct : m.Throughout IsDirect) (input : Value)
    (ready : input.isAwaitable = false) (context : Value) (w : World U) :
    let p := perform h (contextInEffect context) (m.plan m.name) input w
    h.callsDuring (fun k => apply k m input context) w = p.calls ∧
      ((apply h m input context).runFrom w).2 = p.world ∧
      (((apply h m input context).runFrom w).1 = p.reply (contextInEffect context) ↔
        ∀ s, p.outcome = .error s → ¬ s.raised.IsUnwritten) := by
  intro p
  have follows := follows_transform h (contextInEffect context) direct m.name input w ready
  have recorded :=
    follows_transform h.recording (contextInEffect context) direct m.name input (w.withLog []) ready
  -- The calls are read off the same run under the recorder, the rest off the run itself.
  refine ⟨?_, ?_, ?_⟩
  · rw [Host.callsDuring, runFrom_apply h.recording direct.here, recorded.world, perform_recording]
    rfl
  · rw [runFrom_apply h direct.here, follows.world]
  · rw [runFrom_apply h direct.here]
    exact follows.shows.map_value_eq_reply_iff

/-! ### A sequence that is stopped by a fault without a message -/

def directStep (id : Nat) (name : Text) : Morph := (Fusion.fusibleStage id name).morph

def sampleSequence : Morph :=
  .composed (directStep 2 "C").head [directStep 0 "A", directStep 1 "B"] none

/-- A host whose first function gives a text, and whose others fail with a key that has too many
digits to be written. -/
def faltering : Host Unit where
  cells := []
  call fn _ _ :=
    match fn with
    | .function 0 _ => pure (.text "done")
    | _ => throw (.missingKey (.int (Int.ofNat (Nat.pow 10 5000))))
  select _ _ := pure .none
  await v := pure v
  now _ _ := .ok (.int 0)

theorem sampleSequence_direct : sampleSequence.Throughout IsDirect := by
  refine .intro ⟨by decide, rfl⟩ fun p hp => ?_
  have leaf (id : Nat) (name : Text) : (directStep id name).Throughout IsDirect :=
    .intro ⟨rfl, rfl⟩ fun p hp => absurd hp List.not_mem_nil
  rcases List.mem_cons.mp hp with rfl | hp
  · exact leaf 0 "A"
  · rw [List.mem_singleton.mp hp]
    exact leaf 1 "B"

/-- Both steps are called, and the fault of the second does not come out under its name. -/
theorem apply_sampleSequence :
    let idle : World Unit := ⟨fun _ => .empty, ()⟩
    let p := perform faltering .emptyContext (sampleSequence.plan ("C" : Text)) (.int 0) idle
    faltering.callsDuring (fun k => apply k sampleSequence (.int 0) .none) idle =
        [.call (.function 0 false) (.int 0) .emptyContext,
          .call (.function 1 false) (.text "done") .emptyContext] ∧
      ((apply faltering sampleSequence (.int 0) .none).runFrom idle).1 ≠ p.reply .emptyContext := by
  intro idle p
  have unwritten : (Fault.missingKey (.int (Int.ofNat (Nat.pow 10 5000)))).IsUnwritten :=
    Fault.isUnwritten_of_lacking rfl (by decide +kernel) (by decide +kernel)
  obtain ⟨calls, _, same⟩ :=
    apply_performs_plan faltering sampleSequence_direct (.int 0) rfl .none idle
  exact ⟨calls, fun agrees => same.mp agrees _ rfl unwritten⟩

end Morph

end MorphEngine
