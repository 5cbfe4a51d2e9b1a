import MorphEngine.Proofs.Simulation

/-!
# What a run asks of its host

A recording host answers as another host does and keeps a log of what it is asked: every call of a
function or selector with its arguments, and every awaiting. Recording changes neither outcomes nor
worlds, and a log only grows.
-/

namespace MorphEngine

inductive HostCall where
  | call (fn value context : Value)
  | select (fn context : Value)
  | await (v : Value)

variable {U : Type}

namespace World

def withLog (log : List HostCall) (w : World U) : World (U × List HostCall) :=
  ⟨w.caches, (w.user, log)⟩

def withoutLog (w : World (U × List HostCall)) : World U := ⟨w.caches, w.user.1⟩

def log (w : World (U × List HostCall)) : List HostCall := w.user.2

end World

/-- The computation of a host, entered in the log. -/
def Engine.entered {α : Type} (entry : HostCall) (m : Engine U α) :
    Engine (U × List HostCall) α :=
  ExceptT.mk fun w =>
    let (result, after) := m.run w.withoutLog
    (result, after.withLog (w.log ++ [entry]))

theorem Engine.runFrom_entered {α : Type} (entry : HostCall) (m : Engine U α)
    (w : World (U × List HostCall)) :
    (entered entry m).runFrom w =
      ((m.runFrom w.withoutLog).1, (m.runFrom w.withoutLog).2.withLog (w.log ++ [entry])) := rfl

namespace Host

def recording (h : Host U) : Host (U × List HostCall) where
  cells := h.cells
  call fn v context := Engine.entered (.call fn v context) (h.call fn v context)
  select fn context := Engine.entered (.select fn context) (h.select fn context)
  await v := Engine.entered (.await v) (h.await v)
  now clock w := h.now clock w.withoutLog

/-- The calls that a run makes. -/
def callsDuring {α : Type} (h : Host U)
    (run : Host (U × List HostCall) → Engine (U × List HostCall) α) (w : World U) :
    List HostCall :=
  ((run h.recording).runFrom (w.withLog [])).2.log

open Engine

theorem entered_erases {α : Type} (entry : HostCall) (m : Engine U α) :
    Related (fun w x => w = x.withoutLog) Eq m (entered entry m) := by
  rintro w x rfl
  rw [runFrom_entered]
  refine ⟨?_, rfl⟩
  rcases (m.runFrom x.withoutLog).1 with f | a
  · exact .error f
  · exact .ok rfl

/-- Recording changes nothing but the log. -/
theorem matches_recording (h : Host U) :
    h.Matches h.recording fun w x => w = x.withoutLog where
  cells := rfl
  call _ _ _ := entered_erases _ _
  select _ _ := entered_erases _ _
  await _ := entered_erases _ _
  now := by
    rintro clock w x rfl
    rfl
  caches := by
    rintro w x rfl
    rfl
  update := by
    rintro w x caches rfl
    rfl

theorem entered_grows {α : Type} (start : List HostCall) (entry : HostCall) (m : Engine U α) :
    Related (fun w x => w = x ∧ start <+: x.log) Eq (entered entry m) (entered entry m) := by
  rintro w x ⟨rfl, grown⟩
  refine ⟨?_, rfl, ?_⟩
  · rcases ((entered entry m).runFrom w).1 with f | a
    · exact .error f
    · exact .ok rfl
  · rw [runFrom_entered]
    exact grown.trans (List.prefix_append _ _)

/-- The log of a recording host is only ever added to. -/
theorem recording_grows (h : Host U) (start : List HostCall) :
    h.recording.Matches h.recording fun w x => w = x ∧ start <+: x.log where
  cells := rfl
  call _ _ _ := entered_grows start _ _
  select _ _ := entered_grows start _ _
  await _ := entered_grows start _ _
  now := by
    rintro clock w x ⟨rfl, grown⟩
    rfl
  caches := by
    rintro w x ⟨rfl, grown⟩
    rfl
  update := by
    rintro w x caches ⟨rfl, grown⟩
    exact ⟨rfl, grown⟩

end Host

namespace Morph

/-- Stages on the deferred path add to the log whatever it was before. -/
theorem runStagesDeferred_grows (h : Host U) (context : Value) (stages : List Stage) (v : Value)
    {start : List HostCall} {x : World (U × List HostCall)} (grown : start <+: x.log) :
    start <+: ((runStagesDeferred h.recording stages v context).runFrom x).2.log :=
  (runStagesDeferred_related (h.recording_grows start) stages v context x x ⟨rfl, grown⟩).2.2

end Morph

end MorphEngine
