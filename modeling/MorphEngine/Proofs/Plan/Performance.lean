import MorphEngine.Proofs.Recording

/-!
# Plans

A plan is what a morph has its functions do, laid out in order: calls, and calls that decide whether
a part of the plan is skipped. Each instruction has the label under which it stands. A plan is
performed instruction by instruction, each on the result of the one before, up to the first that
stops it.
-/

namespace MorphEngine

inductive Instruction where
  /-- Calls a function; `owner` is named when the result would have to be awaited. -/
  | call (label owner : Name) (fn : Value)
  /-- Calls a predicate, and performs the body only where it holds. -/
  | guard (label : Name) (predicate : Value) (body : List Instruction)

namespace Morph

mutual

/-- The plan of a morph under a label. -/
def plan (label : Name) : Morph → List Instruction
  | simple head fn => [.call label head.name fn]
  | identity _ => []
  | composed head steps finish =>
    planSteps steps ++ (finish.map (Instruction.call label head.name)).toList
  | conditional _ predicate body => [.guard label predicate (plan body.name body)]
  | fused _ members => planStages members
  | pipeline _ _ stages _ => planStages stages

/-- Each step stands under its own name. -/
def planSteps : List Morph → List Instruction
  | [] => []
  | m :: rest => plan m.name m ++ planSteps rest

def planStages : List Stage → List Instruction
  | [] => []
  | .mk label m :: rest => plan label m ++ planStages rest

end

end Morph

/-- The first instruction that does not come to a result: its label, and what it raised. -/
structure Stop where
  label : Name
  raised : Fault

/-- What comes of performing a plan: the calls that were made, the result or the stop, and the world
that is left behind. -/
structure Performance (U : Type) where
  calls : List HostCall
  outcome : Except Stop Value
  world : World U

namespace Performance

variable {U : Type}

/-- Goes on from the result; a stop ends it. -/
def andThen (p : Performance U) (next : Value → World U → Performance U) : Performance U :=
  match p.outcome with
  | .ok v =>
    let q := next v p.world
    ⟨p.calls ++ q.calls, q.outcome, q.world⟩
  | .error _ => p

theorem andThen_ok (calls : List HostCall) (v : Value) (w : World U)
    (next : Value → World U → Performance U) :
    andThen ⟨calls, .ok v, w⟩ next =
      ⟨calls ++ (next v w).calls, (next v w).outcome, (next v w).world⟩ := rfl

theorem andThen_assoc (p : Performance U) (first second : Value → World U → Performance U) :
    (p.andThen first).andThen second = p.andThen fun v w => (first v w).andThen second := by
  obtain ⟨calls, outcome, world⟩ := p
  cases outcome with
  | error s => rfl
  | ok v =>
    simp only [andThen_ok]
    rcases first v world with ⟨calls', s | v', world'⟩
    · rfl
    · simp only [andThen_ok, List.append_assoc]

end Performance

section Perform

variable {U : Type} (h : Host U) (context : Value)

/-- Calls a function with a value. -/
def ask (label : Name) (fn v : Value) (w : World U) : Performance U :=
  ⟨[.call fn v context], ((h.call fn v context).runFrom w).1.mapError (Stop.mk label),
    ((h.call fn v context).runFrom w).2⟩

mutual

/-- Performs one instruction on a value. -/
def carryOut : Instruction → Value → World U → Performance U
  | .call label owner fn, v, w =>
    (ask h context label fn v w).andThen fun r w =>
      if r.isAwaitable then ⟨[], .error ⟨label, Morph.unawaited owner⟩, w⟩ else ⟨[], .ok r, w⟩
  | .guard label predicate body, v, w =>
    (ask h context label predicate v w).andThen fun holds w =>
      match (holds.resolve h.cells).truth with
      | .error f => ⟨[], .error ⟨label, f⟩, w⟩
      | .ok true => perform body v w
      | .ok false => ⟨[], .ok v, w⟩

/-- Performs a plan on a value. -/
def perform : List Instruction → Value → World U → Performance U
  | [], v, w => ⟨[], .ok v, w⟩
  | i :: rest, v, w => (carryOut i v w).andThen (perform rest)

end

theorem perform_nil (v : Value) (w : World U) : perform h context [] v w = ⟨[], .ok v, w⟩ := by
  rw [perform]

theorem perform_cons (i : Instruction) (rest : List Instruction) (v : Value) (w : World U) :
    perform h context (i :: rest) v w =
      (carryOut h context i v w).andThen (perform h context rest) := by
  rw [perform]

theorem perform_singleton (i : Instruction) (v : Value) (w : World U) :
    perform h context [i] v w = carryOut h context i v w := by
  rw [perform_cons]
  rcases carryOut h context i v w with ⟨calls, s | v', w'⟩
  · rfl
  · simp only [Performance.andThen_ok, perform_nil, List.append_nil]

/-- A plan is performed part by part. -/
theorem perform_append (first second : List Instruction) (v : Value) (w : World U) :
    perform h context (first ++ second) v w =
      (perform h context first v w).andThen (perform h context second) := by
  induction first generalizing v w with
  | nil =>
    rw [List.nil_append, perform_nil, Performance.andThen_ok]
    rfl
  | cons i rest ih =>
    rw [List.cons_append, perform_cons, perform_cons, Performance.andThen_assoc]
    congr 1
    funext v' w'
    exact ih v' w'

end Perform

/-! ### The log of a performance -/

namespace Performance

variable {U : Type}

/-- The performance against a recording host whose log has grown to some length before. -/
def recorded (log : List HostCall) (p : Performance U) : Performance (U × List HostCall) :=
  ⟨p.calls, p.outcome, p.world.withLog (log ++ p.calls)⟩

theorem recorded_andThen {next : Value → World U → Performance U}
    {next' : Value → World (U × List HostCall) → Performance (U × List HostCall)}
    (same : ∀ v w log, next' v (w.withLog log) = (next v w).recorded log)
    (log : List HostCall) (p : Performance U) :
    (p.recorded log).andThen next' = (p.andThen next).recorded log := by
  obtain ⟨calls, outcome, world⟩ := p
  cases outcome with
  | error s => rfl
  | ok v => simp only [recorded, andThen_ok, same, List.append_assoc]

end Performance

section Recorded

variable {U : Type} (h : Host U) (context : Value)

theorem ask_recording (label : Name) (fn v : Value) (w : World U) (log : List HostCall) :
    ask h.recording context label fn v (w.withLog log) =
      (ask h context label fn v w).recorded log := rfl

mutual

theorem carryOut_recording (i : Instruction) (v : Value) (w : World U) (log : List HostCall) :
    carryOut h.recording context i v (w.withLog log) =
      (carryOut h context i v w).recorded log := by
  cases i with
  | call label owner fn =>
    rw [carryOut, carryOut, ask_recording]
    refine Performance.recorded_andThen (fun r w log => ?_) log _
    split
    · simp only [Performance.recorded, List.append_nil]
    · simp only [Performance.recorded, List.append_nil]
  | guard label predicate body =>
    rw [carryOut, carryOut, ask_recording]
    refine Performance.recorded_andThen (fun holds w log => ?_) log _
    rw [show h.recording.cells = h.cells from rfl]
    rcases (holds.resolve h.cells).truth with f | (_ | _)
    · simp only [Performance.recorded, List.append_nil]
    · simp only [Performance.recorded, List.append_nil]
    · exact perform_recording body v w log

/-- A recording host is asked for the calls of the performance, in order. -/
theorem perform_recording (plan : List Instruction) (v : Value) (w : World U)
    (log : List HostCall) :
    perform h.recording context plan v (w.withLog log) =
      (perform h context plan v w).recorded log := by
  cases plan with
  | nil => simp only [perform_nil, Performance.recorded, List.append_nil]
  | cons i rest =>
    rw [perform_cons, perform_cons, carryOut_recording i v w log]
    exact Performance.recorded_andThen (fun v w log => perform_recording rest v w log) log _

end

end Recorded

end MorphEngine
