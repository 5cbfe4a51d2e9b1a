import MorphEngine.Morph.Create

/-!
Fusion: maximal runs of neighbouring stages that may be fused become one stage each, when they have
at least two members. A stage may be fused when its morph is declared fusible and is neither
memoizable nor asynchronous. The fused stage gets a label that no other stage has.
-/

namespace MorphEngine

namespace Fusion

/-- The name of the stage that replaces stages with the given labels. -/
def fusedName (labels : List Text) : Text := "fused[" ++ Text.join "+" labels ++ "]"

/-- The name for labels that are given as a value, all of which have to be texts. -/
def fusedNameOf (labels : Value) : Except Fault Text :=
  match labels.iterate? with
  | none => .error (.typeError "can only join an iterable")
  | some vs => do
    return fusedName (← vs.zipIdx.mapM fun (v, place) =>
      match v.text? with
      | some t => .ok t
      | none =>
        .error (.typeError ("sequence item " ++ Text.ofNat place ++
          ": expected str instance, " ++ v.longTypeName ++ " found")))

def isCandidate (m : Morph) : Bool := m.isFusible && !m.isMemoizable && !m.isAsync

/-- The base name itself, or the first of `base@n`, `base@n+1`, … that is not taken. Among as many
names as are taken and one more there is a free one, so the fuel never runs out. -/
def freeName (taken : List Text) (base : Text) : Nat → Text → Nat → Text
  | 0, name, _ => name
  | fuel + 1, name, suffix =>
    if taken.contains name then
      freeName taken base fuel (base ++ "@" ++ Text.ofNat suffix) (suffix + 1)
    else name

/-- The morph that runs members back to back. It is pure when all of them are and costs what they
cost together. -/
def fusedMorph (id : Nat) (name : Text) (members : List Stage) : Except Fault Morph := do
  let ms := members.map (·.morph)
  let cost ← MorphMetadata.readCost (← Morph.costSum ms)
  let metadata : MorphMetadata :=
    { MorphMetadata.default with
      pure := ms.all Morph.isPure
      cost := cost
      isAsync := some false }
  return .fused (← Morph.makeHeader id (.text name) metadata EngineSettings.default) members

/-- What a pass over the stages has produced so far: the stages, the groups and the labels taken. -/
structure Pass where
  stages : List Stage
  groups : List FusionGroup
  taken : List Text

/-- Ends the run of candidates that began at `start`. Identities of fused morphs are counted from
`firstId` by the place where their run began. -/
def closeRun (firstId start : Nat) (run : List Stage) (pass : Pass) : Except Fault Pass :=
  if 2 ≤ run.length then do
    let labels := run.map (·.label)
    let base := fusedName (labels.map (·.text))
    let name := freeName pass.taken base (pass.taken.length + 1) base start
    let fused ← fusedMorph (firstId + start) name run
    return {
      stages := pass.stages ++ [.mk (name : Text) fused]
      groups := pass.groups ++ [⟨start, labels⟩]
      taken := pass.taken ++ [name] }
  else .ok { pass with stages := pass.stages ++ run }

/-- One pass over the stages from place `index` on, with the run of candidates just before it. -/
def walk (firstId : Nat) : Nat → List Stage → List Stage → Pass → Except Fault Pass
  | index, run, [], pass => closeRun firstId (index - run.length) run pass
  | index, run, s :: rest, pass =>
    if isCandidate s.morph then walk firstId (index + 1) (run ++ [s]) rest pass
    else do
      let pass ← closeRun firstId (index - run.length) run pass
      walk firstId (index + 1) [] rest { pass with stages := pass.stages ++ [s] }

/-- The fused stages, with a report of what was done. -/
def fuse (firstId : Nat) (stages : List Stage) : Except Fault (List Stage × FusionReport) := do
  let pass ← walk firstId 0 [] stages ⟨[], [], stages.map (·.label.text)⟩
  return (pass.stages, ⟨true, stages.length, pass.stages.length, pass.groups⟩)

/-- The report of stages that were left as they are. -/
def unfused (stages : List Stage) : FusionReport := ⟨false, stages.length, stages.length, []⟩

end Fusion

namespace FusionReport

/-- How many stages fewer run. -/
def eliminated (r : FusionReport) : Int := (r.declared : Int) - r.executed

def report (r : FusionReport) : Fields :=
  [("enabled", .bool r.enabled), ("declared", .ofNat r.declared), ("executed", .ofNat r.executed),
    ("eliminated", .int r.eliminated),
    ("groups", .list (r.groups.map fun g =>
      .record [("start", .ofNat g.start), ("labels", .list (g.labels.map (·.given)))]))]

end FusionReport

end MorphEngine
