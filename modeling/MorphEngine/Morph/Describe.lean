import MorphEngine.Fusion

/-!
What morphs tell about themselves: a report for any morph, and a readable listing of a pipeline's
declared stages, of what was fused, and of the total cost.
-/

namespace MorphEngine

namespace Morph

def labelList (stages : List Stage) : Value := .list (stages.map fun s => s.label.given)

/-- The part of a report that depends on what a morph is made of. -/
def structureReport : Morph → Fields
  | simple _ _ | conditional _ _ _ | identity _ => []
  | composed _ steps finish =>
    [("steps", .list (steps.map fun m => m.name.given)), ("post_process", .bool finish.isSome)]
  | fused _ members => [("members", labelList members)]
  | pipeline _ info stages declared =>
    [("stages", labelList stages), ("declared_stages", labelList declared),
      ("build_metadata", .record info.labels.report), ("fusion", .record info.fusion.report)]

/-- The report of a morph's cache. -/
def cacheReport (caches : Nat → ResultCache) (m : Morph) : Option Fields :=
  m.head.cache.map fun slot => (caches m.id).report slot.rule.ttl

/-- The report of a morph, given the caches. -/
def report (caches : Nat → ResultCache) (m : Morph) : Fields :=
  let common : Fields :=
    [("name", m.name.given), ("kind", .text m.kind.name), ("is_async", .bool m.isAsync)]
  let cache : Fields := (m.cacheReport caches).elim [] fun fs => [("cache", .record fs)]
  common ++ m.metadata.report ++ cache ++ m.structureReport

/-- The remarks on a stage in a listing. -/
def remarks (m : Morph) : List Text :=
  let all : List (Bool × Text) :=
    [(m.isFusible, "fusible"), (m.head.cache.isSome, "memoized"), (!m.isPure, "impure"),
      (m.isAsync, "async")]
  (all.filter (·.1)).map (·.2)

def stageLine (index : Nat) (s : Stage) : Except Fault Text := do
  let remarks := s.morph.remarks
  let suffix : Text := if remarks.isEmpty then "" else " [" ++ Text.join ", " remarks ++ "]"
  return "  " ++ Text.ofNat index ++ ". " ++ s.label.plain ++
    " (cost: " ++ (← s.morph.cost.given.insertedOrFault) ++ ")" ++ suffix

def stageLines : Nat → List Stage → Except Fault (List Text)
  | _, [] => .ok []
  | index, s :: rest => do return (← stageLine index s) :: (← stageLines (index + 1) rest)

/-- The listing of a pipeline. -/
def listing (name : Name) (cost : Quantity) (info : PipelineInfo) (declared : List Stage) :
    Except Fault Text := do
  let stages ← stageLines 0 declared
  let groups := info.fusion.groups.map fun g =>
    "  fused: " ++ Text.join " + " (g.labels.map (·.text))
  let total : Text := "Total cost: " ++ (← cost.given.insertedOrFault)
  let counts : Text := "Stages: " ++ Text.ofNat info.fusion.declared ++ " declared, " ++
    Text.ofNat info.fusion.executed ++ " executed"
  return Text.join "\n" (("Pipeline: " ++ name.plain) :: stages ++ groups ++ [total, counts])

end Morph

end MorphEngine
