import MorphEngine.Value.Equality

/-!
How deep values nest. Showing and comparing walk down into values, and neither goes deeper than a
limit. A value that contains itself has no end, so comparing two such values can reach the limit
without having found a difference.
-/

namespace MorphEngine.Value

/-- How deep values may nest that are shown or compared. -/
def nestingLimit : Nat := 200

/-- The values that a container holds directly. -/
def children : Value → List Value
  | .list xs | .tuple xs | .set xs | .frozenSet xs | .objectArray _ xs => xs
  | .pair a b => [a, b]
  | .table es => es.flatMap fun e => [e.1, e.2]
  | .object _ fs => fs.map (·.2)
  | .failure _ vs => vs
  | .marked _ v => children v
  | _ => []

/-- Whether a value has more than `n` levels below itself. -/
def isDeeperThan : Nat → Value → Bool
  | 0, v => !v.children.isEmpty
  | n + 1, v => v.children.any (isDeeperThan n)

def isSameCell : Value → Value → Bool
  | .cell i _, .cell j _ => i == j
  | _, _ => false

end MorphEngine.Value
