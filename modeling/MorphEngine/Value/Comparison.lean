import MorphEngine.Value.ElementOrder

/-!
Asking whether two values are the same. The answer is a truth value, or truth values element by
element when one of the two is an array or a scalar. Containers go by their members, and a member is
the same as itself whatever the answer would be. Asking walks down into values, and goes no deeper
than a limit.
-/

namespace MorphEngine.Value

/-- Whether two members of containers are one object that can be met twice. -/
def isIdentical : Value → Value → Bool
  | .marked i _, .marked j _ => i == j
  | v, w => isSameCell v w

/-- Whether two keys are the same, within so many levels. -/
def sameKeyWithin (fuel : Nat) (k l : Value) : Except Fault Bool :=
  if k.same l then (if k.isDeeperThan fuel then .error .tooDeepToCompare else .ok true)
  else .ok false

/-- Whether two sets are the same, within so many levels. -/
def sameSetWithin (fuel : Nat) (v w : Value) : Except Fault Bool :=
  if v.same w then
    if v.children.any (isDeeperThan fuel) then .error .tooDeepToCompare else .ok true
  else .ok false

/-- The answer to whether two values are the same, with cells replaced by their contents. -/
def equalWithin (cells : Cells) : Nat → Value → Value → Except Fault Value
  | 0, _, _ => .error .tooDeepToCompare
  | fuel + 1, v, w =>
    let member (x y : Value) : Except Fault Bool := do
      if x.isIdentical y then return true else (← equalWithin cells fuel x y).truth
    let all (xs ys : List Value) : Except Fault Bool :=
      (xs.zip ys).allM fun p => member p.1 p.2
    let answer (b : Except Fault Bool) : Except Fault Value := b.map .bool
    if isSameCell v w then .ok (.bool true)
    else
      let v := v.resolve cells
      let w := w.resolve cells
      match v, w, v.tupleItems?, w.tupleItems? with
      | .list xs, .list ys, _, _ =>
        answer (if xs.length = ys.length then all xs ys else .ok false)
      | _, _, some xs, some ys => answer do return (← all xs ys) && xs.length = ys.length
      | .table es, .table fs, _, _ =>
        if es.length = fs.length then
          answer (es.allM fun e =>
            match fs.find? (·.1.same e.1) with
            | some f => do
              return (← sameKeyWithin fuel e.1 f.1) && (← member e.2 f.2)
            | Option.none => .ok false)
        else .ok (.bool false)
      | .object c fs, .object d gs, _, _ =>
        answer (if c = d then all (fs.map (·.2)) (gs.map (·.2)) else .ok false)
      | v, w, _, _ =>
        match v.setMembers?, w.setMembers? with
        | some _, some _ => answer (sameSetWithin fuel v w)
        | _, _ =>
          let same (x y : Value) : Except Fault Bool := do (← equalWithin cells fuel x y).truth
          (equalElements? cells same v w).getD (.ok (.bool (v.same w)))

/-- Whether two members are the same, within so many levels. -/
def sameMember (cells : Cells) (fuel : Nat) (v w : Value) : Except Fault Bool := do
  if v.isIdentical w then return true else (← equalWithin cells fuel v w).truth

/-- The answer to whether two values are the same. -/
def equal (cells : Cells) (v w : Value) : Except Fault Value :=
  equalWithin cells nestingLimit v w

end MorphEngine.Value
