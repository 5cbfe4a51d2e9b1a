import MorphEngine.Value.Order
import MorphEngine.Value.Sum

/-!
Calls that go over the members of a value: whether all or any of them hold, the first and last of
them in order, their sum, and the sequences, sets and tables made of them.
-/

namespace MorphEngine.Builtin

variable (cells : Cells)

/-- The members that a loop over a value meets. -/
def membersOf (v : Value) : Except Fault (List Value) := (v.resolve cells).iterate

def holds (v : Value) : Except Fault Bool := (v.resolve cells).truth

/-- The value that `prefers` puts before all others, the first of equal ones. -/
def foremost (prefers : Value → Value → Except Fault Bool) : Value → List Value → Except Fault Value
  | best, [] => .ok best
  | best, v :: rest => do
    if ← prefers v best then foremost prefers v rest else foremost prefers best rest

/-- The foremost of some values, of which there has to be one. -/
def foremostOf (callee : Text) (prefers : Value → Value → Except Fault Bool) :
    List Value → Except Fault Value
  | [] => .error (.plain .value (callee ++ "() arg is an empty sequence"))
  | v :: rest => foremost prefers v rest

/-- What a sum cannot start with, and the call that joins such values. -/
def unsummable? (v : Value) : Option (Text × Text) :=
  match v with
  | .bytes _ => some ("bytes", "b''.join(seq)")
  | .buffer _ => some ("bytearray", "b''.join(seq)")
  | v => if v.isText then some ("strings", "''.join(seq)") else none

/-- The sum of the members of a value and of a value to start with. -/
def sumFrom (v start : Value) : Except Fault Value := do
  let xs ← membersOf cells v
  match unsummable? start with
  | some (kind, instead) =>
    throw (.typeError ("sum() can't sum " ++ kind ++ " [use " ++ instead ++ " instead]"))
  | none => xs.foldlM (fun total x => total.plus (x.resolve cells)) start

/-- A key and what it stands for, from the member of a value at a place. -/
def entryAt (place : Nat) (v : Value) : Except Fault (Value × Value) :=
  let element : Text := "dictionary update sequence element #" ++ Text.ofNat place
  match (v.resolve cells).iterate? with
  | some [key, item] => .ok (key, item)
  | some xs =>
    .error (.plain .value
      (element ++ " has length " ++ Text.ofNat xs.length ++ "; 2 is required"))
  | none => .error (.typeError ("cannot convert " ++ element ++ " to a sequence"))

/-- The entries of a mapping, or those made from the pairs that a value consists of. -/
def entriesFrom (v : Value) : Except Fault (List (Value × Value)) := do
  match (v.resolve cells).entries? with
  | some es => return es
  | none =>
    let xs ← membersOf cells v
    xs.zipIdx.foldlM (fun es (x, place) => do
      let (key, item) ← entryAt cells place x
      Value.put es key item) []

end MorphEngine.Builtin
