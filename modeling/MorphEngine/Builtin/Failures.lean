import MorphEngine.Builtin.Strings
import MorphEngine.Value.Lineage
import MorphEngine.Value.Members

/-!
Making failures by calling their classes. Most take any values. Some need a fixed number of them; a
group needs a text and a sequence of failures; a failure of syntax takes its second value apart.
-/

namespace MorphEngine.Builtin

def isFailureValue (v : Value) : Bool := v matches .failure _ _

/-- The members of a sequence; sets and tables are none. -/
def sequenceItems? (v : Value) : Option (List Value) :=
  match v with
  | .table _ | .emptyContext | .set _ | .frozenSet _ => none
  | v => v.iterate?

/-- A group of failures under a text. -/
def makeGroup (kind : Text) (heading members : Value) : Except Fault Value :=
  let second (rest : Text) : Text := "second argument (exceptions) must be a " ++ rest
  if !heading.isText then
    .error (.typeError ("BaseExceptionGroup.__new__() argument 1 must be str, not " ++
      nameInPlaceOfText heading))
  else
    match sequenceItems? members with
    | none => .error (.typeError (second "sequence"))
    | some [] => .error (.plain .value (second "non-empty sequence"))
    | some xs =>
      match xs.findIdx? fun x => !isFailureValue x with
      | some place =>
        .error (.plain .value ("Item " ++ Text.ofNat place ++
          " of second argument (exceptions) is not an exception"))
      | none => .ok (.failure kind [heading, members])

/-- Fails when a failure of syntax is given too few details of its place, or too many, or the line
of its end without the place in it. -/
def checkDetails (given : Nat) : Except Fault Unit :=
  let refused (bound : Text) : Except Fault Unit :=
    .error (.typeError ("function takes " ++ bound ++ " arguments (" ++ Text.ofNat given ++
      " given)"))
  if given < 4 then refused "at least 4"
  else if given = 5 then
    .error (.typeError "end_offset must be provided when end_lineno is provided")
  else if 6 < given then refused "at most 6"
  else .ok ()

/-- A failure of a kind from some values. -/
def makeFailure (kind : Text) (arguments : List Value) : Except Fault Value :=
  match FaultKind.demanding.lookup kind, arguments with
  | some (_, 2), [heading, members] => makeGroup kind heading members
  | some (callee, count), vs =>
    .error (.typeError (callee ++ " takes exactly " ++ Text.ofNat count ++ " arguments (" ++
      Text.ofNat vs.length ++ " given)"))
  | none, [_, details] =>
    if FaultKind.neverSilent.contains kind then do
      checkDetails (← details.iterate).length
      return .failure kind arguments
    else .ok (.failure kind arguments)
  | none, vs => .ok (.failure kind vs)

end MorphEngine.Builtin
