import MorphEngine.Scalar.Moment
import MorphEngine.Value

/-!
When two values are the same to a program. Numbers are compared by value, so whole numbers, doubles,
truth values and numeric scalars can be the same; sequences and mappings go by their members;
objects need the same class; morphs, builders and catalogs go by their numbers. Arrays, sealed
objects, failures, objects with attributes only, and what is not a number stand for themselves: two
of them are the same only if they carry the same mark.
-/

namespace MorphEngine.Value

/-- Real and imaginary part of a complex number. -/
def complex? (v : Value) : Option (Number × Number) :=
  match v.bare with
  | .complex re im => some (.real re, .real im)
  | .scalar ⟨.complex n _, bs⟩ => do
    let re ← Scalar.parts? (bs.take (n / 2))
    let im ← Scalar.parts? (bs.drop (n / 2))
    return (.real (Real.ofParts re), .real (Real.ofParts im))
  | v => v.number?.map fun n => (n, .zero)

/-- The time that a scalar holds: whether it is a point, its unit, and how many of them. -/
def time? (v : Value) : Option (Bool × TimeUnit × Int) :=
  match v.bare with
  | .scalar ⟨.instant unit _, bs⟩ => some (true, .ofCode unit, Scalar.toInt bs)
  | .scalar ⟨.duration unit _, bs⟩ => some (false, .ofCode unit, Scalar.toInt bs)
  | _ => Option.none

def byteString? : Value → Option (List UInt8)
  | .bytes bs | .buffer bs => some bs
  | .scalar ⟨.bytes _, bs⟩ => some (Scalar.dropZeroBytes bs)
  | _ => Option.none

/-- Sameness of values without members. -/
def sameAtom (v w : Value) : Bool :=
  match v, w with
  | .none, .none => true
  | .builtin a, .builtin b => a = b
  | .function a _, .function b _ => a = b
  | .part kind a _ _, .part other b _ _ => kind = other && a = b
  | .awaitable a, .awaitable b => a = b
  | .cell a _, .cell b _ => a = b
  | .marked a _, .marked b _ => a = b
  | v, w =>
    match v.text?, w.text? with
    | some s, some t => s = t
    | _, _ =>
      match v.complex?, w.complex? with
      | some (a, b), some (c, d) => a.eq c && b.eq d
      | _, _ =>
        match v.byteString?, w.byteString? with
        | some s, some t => s = t
        | _, _ =>
          match v, w, v.time?, w.time? with
          | .member a, .member b, _, _ => a = b
          | _, _, some (isPoint, u, m), some (other, k, n) =>
            isPoint == other && Moment.same isPoint u k m n
          | _, _, _, _ => false

def setMembers? : Value → Option (List Value)
  | .set xs | .frozenSet xs => some xs
  | _ => Option.none

def tupleItems? : Value → Option (List Value)
  | .tuple xs => some xs
  | .pair a b => some [a, b]
  | _ => Option.none

mutual

def same : Value → Value → Bool
  | .list xs, w =>
    match w with
    | .list ys => sameAll xs ys
    | _ => false
  | .tuple xs, w =>
    match w.tupleItems? with
    | some ys => sameAll xs ys
    | _ => false
  | .pair a b, w =>
    match w.tupleItems? with
    | some [c, d] => same a c && same b d
    | _ => false
  | .table es, w =>
    match w.entries? with
    | some fs => es.length == fs.length && sameEntries es fs
    | _ => false
  | .emptyContext, w => w.entries?.any List.isEmpty
  | .set xs, w =>
    match w.setMembers? with
    | some ys => xs.length == ys.length && eachIn xs ys
    | _ => false
  | .frozenSet xs, w =>
    match w.setMembers? with
    | some ys => xs.length == ys.length && eachIn xs ys
    | _ => false
  | .object c fs, w =>
    match w with
    | .object d gs => c = d && sameFields fs gs
    | _ => false
  | .stage label m, w =>
    match w with
    | .stage other n => same label other && same m n
    | _ => false
  | v, w => sameAtom v w

def sameAll : List Value → List Value → Bool
  | [], [] => true
  | x :: xs, y :: ys => same x y && sameAll xs ys
  | _, _ => false

def eachIn : List Value → List Value → Bool
  | [], _ => true
  | x :: xs, ys => ys.any (fun y => same x y) && eachIn xs ys

def sameEntries : List (Value × Value) → List (Value × Value) → Bool
  | [], _ => true
  | (k, v) :: es, fs => fs.any (fun f => same k f.1 && same v f.2) && sameEntries es fs

def sameFields : List (Text × Value) → List (Text × Value) → Bool
  | [], [] => true
  | (n, v) :: fs, (m, w) :: gs => n = m && same v w && sameFields fs gs
  | _, _ => false

end

end MorphEngine.Value
