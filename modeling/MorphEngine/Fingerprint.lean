import MorphEngine.Blake2b
import MorphEngine.Fault
import MorphEngine.Scalar.Arithmetic
import MorphEngine.Text.Encoding
import MorphEngine.Value.Item

/-!
Structural fingerprints: values of the same structure have the same fingerprint, whatever the order
of their table entries and set members. A walk keeps the cells it is inside of, so that a container
met again within itself is refused while one met twice side by side is not. Nesting is limited by
explicit fuel.
-/

namespace MorphEngine

/-- The hexadecimal text of a digest. -/
def Digest.hex (d : Digest) : Text := Text.hexBytes d.bytes

namespace Fingerprint

/-- Why a walk ends without a digest. -/
inductive Obstacle where
  | tooDeep
  | fault (f : Fault)

/-- A walk under the cells that it is inside of. -/
abbrev Walk := ExceptT Obstacle (StateM (List Nat))

/-- The nesting that can be walked. -/
def depthLimit : Nat := 500

def tagged (tag : Text) (payload : List UInt8) : Digest :=
  Blake2b.hash (tag.bytes ++ 0 :: payload)

def joined (ds : List Digest) : List UInt8 := ds.flatMap (·.bytes)

/-- The order of byte strings by their first differing byte. -/
def bytesLe : List UInt8 → List UInt8 → Bool
  | [], _ => true
  | _ :: _, [] => false
  | a :: s, b :: t => a < b || (a == b && bytesLe s t)

def sorted (chunks : List (List UInt8)) : List UInt8 := (chunks.mergeSort bytesLe).flatten

def unfingerprintable (message : Text) : Fault :=
  .plain .unfingerprintable ("Cannot fingerprint " ++ message)

def refuse {α : Type} (f : Fault) : Walk α := throw (.fault f)

/-- Runs a walk inside a container. Only a cell can be met again inside itself; it is left behind
however the walk ends. -/
def inside {α : Type} (v content : Value) (walk : Walk α) : Walk α :=
  match v with
  | .cell i _ => fun active =>
    if active.contains i then
      (.error (.fault (unfingerprintable ("self-referencing " ++ content.typeName))), active)
    else
      let (result, after) := walk.run (i :: active)
      (result, after.erase i)
  | _ => walk

def intText (n : Int) : Walk Text :=
  if Number.isUnwritable n then refuse .tooManyDigits else return Text.ofInt n

/-- What is wrong with a name, if anything: unlike other texts, names must not hold surrogates. -/
def nameFault? (name : Text) : Option Fault :=
  match (Encoding.sequences false).encode name with
  | .ok _ => none
  | .error u => some (.plain (.other "UnicodeEncodeError") (u.unencodable name))

def checkName (name : Text) : Walk Unit :=
  match nameFault? name with
  | none => return ()
  | some f => refuse f

/-- The digits of a shape between parentheses, a single one with a comma. -/
def shapeText : List Nat → Text
  | [n] => "(" ++ Text.ofNat n ++ ",)"
  | ns => "(" ++ Text.join ", " (ns.map Text.ofNat) ++ ")"

/-- The stored form of a name that every program has: its module and itself, each with its length.
-/
def classBytes (owner : ClassName) : List UInt8 :=
  let short (t : Text) : List UInt8 := 0x8c :: t.bytes.length.toUInt8 :: t.bytes ++ [0x94]
  short owner.module ++ short owner.name ++ [0x93, 0x94]

/-- A stored form behind the mark of its version and its length. -/
def framed (body : List UInt8) : List UInt8 :=
  [0x80, 0x05, 0x95] ++ Blake2b.wordBytes body.length.toUInt64 ++ body

/-- A value that has no structure, or the reason why it cannot be stored. -/
def stored (v : Value) : Walk Digest :=
  let unreadable (reason : Text) : Walk Digest :=
    refuse (unfingerprintable ("value of type " ++ v.typeName ++ ": " ++ reason))
  match v with
  | .builtin b =>
    return tagged ("pickle:" ++ v.typeName) (framed (classBytes b.owner ++ [0x2e]))
  | .sealed kind =>
    let message := "opaque " ++ kind
    if kind = "RecursionError" then throw .tooDeep
    else if kind = "PicklingError" then unreadable message
    else
      match FaultKind.ofName kind with
      | .type | .value | .attribute => unreadable message
      | .unfingerprintable => unreadable message
      | _ => refuse (Fault.raised kind (some message))
  | .attributes _ => unreadable (v.typeName ++ " cannot be pickled")
  | .awaitable _ => unreadable "cannot pickle 'coroutine' object"
  | .function _ _ => unreadable "Can't pickle local object"
  | .thing owner _ => unreadable ("cannot pickle '" ++ owner.name ++ "' object")
  | _ => unreadable "cannot pickle '_thread.RLock' object"

/-- A whole number that is not below the 31st negative power of two, in its stored form. -/
def storedInt (n : Int) : List UInt8 :=
  if 0 ≤ n ∧ n < 0x100 then 0x4b :: Scalar.ofInt 1 n
  else if 0 ≤ n ∧ n < 0x10000 then 0x4d :: Scalar.ofInt 2 n
  else 0x4a :: Scalar.ofInt 4 n

/-- The stored form of a date, a point in time or a span of time: its class, and its parts. -/
def storedTime (name : Text) (arguments : List UInt8) : Digest :=
  tagged ("pickle:" ++ name)
    (framed (classBytes ⟨"datetime", name⟩ ++ arguments ++ [0x94, 0x52, 0x94, 0x2e]))

/-- Year, month and day in four bytes. -/
def dateBytes (d : Calendar.Date) : List UInt8 :=
  (Scalar.ofInt 2 d.year).reverse ++ [d.month.toUInt8, d.day.toUInt8]

/-- One byte string as the only part of what is stored. -/
def storedBytes (bs : List UInt8) : List UInt8 := 0x43 :: bs.length.toUInt8 :: bs ++ [0x94, 0x85]

/-- The digest of a time by what it is outside of arrays. -/
def timeDigest (t : Moment.Item) : Walk Digest :=
  match t with
  | .missing => return tagged "none" []
  | .count n => return tagged "int" (← intText n).bytes
  | .span days seconds micros =>
    return storedTime "timedelta"
      (storedInt days ++ storedInt seconds ++ storedInt micros ++ [0x87])
  | .date d => return storedTime "date" (storedBytes (dateBytes d))
  | .instant d seconds micros =>
    let clock := [seconds / 3600, seconds / 60 % 60, seconds % 60].map Nat.toUInt8
    return storedTime "datetime"
      (storedBytes (dateBytes d ++ clock ++ (Scalar.ofNat 3 micros).reverse))

/-- The fields of a record, times left as they are. -/
def recordItems (fields : List ElementType) (bs : List UInt8) : List Value :=
  (Value.fieldScalars fields bs).map fun s =>
    if (Value.scalar s).time?.isSome then .scalar s else (Value.item? s).getD (.scalar s)

/-- A table with digests for its keys and items, each entry kept together. -/
def entriesDigest (tag : Text) (entries : List (Digest × Digest)) : Digest :=
  tagged tag (sorted (entries.map fun e => e.1.bytes ++ e.2.bytes))

def membersDigest (tag : Text) (members : List Digest) : Digest :=
  tagged tag (sorted (members.map (·.bytes)))

def sequenceDigest (tag : Text) (items : List Digest) : Digest :=
  Blake2b.hash (tag.bytes ++ joined items)

def complexText (re im : Float) : Text := Real.hexText re ++ ":" ++ Real.hexText im

/-- The digest of a value under `fuel` levels of nesting. -/
def digest (cells : Cells) : Nat → Value → Walk Digest
  | 0, _ => throw .tooDeep
  | fuel + 1, v =>
    let content := v.resolve cells
    let items (tag : Text) (xs : List Value) : Walk Digest :=
      inside v content do return sequenceDigest tag (← xs.mapM (digest cells fuel))
    let table (tag : Text) (es : List (Value × Value)) : Walk Digest :=
      inside v content do
        return entriesDigest tag
          (← es.mapM fun e => do return (← digest cells fuel e.1, ← digest cells fuel e.2))
    match content.bare with
    | .none => return tagged "none" []
    | .bool b => return tagged "bool" [if b then 49 else 48]
    | .member m =>
      let name := m.owner.module ++ "." ++ m.owner.name ++ "." ++ m.name
      do
        checkName name
        return tagged "enum" name.bytes
    | .int n => return tagged "int" (← intText n).bytes
    | .real x => return tagged "float" (Real.hexText x).bytes
    | .complex re im => return tagged "complex" (complexText re im).bytes
    | .text t => return tagged "str" t.bytes
    | .bytes bs => return tagged "bytes" bs
    | .buffer bs => return tagged "bytearray" bs
    | .array type shape bs _ =>
      return tagged "ndarray" ((type.code ++ "|" ++ shapeText shape ++ "|").bytes ++ bs)
    | .objectArray shape xs => items ("ndarray-object" ++ shapeText shape) xs
    | .scalar s =>
      match s.type, (Value.scalar s).time?, Value.item? s with
      | .bytes _, _, _ => return tagged "bytes_" (Scalar.dropZeroBytes s.bytes)
      | .record fields, _, _ => digest cells fuel (.tuple (recordItems fields s.bytes))
      | _, some (isPoint, u, n), _ => timeDigest (Value.timeItem isPoint u n)
      | _, none, some w => digest cells fuel w
      | _, none, none => throw .tooDeep
    | .emptyContext => table "dict" []
    | .table es => table "dict" es
    | .list xs => items "list" xs
    | .tuple xs => items "tuple" xs
    | .pair a b => items "Pair" [a, b]
    | .set xs =>
      inside v content do return membersDigest "set" (← xs.mapM (digest cells fuel))
    | .frozenSet xs =>
      inside v content do return membersDigest "frozenset" (← xs.mapM (digest cells fuel))
    | .object owner fs =>
      let tag := "dataclass:" ++ owner.module ++ "." ++ owner.name
      inside v content do
        let entries ← fs.mapM fun f => do
          return (← digest cells fuel (.text f.1), ← digest cells fuel f.2)
        checkName tag
        return entriesDigest tag entries
    | w => stored w

end Fingerprint

/-- The fingerprint of a value that is walked to so many levels, or the fault of having none. -/
def fingerprintWithin (levels : Nat) (cells : Cells) (v : Value) : Except Fault Digest :=
  match ((Fingerprint.digest cells levels v).run []).1 with
  | .ok d => .ok d
  | .error .tooDeep =>
    .error (Fingerprint.unfingerprintable ((v.resolve cells).typeName ++ ": nested too deeply"))
  | .error (.fault f) => .error f

def fingerprint : Cells → Value → Except Fault Digest := fingerprintWithin Fingerprint.depthLimit

/-- The fingerprint of a value, nothing when it has none. Other faults stay faults. -/
def fingerprint? (cells : Cells) (v : Value) : Except Fault (Option Digest) :=
  match fingerprint cells v with
  | .ok d => .ok (some d)
  | .error f => if f.isUnfingerprintable then .ok none else .error f

end MorphEngine
