import MorphEngine.Text.Encoding
import MorphEngine.Value.Conversion
import MorphEngine.Value.Members
import MorphEngine.Value.Product

/-!
Calls that make texts and byte strings: a value as it is shown or as running text, bytes taken as a
text in an encoding and the other way round, byte strings of a length or from numbers, and the
number of a character.
-/

namespace MorphEngine.Builtin

/-- A value as it is shown, with everything outside ASCII escaped. -/
def shownInAscii (v : Value) : Except Fault Text := do
  let t ← v.shownOrFault
  return ⟨t.points.flatMap fun c =>
    if c.val < 128 then [c] else (Text.ofChars (Text.escapeNumber c.val)).points⟩

/-! ### Encodings by name -/

/-- What a message calls a value given for a text that it is not. -/
def nameInPlaceOfText (v : Value) : Text := if v matches .none then "None" else v.longTypeName

def lookUpFault (message : Text) : Fault := .plain (.other "LookupError") message

/-- The encoding that a value names as an argument of a call; `instead` is how bytes are changed
into bytes. -/
def readEncoding (callee instead : Text) (v : Value) : Except Fault (Except Fault Encoding) :=
  match v.text? with
  | none =>
    .error (.typeError (callee ++ " argument 'encoding' must be str, not " ++ nameInPlaceOfText v))
  | some t =>
    match (Encoding.sequences false).encode t with
    | .error u => .error (.plain (.other "UnicodeEncodeError") (u.unencodable t))
    | .ok _ =>
      if t.points.any (·.val = 0) then .error (.plain .value "embedded null character")
      else if Encoding.isTransform t then
        .ok (.error (lookUpFault ("'" ++ t ++ "' is not a text encoding; use " ++ instead ++
          " to handle arbitrary codecs")))
      else
        match Encoding.ofName? t with
        | some e => .ok (.ok e)
        | none => .ok (.error (lookUpFault ("unknown encoding: " ++ t)))

/-- The bytes that a value consists of. -/
def byteContent? (v : Value) : Option (List UInt8) :=
  match v.bare with
  | .array _ _ bs _ => some bs
  | .scalar s =>
    match s.type with
    | .bytes _ => v.bare.byteString?
    | .text _ _ | .instant _ _ | .duration _ _ => none
    | _ => some s.bytes
  | v => v.byteString?

/-- The text that a value stands for in an encoding. -/
def decodeText (v encoding : Value) : Except Fault Text := do
  let e ← readEncoding "str()" "codecs.decode()" encoding
  if v.isText then throw (.typeError "decoding str is not supported")
  match byteContent? v with
  | none =>
    throw (.typeError ("decoding to str: need a bytes-like object, " ++ v.longTypeName ++ " found"))
  | some [] => return .empty
  | some bs =>
    match (← e).decode bs with
    | .ok t => return t
    | .error u => throw (.plain (.other "UnicodeDecodeError") (u.undecodable bs))

/-- The bytes that stand for a text in an encoding. -/
def encodeText (callee : Text) (v encoding : Value) : Except Fault (List UInt8) := do
  let e ← readEncoding callee "codecs.encode()" encoding
  match v.text? with
  | none => throw (.typeError "encoding without a string argument")
  | some t =>
    match (← e).encode t with
    | .ok bs => return bs
    | .error u => throw (.plain (.other "UnicodeEncodeError") (u.unencodable t))

/-! ### Byte strings -/

/-- A number as a byte, which `refusal` says when it is none. -/
def readByte (refusal : Text) (v : Value) : Except Fault UInt8 := do
  let n ← v.toIndex
  if 0 ≤ n ∧ n < 256 then return n.toNat.toUInt8 else throw (.plain .value refusal)

/-- So many zero bytes. -/
def zeroBytes (given : Value) (n : Int) : Except Fault (List UInt8) :=
  if !Value.isIndex n then .error (.plain .overflow (Value.tooLargeIndex given))
  else if n < 0 then .error (.plain .value "negative count")
  else if Value.repetitionLimit ≤ n.toNat then .error (.plain (.other "MemoryError") "")
  else .ok (List.replicate n.toNat 0)

/-- The bytes that a value stands for: as many zeros as a number says, its own bytes, or the numbers
that a loop over it meets. -/
def bytesFrom (kind refusal : Text) (v : Value) : Except Fault (List UInt8) :=
  match v.index?, byteContent? v, v.iterate? with
  | some n, _, _ => zeroBytes v n
  | none, some bs, _ => .ok bs
  | none, none, some xs =>
    if v.isText then .error (.typeError "string argument without an encoding")
    else xs.mapM (readByte refusal)
  | none, none, none =>
    .error (.typeError ("cannot convert '" ++ v.longTypeName ++ "' object to " ++ kind))

def byteRefusal : Text := "bytes must be in range(0, 256)"

def bufferRefusal : Text := "byte must be in range(0, 256)"

/-! ### Characters -/

/-- The number of a single character or byte. -/
def ordinal (v : Value) : Except Fault Value :=
  let several (n : Nat) : Fault :=
    .typeError ("ord() expected a character, but string of length " ++ Text.ofNat n ++ " found")
  match v.text?, v.byteString? with
  | some ⟨[c]⟩, _ => .ok (.ofNat c.val)
  | some t, _ => .error (several t.length)
  | none, some [b] => .ok (.ofNat b.toNat)
  | none, some bs => .error (several bs.length)
  | none, none =>
    .error (.typeError ("ord() expected string of length 1, but " ++ v.longTypeName ++ " found"))

end MorphEngine.Builtin
