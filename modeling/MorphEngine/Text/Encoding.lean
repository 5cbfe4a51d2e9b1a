import MorphEngine.Text

/-!
Texts as bytes. An encoding reads bytes from the front, one code point at a time, and writes each
code point by itself. Where that is not possible it says which bytes or code points are at fault,
and why. Encodings are known under many names, in which case and punctuation do not matter.
-/

namespace MorphEngine

inductive Encoding where
  | ascii
  | latin
  /-- Western European text in single bytes. -/
  | western
  /-- One to four bytes for each code point, perhaps behind a signature. -/
  | sequences (signed : Bool)
  /-- Units of two or four bytes; a mark at the front decides the order when none is given. -/
  | units (size : Nat) (big : Option Bool)
deriving DecidableEq

/-- The part of some bytes or of a text, from `start` up to `stop`, that an encoding cannot cope
with. -/
structure Unfit where
  encoding : Text
  start : Nat
  stop : Nat
  reason : Text

namespace Encoding

/-! ### Names -/

def names : List (Encoding × List String) :=
  [(.ascii, ["ascii", "646", "ansi_x3.4_1968", "ansi_x3_4_1968", "ansi_x3.4_1986", "cp367",
      "csascii", "ibm367", "iso646_us", "iso_646.irv_1991", "iso_ir_6", "us", "us_ascii"]),
    (.latin, ["latin_1", "8859", "cp819", "csisolatin1", "ibm819", "iso8859", "iso8859_1",
      "iso_8859_1", "iso_8859_1_1987", "iso_ir_100", "l1", "latin", "latin1"]),
    (.western, ["cp1252", "1252", "windows_1252"]),
    (.sequences false, ["utf_8", "u8", "utf", "utf8", "utf8_ucs2", "utf8_ucs4", "cp65001"]),
    (.sequences true, ["utf_8_sig"]),
    (.units 2 none, ["utf_16", "u16", "utf16"]),
    (.units 2 (some true), ["utf_16_be", "unicodebigunmarked", "utf_16be"]),
    (.units 2 (some false), ["utf_16_le", "unicodelittleunmarked", "utf_16le"]),
    (.units 4 none, ["utf_32", "u32", "utf32"]),
    (.units 4 (some true), ["utf_32_be", "utf_32be"]),
    (.units 4 (some false), ["utf_32_le", "utf_32le"])]

/-- Names of what turns bytes into other bytes. -/
def transforms : List String :=
  ["base64", "base64_codec", "base_64", "bz2", "bz2_codec", "hex", "hex_codec", "quopri",
    "quopri_codec", "quotedprintable", "quoted_printable", "rot13", "rot_13", "uu", "uu_codec",
    "zip", "zlib", "zlib_codec"]

/-- A name with runs of punctuation made one underscore and dropped at either end, in small letters.
-/
def plainName (t : Text) : Text :=
  let isPart (c : CodePoint) : Bool :=
    let n := c.val
    (48 ≤ n && n ≤ 57) || (65 ≤ n && n ≤ 90) || (97 ≤ n && n ≤ 122) || n == 46
  let step (done : List CodePoint × Bool) (c : CodePoint) : List CodePoint × Bool :=
    if isPart c then
      let gap := if done.2 && !done.1.isEmpty then [Text.ofChar '_'] else []
      (done.1 ++ gap ++ [c], false)
    else if c.val < 128 then (done.1, true)
    else (done.1, false)
  (Text.mk (t.points.foldl step ([], false)).1).lowerAscii

/-- The encoding of a name. -/
def ofName? (t : Text) : Option Encoding :=
  (names.find? fun e => e.2.any fun (n : String) => plainName t = n).map (·.1)

/-- Whether a name stands for a change of bytes into bytes. -/
def isTransform (t : Text) : Bool := transforms.any fun (n : String) => plainName t = n

/-- The name of units in an order. -/
def unitsName (size : Nat) (big : Bool) : Text :=
  "utf-" ++ Text.ofNat (8 * size) ++ (if big then "-be" else "-le")

/-- The name of an encoding in messages. -/
def name : Encoding → Text
  | .ascii => "ascii"
  | .latin => "latin-1"
  | .western => "charmap"
  | .sequences _ => "utf-8"
  | .units size (some big) => unitsName size big
  | .units size none => "utf-" ++ Text.ofNat (8 * size)

/-! ### Reading -/

/-- What is at the front of some bytes: a code point, or bytes that are none, with their number. -/
inductive Front where
  | point (c : CodePoint) (width : Nat)
  | unfit (width : Nat) (reason : Text)

/-- The code points of the bytes 128 to 159 in Western European text, where zero stands for none. -/
def westernPoints : List Nat :=
  [0x20AC, 0, 0x201A, 0x192, 0x201E, 0x2026, 0x2020, 0x2021, 0x2C6, 0x2030, 0x160, 0x2039, 0x152, 0,
    0x17D, 0, 0, 0x2018, 0x2019, 0x201C, 0x201D, 0x2022, 0x2013, 0x2014, 0x2DC, 0x2122, 0x161,
    0x203A, 0x153, 0, 0x17E, 0x178]

def isContinuation (b : UInt8) : Bool := 0x80 ≤ b && b < 0xC0

/-- The number of bytes that a sequence has that begins with a byte; nothing when none does. -/
def sequenceWidth? (b : UInt8) : Option Nat :=
  if b < 0x80 then some 1
  else if b < 0xC2 then none
  else if b < 0xE0 then some 2
  else if b < 0xF0 then some 3
  else if b < 0xF5 then some 4
  else none

/-- Whether a second byte can stand behind a first one: not one that makes the sequence longer than
it needs to be, a surrogate, or no code point at all. -/
def fitsBehind (first second : UInt8) : Bool :=
  isContinuation second &&
    (if first = 0xE0 then 0xA0 ≤ second
      else if first = 0xED then second < 0xA0
      else if first = 0xF0 then 0x90 ≤ second
      else if first = 0xF4 then second < 0x90
      else true)

/-- The front of bytes in sequences of one to four. -/
def sequenceFront (bs : List UInt8) : Front :=
  match bs with
  | [] => .unfit 0 "unexpected end of data"
  | first :: _ =>
    match sequenceWidth? first with
    | none => .unfit 1 "invalid start byte"
    | some width =>
      let rest := (bs.take width).drop 1
      let good := match rest with
        | [] => []
        | second :: others =>
          if fitsBehind first second then second :: others.takeWhile isContinuation else []
      if good.length < rest.length then .unfit (good.length + 1) "invalid continuation byte"
      else if bs.length < width then .unfit bs.length "unexpected end of data"
      else
        let head := if width = 1 then first.toNat else first.toNat % Nat.pow 2 (7 - width)
        .point (CodePoint.ofNat (rest.foldl (fun n b => n * 64 + b.toNat % 64) head)) width

/-- The number that bytes in an order stand for. -/
def unitValue (big : Bool) (bs : List UInt8) : Nat :=
  (if big then bs else bs.reverse).foldl (fun n b => n * 256 + b.toNat) 0

/-- The front of bytes in units of two. -/
def pairFront (big : Bool) (bs : List UInt8) : Front :=
  let unit (place : Nat) : Nat := unitValue big ((bs.drop (2 * place)).take 2)
  let isHigh (n : Nat) : Bool := 0xD800 ≤ n && n < 0xDC00
  let isLow (n : Nat) : Bool := 0xDC00 ≤ n && n < 0xE000
  let n := unit 0
  if bs.length < 2 then .unfit bs.length "truncated data"
  else if isLow n then .unfit 2 "illegal encoding"
  else if !isHigh n then .point (CodePoint.ofNat n) 2
  else if bs.length < 4 then .unfit bs.length "unexpected end of data"
  else if isLow (unit 1) then
    .point (CodePoint.ofNat (0x10000 + (n - 0xD800) * 0x400 + (unit 1 - 0xDC00))) 4
  else .unfit 2 "illegal UTF-16 surrogate"

/-- The front of bytes in units of four. -/
def quadFront (big : Bool) (bs : List UInt8) : Front :=
  let n := unitValue big (bs.take 4)
  if bs.length < 4 then .unfit bs.length "truncated data"
  else if h : n < 0x110000 then
    if Text.isSurrogate ⟨n, h⟩ then
      .unfit 4 "code point in surrogate code point range(0xd800, 0xe000)"
    else .point ⟨n, h⟩ 4
  else .unfit 4 "code point not in range(0x110000)"

/-- The front of bytes that are not none; units without an order are taken as little. -/
def front : Encoding → List UInt8 → Front
  | .ascii, b :: _ =>
    if b < 128 then .point (CodePoint.ofNat b.toNat) 1 else .unfit 1 "ordinal not in range(128)"
  | .latin, b :: _ => .point (CodePoint.ofNat b.toNat) 1
  | .western, b :: _ =>
    if b < 128 || 160 ≤ b then .point (CodePoint.ofNat b.toNat) 1
    else
      match westernPoints.getD (b.toNat - 128) 0 with
      | 0 => .unfit 1 "character maps to <undefined>"
      | n => .point (CodePoint.ofNat n) 1
  | .sequences _, bs => sequenceFront bs
  | .units 2 big, bs => pairFront (big.getD false) bs
  | .units _ big, bs => quadFront (big.getD false) bs
  | _, [] => .unfit 0 "unexpected end of data"

/-- The code points of bytes from a place on. Every code point takes at least one byte, so `fuel`
bounds their number. -/
def pointsFrom (e : Encoding) : Nat → Nat → List UInt8 → Except Unfit (List CodePoint)
  | 0, _, _ => .ok []
  | _, _, [] => .ok []
  | fuel + 1, place, bs =>
    match e.front bs with
    | .point c width => (pointsFrom e fuel (place + width) (bs.drop width)).map (c :: ·)
    | .unfit width reason => .error ⟨e.name, place, place + width, reason⟩

/-- The mark for the order of units, as bytes. -/
def orderMark (size : Nat) (big : Bool) : List UInt8 :=
  let little : List UInt8 := [0xFF, 0xFE] ++ List.replicate (size - 2) 0
  if big then little.reverse else little

def signature : List UInt8 := [0xEF, 0xBB, 0xBF]

/-- The text that bytes stand for. -/
def decode (e : Encoding) (bs : List UInt8) : Except Unfit Text :=
  let read (e : Encoding) (skipped : Nat) : Except Unfit Text :=
    (pointsFrom e bs.length skipped (bs.drop skipped)).map Text.mk
  match e with
  | .units size none =>
    if (orderMark size false).isPrefixOf bs then read (.units size (some false)) size
    else if (orderMark size true).isPrefixOf bs then read (.units size (some true)) size
    else read (.units size (some false)) 0
  | .sequences true =>
    let body := if signature.isPrefixOf bs then bs.drop 3 else bs
    (pointsFrom e body.length 0 body).map Text.mk
  | e => read e 0

/-! ### Writing -/

/-- A number as so many bytes in an order. -/
def unitBytes (size : Nat) (big : Bool) (n : Nat) : List UInt8 :=
  let bytes := (List.range size).map fun i => (n / Nat.pow 256 i).toUInt8
  if big then bytes.reverse else bytes

/-- The bytes of a code point, or why it has none. -/
def pointBytes (e : Encoding) (c : CodePoint) : Except Text (List UInt8) :=
  let n := c.val
  match e with
  | .ascii => if n < 128 then .ok [n.toUInt8] else .error "ordinal not in range(128)"
  | .latin => if n < 256 then .ok [n.toUInt8] else .error "ordinal not in range(256)"
  | .western =>
    if n < 128 ∨ (160 ≤ n ∧ n < 256) then .ok [n.toUInt8]
    else if westernPoints.contains n && n ≠ 0 then .ok [(128 + westernPoints.idxOf n).toUInt8]
    else .error "character maps to <undefined>"
  | .sequences _ =>
    if Text.isSurrogate c then .error "surrogates not allowed" else .ok (Text.encodePoint c)
  | .units size big =>
    let unit := unitBytes size (big.getD false)
    if Text.isSurrogate c then .error "surrogates not allowed"
    else if size = 2 ∧ 0x10000 ≤ n then
      .ok (unit (0xD800 + (n - 0x10000) / 0x400) ++ unit (0xDC00 + (n - 0x10000) % 0x400))
    else .ok (unit n)

/-- How many code points at the front are reported together as unfit: all that are, or, in units,
only the first. -/
def unfitWidth (e : Encoding) (cs : List CodePoint) : Nat :=
  match e with
  | .units _ _ => 1
  | e => (cs.takeWhile fun c => (e.pointBytes c).toOption.isNone).length

/-- The bytes of code points from a place on. -/
def bytesFrom (e : Encoding) : Nat → List CodePoint → Except Unfit (List UInt8)
  | _, [] => .ok []
  | place, c :: rest =>
    match e.pointBytes c with
    | .ok bs => (bytesFrom e (place + 1) rest).map (bs ++ ·)
    | .error reason => .error ⟨e.name, place, place + e.unfitWidth (c :: rest), reason⟩

/-- The bytes that stand for a text. -/
def encode (e : Encoding) (t : Text) : Except Unfit (List UInt8) :=
  let mark : List UInt8 :=
    match e with
    | .sequences true => signature
    | .units size none => orderMark size false
    | _ => []
  (bytesFrom e 0 t.points).map (mark ++ ·)

end Encoding

namespace Unfit

/-- What the message says about the place: one thing, or a range of them. -/
def place (u : Unfit) (one : Text) (many : Text) : Text :=
  if u.stop = u.start + 1 then one ++ " in position " ++ Text.ofNat u.start
  else many ++ " in position " ++ Text.ofNat u.start ++ "-" ++ Text.ofNat (u.stop - 1)

/-- The message about bytes that are no text. -/
def undecodable (u : Unfit) (bs : List UInt8) : Text :=
  let byte : Text := Text.ofChars (Text.hexByte (bs.getD u.start 0))
  "'" ++ u.encoding ++ "' codec can't decode " ++ u.place ("byte 0x" ++ byte) "bytes" ++ ": " ++
    u.reason

/-- The message about code points that have no bytes. -/
def unencodable (u : Unfit) (t : Text) : Text :=
  let n : Nat := (t.points[u.start]?).elim 0 Fin.val
  let digits : Text :=
    if n < 0x100 then "\\x" ++ Text.ofChars (Text.hexDigits 2 n)
    else if n < 0x10000 then "\\u" ++ Text.ofChars (Text.hexDigits 4 n)
    else "\\U" ++ Text.ofChars (Text.hexDigits 8 n)
  "'" ++ u.encoding ++ "' codec can't encode " ++
    u.place ("character '" ++ digits ++ "'") "characters" ++ ": " ++ u.reason

end Unfit

end MorphEngine
