import MorphEngine.Metadata.Projection
import MorphEngine.Value.Insertion
import MorphEngine.Value.Order

/-!
A bounded cache of results. Entries stay fresh for a time to live that is judged when they are
looked up; when the cache is full the entry whose last use is longest ago makes room. An entry is
found by its key; from then on it is known by its serial number, since a key need not equal itself.
Times are of any type, and whether an entry from some time is stale is judged by an argument, so
nothing is assumed about clocks; a judgement can fail, and then the entry counts as used all the
same. Counters record hits, misses, stores, skipped calls and expired entries.
-/

namespace MorphEngine

structure CacheCounters where
  hits : Nat
  misses : Nat
  stores : Nat
  skips : Nat
  expired : Nat
deriving DecidableEq

structure CacheEntry (τ κ ν : Type) where
  serial : Nat
  key : κ
  insertedAt : τ
  value : ν

/-- The content of a cache: its entries in the order of their insertion, their serial numbers in the
order of their last use, the next serial number, and the counters. -/
structure MemoCache (τ κ ν : Type) where
  entries : List (CacheEntry τ κ ν)
  recency : List Nat
  nextSerial : Nat
  counters : CacheCounters

/-- What stays the same about a cache: the name and projection that its keys are made with, the time
to live, and the greatest number of entries. -/
structure CacheRule where
  name : Value
  ttl : Value
  limit : Nat
  projection : ContextProjection

namespace CacheRule

/-- Whether what was stored at one time is older than the time to live at another. Times are values
that can be subtracted, and the time to live is one that their difference can be compared with. -/
def isStale (cells : Cells) (ttl now insertedAt : Value) : Except Fault Bool :=
  match ttl with
  | .none => .ok false
  | ttl => do Value.greater cells (← Value.minus now insertedAt) ttl

/-- A bound that no cache reaches. -/
def unreachable : Nat := 0x10000000000000000

/-- The greatest count that is not above a number. Nothing is above what is not a number. -/
def countUpTo (a : Amount) : Nat :=
  match a.order? a, a with
  | none, _ => unreachable
  | _, .whole n => n.toNat
  | _, a =>
    match Real.truncate? (Real.ofParts a.realPart) with
    | none => unreachable
    | some n =>
      let n := n.toNat
      if (Amount.whole n).order? a = some .gt then n - 1 else n

/-- The greatest number of entries under a bound that has been found not to be negative. -/
def limitOf (bound : Value) : Except Fault Nat := do
  match (← bound.elements []).content with
  | .numbers [a] => return countUpTo a
  | .times _ _ [n] => return if n = Moment.missing then unreachable else n.toNat
  | .objects [v] => return (v.operand?.bind (·.amounts.head?)).elim unreachable countUpTo
  | _ => return unreachable

/-- The greatest number of entries under a bound that is given as a value: anything will do that can
be compared with zero. -/
def readLimit (v : Value) : Except Fault Nat := do
  if ← Value.relates [] .less v (.int 0) then
    throw (.plain .value "maxsize must be non-negative")
  limitOf v

end CacheRule

namespace MemoCache

variable {τ κ ν : Type}

def empty : MemoCache τ κ ν := ⟨[], [], 0, ⟨0, 0, 0, 0, 0⟩⟩

instance : Inhabited (MemoCache τ κ ν) := ⟨empty⟩

def size (c : MemoCache τ κ ν) : Nat := c.entries.length

def count (f : CacheCounters → CacheCounters) (c : MemoCache τ κ ν) : MemoCache τ κ ν :=
  { c with counters := f c.counters }

def skip (c : MemoCache τ κ ν) : MemoCache τ κ ν := c.count fun n => { n with skips := n.skips + 1 }

/-- Marks an entry as the one used last. -/
def touch (serial : Nat) (c : MemoCache τ κ ν) : MemoCache τ κ ν :=
  { c with recency := c.recency.filter (· != serial) ++ [serial] }

def remove (serial : Nat) (c : MemoCache τ κ ν) : MemoCache τ κ ν :=
  { c with
    entries := c.entries.filter (·.serial != serial)
    recency := c.recency.filter (· != serial) }

/-- Drops the entries used longest ago until one more fits. -/
def makeRoom (limit : Nat) (c : MemoCache τ κ ν) : MemoCache τ κ ν :=
  (c.recency.take (c.size + 1 - limit)).foldl (fun c serial => c.remove serial) c

/-- Puts a new entry behind all others. -/
def append (now : τ) (key : κ) (value : ν) (c : MemoCache τ κ ν) : MemoCache τ κ ν :=
  { c with
    entries := c.entries ++ [⟨c.nextSerial, key, now, value⟩]
    recency := c.recency ++ [c.nextSerial]
    nextSerial := c.nextSerial + 1 }

/-- Gives an entry a new value; it keeps its place among the insertions. -/
def replace (serial : Nat) (now : τ) (value : ν) (c : MemoCache τ κ ν) : MemoCache τ κ ν :=
  { c with
    entries := c.entries.map fun e =>
      if e.serial = serial then { e with insertedAt := now, value := value } else e }

variable [BEq κ]

def find? (c : MemoCache τ κ ν) (key : κ) : Option (CacheEntry τ κ ν) :=
  c.entries.find? (·.key == key)

/-- Looks a key up. A present key counts as used; an entry that is judged stale is dropped and
missed. -/
def lookup {ε : Type} (isStale : τ → Except ε Bool) (key : κ) (c : MemoCache τ κ ν) :
    Except ε (Option ν) × MemoCache τ κ ν :=
  match c.find? key with
  | none => (.ok none, c.count fun n => { n with misses := n.misses + 1 })
  | some e =>
    let c := c.touch e.serial
    match isStale e.insertedAt with
    | .error f => (.error f, c)
    | .ok true =>
      (.ok none, (c.remove e.serial).count fun n =>
        { n with expired := n.expired + 1, misses := n.misses + 1 })
    | .ok false => (.ok (some e.value), c.count fun n => { n with hits := n.hits + 1 })

/-- Puts a value under a key, which counts as a use of the key. -/
def put (limit : Nat) (now : τ) (key : κ) (value : ν) (c : MemoCache τ κ ν) : MemoCache τ κ ν :=
  match c.find? key with
  | some e => (c.replace e.serial now value).touch e.serial
  | none => (c.makeRoom limit).append now key value

/-- Stores a value and counts the store, also one that fails for want of a time; a cache without
room for any entry refuses it. -/
def store (limit : Nat) (now : Except Fault τ) (key : κ) (value : ν) (c : MemoCache τ κ ν) :
    Except Fault Unit × MemoCache τ κ ν :=
  let c := c.count fun n => { n with stores := n.stores + 1 }
  match now with
  | .error f => (.error f, c)
  | .ok now =>
    if limit = 0 then (.error (.plain .value "value too large"), c)
    else (.ok (), c.put limit now key value)

/-- Whether a fresh entry is there. Asking for a present key counts as a use. -/
def contains {ε : Type} (isStale : τ → Except ε Bool) (key : κ) (c : MemoCache τ κ ν) :
    Except ε Bool × MemoCache τ κ ν :=
  match c.find? key with
  | none => (.ok false, c)
  | some e => ((isStale e.insertedAt).map (!·), c.touch e.serial)

omit [BEq κ] in
/-- Reads all entries in the order of their insertion, which counts as uses in that order. -/
def touchAll (c : MemoCache τ κ ν) : MemoCache τ κ ν :=
  c.entries.foldl (fun c e => c.touch e.serial) c

omit [BEq κ] in
/-- Drops the entries that are judged stale and says how many there were. All entries are read
before the first of them is judged. -/
def sweep {ε : Type} (isStale : τ → Except ε Bool) (c : MemoCache τ κ ν) :
    Except ε Nat × MemoCache τ κ ν :=
  let c := c.touchAll
  match c.entries.filterM fun e => isStale e.insertedAt with
  | .error f => (.error f, c)
  | .ok stale =>
    let kept := stale.foldl (fun c e => c.remove e.serial) c
    (.ok stale.length, kept.count fun n => { n with expired := n.expired + stale.length })

omit [BEq κ] in
/-- Drops all entries and keeps the counters. -/
def clear (c : MemoCache τ κ ν) : MemoCache τ κ ν := { c with entries := [], recency := [] }

omit [BEq κ] in
/-- The share of lookups that hit; the whole number zero when there were none. -/
def hitRate (c : MemoCache τ κ ν) : Value :=
  let lookups := c.counters.hits + c.counters.misses
  if lookups = 0 then .int 0 else .real (Number.ratio c.counters.hits lookups)

omit [BEq κ] in
def report (ttl : Value) (c : MemoCache τ κ ν) : List (Text × Value) :=
  [("hits", .ofNat c.counters.hits), ("misses", .ofNat c.counters.misses),
    ("stores", .ofNat c.counters.stores), ("skips", .ofNat c.counters.skips),
    ("expired", .ofNat c.counters.expired), ("size", .ofNat c.size), ("ttl", ttl),
    ("hit_rate", c.hitRate)]

omit [BEq κ] in
/-- The cache as shown: its name, its time to live as running text, and how many entries it has. -/
def shown (name ttl : Value) (c : MemoCache τ κ ν) : Except Fault Text := do
  return "MemoCache(" ++ (← name.shownOrFault) ++ ", ttl=" ++ (← ttl.insertedOrFault) ++
    ", size=" ++ Text.ofNat c.size ++ ")"

omit [BEq κ] in
/-- The cache as a value, of which only its look is known. -/
def look (name ttl : Value) (c : MemoCache τ κ ν) : Value :=
  .thing ⟨"morpheus.cache", "MemoCache"⟩ ((c.shown name ttl).toOption.getD .empty)

end MemoCache

end MorphEngine
