import MorphEngine.Text

/-!
Sorting by natural runs, for a comparison that may fail. Runs that are there are used: a falling one
is turned round, and a short one is lengthened by putting further elements where halving finds their
place. Neighbouring runs are merged as the places of their boundaries demand, and a merge passes
over whole stretches while one side keeps winning. Equal elements keep their order. Which elements
are compared, and in which order, depends on the outcomes alone, so the result is determined even
where the comparison is no order, and so is the failure that ends a sort.
-/

namespace MorphEngine.NaturalSort

variable {ε α : Type}

/-- A comparison: whether the first element has to stand before the second. -/
abbrev Before (ε α : Type) := α → α → Except ε Bool

/-! ### Runs -/

/-- How many elements after a first one go on in its direction. -/
def runLength (before : Before ε α) (falling : Bool) : α → List α → Except ε Nat
  | _, [] => .ok 0
  | previous, x :: rest => do
    if (← before x previous) == falling then return 1 + (← runLength before falling x rest)
    else return 0

/-- The run at the start, in rising order, and what follows it. -/
def firstRun (before : Before ε α) : List α → Except ε (List α × List α)
  | a :: b :: rest => do
    let falling ← before b a
    let n ← runLength before falling b rest
    let run := a :: b :: rest.take n
    return (if falling then run.reverse else run, rest.drop n)
  | short => .ok (short, [])

/-- The place for an element among sorted ones, between two bounds; `fuel` bounds the halvings. -/
def placeAmong (before : Before ε α) (x : α) (sorted : Array α) : Nat → Nat → Nat → Except ε Nat
  | 0, low, _ => .ok low
  | fuel + 1, low, high =>
    if high ≤ low then .ok low
    else do
      let middle := low + (high - low) / 2
      let earlier ← sorted[middle]?.elim (.ok false) (before x)
      if earlier then placeAmong before x sorted fuel low middle
      else placeAmong before x sorted fuel (middle + 1) high

def insertInto (before : Before ε α) (sorted : List α) (x : α) : Except ε (List α) := do
  let place ← placeAmong before x sorted.toArray (sorted.length + 1) 0 sorted.length
  return sorted.take place ++ x :: sorted.drop place

/-- The least length of a run: between 32 and 64 so that a power of two of them, or a few less, make
up `n`. Digits that are cut off count once together. -/
def leastRun (n rest : Nat) : Nat :=
  if n < 64 then n + rest else leastRun (n / 2) (max rest (n % 2))
termination_by n
decreasing_by omega

/-! ### Stretches -/

/-- Doubles the distance while the test holds: the last place that passed, and the next one. -/
def stride (test : Nat → Except ε Bool) (n : Nat) : Nat → Nat → Nat → Except ε (Nat × Nat)
  | 0, low, _ => .ok (low, n)
  | fuel + 1, low, high =>
    if high < n then do
      if ← test high then stride test n fuel high (2 * high + 1) else return (low, high)
    else .ok (low, n)

/-- The first place from `low` on that fails the test, `high` failing it; odd gaps are rounded
towards the start or the end. -/
def narrow (forward : Bool) (test : Nat → Except ε Bool) : Nat → Nat → Nat → Except ε Nat
  | 0, low, _ => .ok low
  | fuel + 1, low, high =>
    if high ≤ low then .ok low
    else do
      let half := (high - low) / 2
      let middle := if forward then low + half else high - 1 - half
      if ← test middle then narrow forward test fuel (middle + 1) high
      else narrow forward test fuel low middle

/-- How many of `n` places pass a test, those that pass coming first. -/
def stretch (forward : Bool) (test : Nat → Except ε Bool) (n : Nat) : Except ε Nat := do
  if n = 0 then return 0
  if ← test 0 then
    let (low, high) ← stride test n n 0 1
    narrow forward test (n + 1) (low + 1) high
  else return 0

/-! ### Merging -/

/-- A merge under way, from the start or from the end: the shorter side, which was set aside; the
other side; what was put out, the last element first; and how often in a row a side has to win
before stretches are looked for. -/
structure Merge (α : Type) where
  aside : List α
  other : List α
  out : List α
  patience : Nat

namespace Merge

/-- Whether nothing is left to compare. The last element set aside comes after all others. -/
def isOver (m : Merge α) : Bool :=
  match m.aside, m.other with
  | _ :: _ :: _, _ :: _ => false
  | _, _ => true

/-- All elements, the rest of the other side before what was set aside. -/
def result (m : Merge α) : List α := m.out.reverse ++ m.other ++ m.aside

def takeAside (n : Nat) (m : Merge α) : Merge α :=
  { m with aside := m.aside.drop n, out := (m.aside.take n).reverse ++ m.out }

def takeOther (n : Nat) (m : Merge α) : Merge α :=
  { m with other := m.other.drop n, out := (m.other.take n).reverse ++ m.out }

end Merge

/-- How often in a row a side has to win at first, and how long stretches have to be. -/
def winning : Nat := 7

/-- Whether an element of the other side goes before one set aside, in the direction of a merge. -/
def otherFirst (before : Before ε α) (forward : Bool) (aside other : α) : Except ε Bool :=
  if forward then before other aside else before aside other

/-- Passes over the stretch set aside that goes before the other side, or the other way round, and
then over one element of the opposite side. -/
def passStretch (before : Before ε α) (forward ofAside : Bool) (m : Merge α) :
    Except ε (Nat × Merge α) :=
  match m.aside, m.other with
  | x :: _, y :: _ =>
    if ofAside then do
      let test (i : Nat) : Except ε Bool :=
        m.aside[i]?.elim (.ok false) fun a => (!·) <$> otherFirst before forward a y
      let n ← stretch forward test m.aside.length
      let m := m.takeAside n
      return (n, if m.isOver then m else m.takeOther 1)
    else do
      let test (i : Nat) : Except ε Bool :=
        m.other[i]?.elim (.ok false) (otherFirst before forward x)
      let n ← stretch forward test m.other.length
      let m := m.takeOther n
      return (n, if m.isOver then m else m.takeAside 1)
  | _, _ => .ok (0, m)

mutual

/-- Merges one element at a time until a side has won often enough in a row; `fuel` bounds the
elements. -/
def mergeSingly (before : Before ε α) (forward : Bool) :
    Nat → Nat → Nat → Merge α → Except ε (Merge α)
  | 0, _, _, m => .ok m
  | fuel + 1, asideWins, otherWins, m =>
    match m.aside, m.other with
    | x :: _ :: _, y :: _ => do
      let other ← otherFirst before forward x y
      let m := if other then m.takeOther 1 else m.takeAside 1
      let asideWins := if other then 0 else asideWins + 1
      let otherWins := if other then otherWins + 1 else 0
      if m.isOver then return m
      else if m.patience ≤ max asideWins otherWins then
        mergeStretches before forward fuel { m with patience := m.patience + 1 }
      else mergeSingly before forward fuel asideWins otherWins m
    | _, _ => .ok m

/-- Merges by stretches as long as they are long, which lowers the patience; it rises when they no
longer are. -/
def mergeStretches (before : Before ε α) (forward : Bool) :
    Nat → Merge α → Except ε (Merge α)
  | 0, m => .ok m
  | fuel + 1, m => do
    let m := { m with patience := max 1 (m.patience - 1) }
    let (first, m) ← passStretch before forward forward m
    if m.isOver then return m
    let (second, m) ← passStretch before forward (!forward) m
    if m.isOver then return m
    if winning ≤ max first second then mergeStretches before forward fuel m
    else mergeSingly before forward fuel 0 0 { m with patience := m.patience + 1 }

end

/-- Two neighbouring runs as one, with the patience that is left. What stands right at either end
already is left out, and the shorter of the remaining sides is set aside. -/
def mergeRuns (before : Before ε α) (patience : Nat) (a b : List α) :
    Except ε (List α × Nat) := do
  let some first := b.head? | return (a, patience)
  let test (i : Nat) : Except ε Bool := a[i]?.elim (.ok false) fun x => (!·) <$> before first x
  let low ← stretch true test a.length
  let rest := a.drop low
  let some last := rest.getLast? | return (a ++ b, patience)
  let back := b.reverse
  let test (i : Nat) : Except ε Bool := back[i]?.elim (.ok false) fun x => (!·) <$> before x last
  let high ← stretch false test b.length
  let front := (back.drop high).reverse
  if front.isEmpty then return (a ++ b, patience)
  let fuel := rest.length + front.length
  let forward := decide (rest.length ≤ front.length)
  let m : Merge α :=
    if forward then ⟨rest, front, [], patience⟩ else ⟨front.reverse, rest.reverse, [], patience⟩
  let m := m.takeOther 1
  let m ← if m.isOver then pure m else mergeSingly before forward fuel 0 0 m
  let middle := if forward then m.result else m.result.reverse
  return (a.take low ++ middle ++ (back.take high).reverse, m.patience)

/-! ### Pending runs -/

/-- A run that waits to be merged, with the place where it starts and the power of the boundary
behind it. -/
structure Pending (α : Type) where
  start : Nat
  items : List α
  power : Nat

/-- The runs that wait, the last one first, and the patience of the next merge. -/
structure Stack (α : Type) where
  runs : List (Pending α)
  patience : Nat

/-- The power of a boundary: how many binary digits it takes to tell the middles of the runs on both
sides apart, as parts of the whole. The middles are given doubled. -/
def powerOf (n : Nat) : Nat → Nat → Nat → Nat
  | 0, _, _ => 0
  | fuel + 1, a, b =>
    if n ≤ a then 1 + powerOf n fuel (2 * (a - n)) (2 * (b - n))
    else if n ≤ b then 1
    else 1 + powerOf n fuel (2 * a) (2 * b)

def mergeLast (before : Before ε α) (s : Stack α) : Except ε (Stack α) :=
  match s.runs with
  | b :: a :: rest => do
    let (items, patience) ← mergeRuns before s.patience a.items b.items
    return ⟨{ a with items } :: rest, patience⟩
  | _ => .ok s

/-- Merges the last two runs while the boundary between them has a greater power. -/
def mergeAbove (before : Before ε α) (power : Nat) : Nat → Stack α → Except ε (Stack α)
  | 0, s => .ok s
  | fuel + 1, s =>
    match s.runs with
    | _ :: a :: _ =>
      if power < a.power then do mergeAbove before power fuel (← mergeLast before s) else .ok s
    | _ => .ok s

/-- Adds a run of so many elements, out of `n`, behind those that wait. -/
def push (before : Before ε α) (n : Nat) (items : List α) (s : Stack α) :
    Except ε (Stack α) :=
  match s.runs with
  | [] => .ok { s with runs := [⟨0, items, 0⟩] }
  | last :: _ => do
    let middle := 2 * last.start + last.items.length
    let power := powerOf n (n + 1) middle (middle + last.items.length + items.length)
    let start := last.start + last.items.length
    let s ← mergeAbove before power s.runs.length s
    match s.runs with
    | last :: rest =>
      return { s with runs := ⟨start, items, 0⟩ :: { last with power } :: rest }
    | [] => return s

/-- Merges all that waits; a last run that is longer than the one before the previous one waits
until those two are merged. -/
def mergeAll (before : Before ε α) : Nat → Stack α → Except ε (Stack α)
  | 0, s => .ok s
  | fuel + 1, s =>
    match s.runs with
    | c :: b :: a :: rest =>
      if a.items.length < c.items.length then do
        let (items, patience) ← mergeRuns before s.patience a.items b.items
        mergeAll before fuel ⟨c :: { a with items } :: rest, patience⟩
      else do mergeAll before fuel (← mergeLast before s)
    | _ => mergeLast before s

/-- Finds the runs one after the other, lengthens those that are too short, and adds them to those
that wait. -/
def collect (before : Before ε α) (n least : Nat) : Nat → List α → Stack α → Except ε (Stack α)
  | 0, _, s => .ok s
  | _, [], s => .ok s
  | fuel + 1, xs, s => do
    let (run, rest) ← firstRun before xs
    let missing := least - run.length
    let run ← (rest.take missing).foldlM (insertInto before) run
    collect before n least fuel (rest.drop missing) (← push before n run s)

/-- The elements in ascending order. -/
def sort (before : Before ε α) (xs : List α) : Except ε (List α) := do
  let n := xs.length
  let s ← collect before n (leastRun n 0) n xs ⟨[], winning⟩
  let s ← mergeAll before s.runs.length s
  return (s.runs.head?.elim [] (·.items))

end MorphEngine.NaturalSort
