import MorphEngine.Proofs.Memo.Transparency

/-!
# A journal of calls

User code is given by scripts. A script keeps a state, has a morph applied, tends the cache of the
morph, and ends; what it does next may depend on all that it was answered. The functions of a morph
are scripts in turn, so a call can make the function call again, as deep as the language lets it.
Every call of the morph, every run of its function and every awaiting is entered in a journal, once it
has ended, together with all that went on within it.
-/

namespace MorphEngine

namespace Journal

inductive Entry where
  /-- A call of the morph on one path or the other, with the key that was found for it, if there is
  one, or the fault of looking for it. -/
  | call (awaits : Bool) (key : Except Fault (Option CacheKey)) (within : List Entry)
  /-- A run of a function, up to what it returns. -/
  | invocation (outcome : Except Fault Value) (within : List Entry)
  | awaiting (outcome : Except Fault Value) (within : List Entry)

namespace Entry

def within : Entry → List Entry
  | call _ _ within | invocation _ within | awaiting _ within => within

def isCall : Entry → Bool
  | call _ _ _ => true
  | _ => false

/-- A call for which it was found out what its key is, or that it has none. -/
def isKeyed : Entry → Bool
  | call _ key _ => key.isOk
  | _ => false

def isInvocation : Entry → Bool
  | invocation _ _ => true
  | _ => false

def isAwaited : Entry → Bool
  | awaiting outcome _ => outcome.isOk
  | _ => false

/-- Whether the function was run for a call, and the run ended with a value. On the deferred path the
run goes on until what the function returns has been awaited. On the direct path nothing is awaited,
and to return what would have to be is to fail. -/
def ranWell (awaits : Bool) : List Entry → Bool
  | [] => false
  | invocation (.ok v) _ :: rest => !v.isAwaitable || awaits && rest.any isAwaited
  | invocation (.error _) _ :: _ => false
  | _ :: rest => ranWell awaits rest

/-- A call that did not find a result under its key, and whose run of the function ended with a
value. -/
def isValuedMiss : Entry → Bool
  | call awaits (.ok (some _)) within => ranWell awaits within
  | _ => false

end Entry

mutual

/-- An entry, and all that went on within it. -/
def entriesIn : Entry → List Entry
  | .call awaits key within => .call awaits key within :: allEntries within
  | .invocation outcome within => .invocation outcome within :: allEntries within
  | .awaiting outcome within => .awaiting outcome within :: allEntries within

def allEntries : List Entry → List Entry
  | [] => []
  | e :: rest => entriesIn e ++ allEntries rest

end

/-- How many entries are of a kind, those within others included. -/
def occurrences (kind : Entry → Bool) (entries : List Entry) : Nat := (allEntries entries).countP kind

variable (kind : Entry → Bool)

@[simp] theorem occurrences_nil : occurrences kind [] = 0 := rfl

theorem occurrences_cons (e : Entry) (rest : List Entry) :
    occurrences kind (e :: rest) = (entriesIn e).countP kind + occurrences kind rest := by
  rw [occurrences, allEntries, List.countP_append, occurrences]

theorem occurrences_append (entries entries' : List Entry) :
    occurrences kind (entries ++ entries') = occurrences kind entries + occurrences kind entries' := by
  induction entries with
  | nil => exact (Nat.zero_add _).symm
  | cons e rest ih => rw [List.cons_append, occurrences_cons, occurrences_cons, ih, Nat.add_assoc]

theorem occurrences_single (e : Entry) :
    occurrences kind [e] = (if kind e then 1 else 0) + occurrences kind e.within := by
  rw [occurrences_cons, occurrences_nil, Nat.add_zero]
  cases e <;> rw [entriesIn, List.countP_cons, Nat.add_comm] <;> rfl

namespace Entry

/-- Calls that are made while a key is looked for are no runs of the function. -/
theorem ranWell_append {before : List Entry} (calls : ∀ e ∈ before, e.isCall = true) (awaits : Bool)
    (entries : List Entry) : ranWell awaits (before ++ entries) = ranWell awaits entries := by
  induction before with
  | nil => rfl
  | cons e rest ih =>
    rw [List.forall_mem_cons] at calls
    cases e with
    | call awaits' key within => exact ih calls.2
    | invocation outcome within => cases calls.1
    | awaiting outcome within => cases calls.1

theorem ranWell_of_calls {entries : List Entry} (calls : ∀ e ∈ entries, e.isCall = true)
    (awaits : Bool) : ranWell awaits entries = false := by
  rw [← List.append_nil entries, ranWell_append calls]
  rfl

/-- On the direct path it makes no difference what is awaited later. -/
theorem ranWell_direct_append (entries : List Entry) (outcome : Except Fault Value)
    (within : List Entry) :
    ranWell false (entries ++ [awaiting outcome within]) = ranWell false entries := by
  induction entries with
  | nil => rfl
  | cons e rest ih =>
    cases e with
    | call awaits key within => exact ih
    | awaiting outcome within => exact ih
    | invocation returned within => cases returned <;> rfl

end Entry

end Journal

open Journal

variable {U α : Type}

namespace World

def journal (w : World (U × List Entry)) : List Entry := w.user.2

def withJournal (entries : List Entry) (w : World (U × List Entry)) : World (U × List Entry) :=
  ⟨w.caches, (w.user.1, entries)⟩

def withoutJournal (w : World (U × List Entry)) : World U := ⟨w.caches, w.user.1⟩

end World

namespace Engine

/-- The computation as one entry, which goes by the world that it begins in and by its outcome. -/
def journaled (entry : World (U × List Entry) → Except Fault α → List Entry → Entry)
    (m : Engine (U × List Entry) α) : Engine (U × List Entry) α :=
  ExceptT.mk fun w =>
    let start := w.withJournal []
    let (result, after) := m.run start
    (result, after.withJournal (w.journal ++ [entry start result after.journal]))

theorem runFrom_journaled (entry : World (U × List Entry) → Except Fault α → List Entry → Entry)
    (m : Engine (U × List Entry) α) (w : World (U × List Entry)) :
    (journaled entry m).runFrom w =
      ((m.runFrom (w.withJournal [])).1, (m.runFrom (w.withJournal [])).2.withJournal
        (w.journal ++ [entry (w.withJournal []) (m.runFrom (w.withJournal [])).1
          (m.runFrom (w.withJournal [])).2.journal])) := rfl

end Engine

/-- What a script can ask for. A call is brought to its end. -/
inductive Errand where
  | apply (input context : Value)
  | applyAsync (input context : Value)
  | expire
  | clear

/-- What user code does from some point on. -/
inductive Script (U : Type) where
  | ends (outcome : Except Fault Value)
  | recalls (next : U → Script U)
  | keeps (state : U) (next : Script U)
  | asks (errand : Errand) (next : Except Fault (Option Value) → Script U)

namespace Script

/-- Runs a script, given how its errands are run. -/
def run (ask : Errand → Engine (U × List Entry) (Option Value)) :
    Script U → Engine (U × List Entry) Value
  | ends outcome => Engine.ofExcept outcome
  | recalls next => ExceptT.mk fun w => ((next w.user.1).run ask).run w
  | keeps state next => ExceptT.mk fun w => (next.run ask).run ⟨w.caches, (state, w.journal)⟩
  | asks errand next => ExceptT.mk fun w =>
    let (answer, after) := (ask errand).run w
    ((next answer).run ask).run after

end Script

namespace Errand

/-- A call of a morph, entered in the journal. -/
def enter (h : Host (U × List Entry)) (m : Morph) (awaits : Bool) (input context : Value)
    (call : Request (U × List Entry)) : Engine (U × List Entry) (Option Value) :=
  Engine.journaled (fun start _ within =>
    .call awaits
      ((Morph.cacheKey h m.head input (Morph.contextInEffect context)).runFrom start).1 within)
    (call.run h)

/-- What is asked for, done with a morph under a host. -/
def perform (h : Host (U × List Entry)) (m : Morph) : Errand → Engine (U × List Entry) (Option Value)
  | apply input context => enter h m m.isAsync input context (.apply m input context)
  | applyAsync input context => enter h m true input context (.applyAsync m input context)
  | expire => (Request.expire m).run h
  | clear => (Request.clear m).run h

end Errand

/-- User code: its functions, its selectors, what is awaited, and its clocks. -/
structure Code (U : Type) where
  cells : Cells
  call : Value → Value → Value → Script U
  select : Value → Value → Script U
  await : Value → Script U
  now : Clock → World U → Except Fault Value

namespace Code

/-- A host that runs user code, given how its errands are run. -/
def host (code : Code U) (ask : Errand → Engine (U × List Entry) (Option Value)) :
    Host (U × List Entry) where
  cells := code.cells
  call fn v context :=
    Engine.journaled (fun _ outcome within => .invocation outcome within)
      ((code.call fn v context).run ask)
  select fn context := (code.select fn context).run ask
  await v :=
    Engine.journaled (fun _ outcome within => .awaiting outcome within) ((code.await v).run ask)
  now clock w := code.now clock w.withoutJournal

/-- How an errand is run with a morph, when calls may be nested to some depth. -/
def ask (code : Code U) (m : Morph) : Nat → Errand → Engine (U × List Entry) (Option Value)
  | 0, _ => throw (.plain .recursion "maximum recursion depth exceeded")
  | depth + 1, errand => errand.perform (code.host (code.ask m depth)) m

end Code

end MorphEngine
