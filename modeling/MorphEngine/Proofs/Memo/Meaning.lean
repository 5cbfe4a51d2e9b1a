import MorphEngine.Proofs.Made

/-!
# What a tree of morphs means without its caches

A host is ideal when its functions do nothing but answer: from every world in the same way, and
without a change to it. The meaning of a tree is what an ideal host makes of the tree with every
cache removed. An asynchronous function answers when its result is awaited, which the runs of the
engine do at once.
-/

namespace MorphEngine

open Morph

/-- What user functions and selectors answer. -/
structure Answers where
  call : Value → Value → Value → Except Fault Value
  select : Value → Value → Except Fault Value

namespace Answers

/-- The ideal host. It keeps the answer of the asynchronous function that was called last. -/
def host (a : Answers) (cells : Cells) : Host (Except Fault Value) where
  cells := cells
  call fn v context :=
    if isAsyncFunction fn then
      ExceptT.mk fun w => (.ok (.awaitable 0), { w with user := a.call fn v context })
    else Engine.ofExcept (a.call fn v context)
  select fn context := Engine.ofExcept (a.select fn context)
  await _ := ExceptT.mk fun w => (w.user, w)
  now _ _ := .ok .none

/-- The world that an ideal host starts from. -/
def start : World (Except Fault Value) := ⟨fun _ => .empty, .ok .none⟩

end Answers

/-! ### Trees without caches -/

def Header.bare (head : Header) : Header :=
  { head with
    cache := none
    cacheable := nofun }

namespace Morph

mutual

/-- The same tree with every cache removed. -/
def bare : Morph → Morph
  | simple head fn => simple head.bare fn
  | composed head steps finish => composed head.bare (bareSteps steps) finish
  | conditional head predicate body => conditional head.bare predicate (bare body)
  | identity head => identity head.bare
  | fused head members => fused head.bare (bareStages members)
  | pipeline head info stages declared =>
    pipeline head.bare info (bareStages stages) (bareStages declared)

def bareSteps : List Morph → List Morph
  | [] => []
  | m :: rest => bare m :: bareSteps rest

def bareStages : List Stage → List Stage
  | [] => []
  | .mk label m :: rest => .mk label (bare m) :: bareStages rest

end

@[simp] theorem head_bare (m : Morph) : m.bare.head = m.head.bare := by
  cases m <;> rfl

theorem name_bare (m : Morph) : m.bare.name = m.name := by
  rw [name, head_bare]
  rfl

mutual

theorem isAsync_bare (m : Morph) : m.bare.isAsync = m.isAsync := by
  cases m with
  | composed head steps finish =>
    rw [bare, isAsync, isAsync, anyAsync_bareSteps steps]
    rfl
  | _ => rfl

theorem anyAsync_bareSteps (steps : List Morph) : anyAsync (bareSteps steps) = anyAsync steps := by
  cases steps with
  | nil => rfl
  | cons m rest => rw [bareSteps, anyAsync, anyAsync, isAsync_bare m, anyAsync_bareSteps rest]

end

theorem any_isAsync_bareStages (stages : List Stage) :
    (bareStages stages).any (fun s => s.morph.isAsync) = stages.any fun s => s.morph.isAsync := by
  induction stages with
  | nil => rfl
  | cons s rest ih =>
    cases s with
    | mk label m =>
      rw [bareStages, List.any_cons, List.any_cons, ih]
      simp only [Stage.morph, isAsync_bare]

mutual

theorem bare_bare (m : Morph) : m.bare.bare = m.bare := by
  cases m with
  | composed head steps finish => rw [bare, bare, bareSteps_bareSteps steps]; rfl
  | conditional head predicate body => rw [bare, bare, bare_bare body]; rfl
  | fused head members => rw [bare, bare, bareStages_bareStages members]; rfl
  | pipeline head info stages declared =>
    rw [bare, bare, bareStages_bareStages stages, bareStages_bareStages declared]; rfl
  | _ => rfl

theorem bareSteps_bareSteps (steps : List Morph) :
    bareSteps (bareSteps steps) = bareSteps steps := by
  cases steps with
  | nil => rfl
  | cons m rest => rw [bareSteps, bareSteps, bare_bare m, bareSteps_bareSteps rest]

theorem bareStages_bareStages (stages : List Stage) :
    bareStages (bareStages stages) = bareStages stages := by
  cases stages with
  | nil => rfl
  | cons s rest =>
    cases s with
    | mk label m => rw [bareStages, bareStages, bare_bare m, bareStages_bareStages rest]

end

end Morph

namespace Answers

variable (a : Answers) (cells : Cells)

/-- What an ideal host makes of an input and a context without any cache. -/
def meaning (m : Morph) (v context : Value) : Except Fault Value :=
  ((awaitOnce (a.host cells) m.name context
    (transform (a.host cells) m.bare v context)).runFrom start).1

/-- The key that the cache of a morph has for an input and a context, if there is one. -/
def keyOf (m : Morph) (v context : Value) : Except Fault (Option CacheKey) :=
  ((cacheKey (a.host cells) m.head v context).runFrom start).1

/-- Computing a key for the cache of a morph ends in a key or in there being none. -/
def KeyEnds (m : Morph) (v context : Value) : Prop :=
  m.head.cache.isSome = true → ∃ key, a.keyOf cells m v context = .ok key

/-- Whether the predicate of a condition holds. -/
def holds (predicate v context : Value) : Except Fault Bool :=
  ((do
    let answer ← (a.host cells).call predicate v context
    Engine.ofExcept (answer.resolve cells).truth).runFrom start).1

mutual

/-- Every key that transforming an input asks for can be computed. -/
def KeysEnd (context : Value) : Morph → Value → Prop
  | simple _ _, _ | identity _, _ => True
  | composed _ steps _, v => StepsKeysEnd context steps v
  | conditional _ predicate body, v =>
    a.holds cells predicate v context = .ok true →
      a.KeyEnds cells body v context ∧ KeysEnd context body v
  | fused _ members, v => MembersKeysEnd context members v
  | pipeline _ _ stages _, v => StagesKeysEnd context stages v

def StepsKeysEnd (context : Value) : List Morph → Value → Prop
  | [], _ => True
  | m :: rest, v =>
    a.KeyEnds cells m v context ∧ KeysEnd context m v ∧
      ∀ u, a.meaning cells m v context = .ok u → StepsKeysEnd context rest u

def MembersKeysEnd (context : Value) : List Stage → Value → Prop
  | [], _ => True
  | .mk _ m :: rest, v =>
    KeysEnd context m v ∧ ∀ u, a.meaning cells m v context = .ok u → MembersKeysEnd context rest u

def StagesKeysEnd (context : Value) : List Stage → Value → Prop
  | [], _ => True
  | .mk _ m :: rest, v =>
    a.KeyEnds cells m v context ∧ KeysEnd context m v ∧
      ∀ u, a.meaning cells m v context = .ok u → StagesKeysEnd context rest u

end

end Answers

end MorphEngine
