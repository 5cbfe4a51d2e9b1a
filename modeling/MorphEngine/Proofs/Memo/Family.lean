import MorphEngine.Proofs.Memo.Entries
import MorphEngine.Proofs.Memo.Meaning
import MorphEngine.Proofs.Simulation

/-!
# Families of morphs and their caches

A family is a collection of morphs with all their parts. Its functions and selectors are
deterministic, its clocks can be read and judged by, and what a cached member means respects the
keys of its cache. The caches are sound when every entry is what its member means for every input
and context that the entry's key is the key of. Deterministic means so from sound caches, which a
function that calls back into the family must leave sound.
-/

namespace MorphEngine

open Morph

namespace Morph

/-- The morphs that a morph is made of. -/
def parts : Morph → List Morph
  | simple _ _ | identity _ => []
  | composed _ steps _ => steps
  | conditional _ _ body => [body]
  | fused _ members => members.map (·.morph)
  | pipeline _ _ stages _ => stages.map (·.morph)

/-- A condition holds of a morph and of everything that it is made of. -/
inductive Throughout (P : Morph → Prop) : Morph → Prop
  | intro {m : Morph} (here : P m) (parts : ∀ p ∈ m.parts, Throughout P p) : Throughout P m

theorem Throughout.here {P : Morph → Prop} {m : Morph} (all : m.Throughout P) : P m := by
  cases all with
  | intro here parts => exact here

/-- The functions that a morph calls itself. -/
def functions : Morph → List Value
  | simple _ fn => [fn]
  | composed _ _ finish => finish.toList
  | conditional _ predicate _ => [predicate]
  | _ => []

/-- Whether a morph is asynchronous is left to its functions and parts. -/
def IsUndeclared : Morph → Prop
  | simple head _ | composed head _ _ => head.metadata.isAsync = none
  | _ => True

end Morph

/-- Two outcomes that are the same result, or faults. -/
def AgreeUpToFaults (r s : Except Fault Value) : Prop :=
  (∃ v, r = .ok v ∧ s = .ok v) ∨ (∃ f g, r = .error f ∧ s = .error g)

namespace Answers

variable {U : Type} (h : Host U) (a : Answers)

/-- What a cache entry of a morph has to be. -/
def Explains (m : Morph) (slot : CacheSlot) (key : CacheKey) (insertedAt v : Value) : Prop :=
  (∃ w, h.now slot.clock w = .ok insertedAt) ∧
    ∀ input context, a.keyOf h.cells m input context = .ok (some key) →
      a.meaning h.cells m input context = .ok v

/-- The caches hold nothing but what the members of a collection mean. -/
def Sound (F : Morph → Prop) (w : World U) : Prop :=
  ∀ m slot, F m → m.head.cache = some slot → (w.caches m.head.id).Keeps (a.Explains h m slot)

/-- A computation ends in the given way from wherever an invariant holds, and keeps it. -/
def Gives {α : Type} (I : World U → Prop) (run : Engine U α) (r : Except Fault α) : Prop :=
  ∀ w, I w → (run.runFrom w).1 = r ∧ I (run.runFrom w).2

/-- A function gives its answers, at once or when what it hands out is awaited. Only an asynchronous
one gives what has to be awaited. -/
structure Explained (I : World U → Prop) (fn : Value) : Prop where
  atOnce : isAsyncFunction fn = false →
    ∀ v context u, a.call fn v context = .ok u → u.isAwaitable = false
  direct : isAsyncFunction fn = false →
    ∀ v context, Gives I (h.call fn v context) (a.call fn v context)
  deferred : isAsyncFunction fn = true → ∀ v context w, I w →
    ∃ u w', (h.call fn v context).runFrom w = (.ok u, w') ∧ u.isAwaitable = true ∧ I w' ∧
      ((h.await u).runFrom w').1 = a.call fn v context ∧ I ((h.await u).runFrom w').2

/-- Floating-point readings can be judged by, whatever number the time to live is. -/
theorem isStale_isOk {cells : Cells} {ttl : Value}
    (number : ttl = .none ∨ (∃ z, ttl = .real z) ∨ ∃ n, ttl = .int n) (x y : Float) :
    ∃ stale, CacheRule.isStale cells ttl (.real x) (.real y) = .ok stale := by
  rcases number with rfl | ⟨z, rfl⟩ | ⟨n, rfl⟩
  · exact ⟨false, rfl⟩
  · exact ⟨_, rfl⟩
  · exact ⟨_, rfl⟩

/-- A collection of morphs whose caches can be trusted. -/
structure Family (F : Morph → Prop) : Prop where
  parts : ∀ m, F m → ∀ p ∈ m.parts, F p
  /-- What a morph is declared to be agrees with its parts, as it does when it was made. -/
  coherent : ∀ m, F m → m.IsCoherent
  undeclared : ∀ m, F m → m.IsUndeclared
  /-- Different members have different caches. -/
  identities : ∀ m m', F m → F m' → m.head.cache.isSome = true → m'.head.cache.isSome = true →
    m.head.id = m'.head.id → m = m'
  functions : ∀ m, F m → ∀ fn ∈ m.functions, a.Explained h (a.Sound h F) fn
  selectors : ∀ m slot, F m → m.head.cache = some slot →
    slot.rule.projection.kind = .custom → ∀ context,
      Gives (a.Sound h F) (h.select slot.rule.projection.selector context)
        (a.select slot.rule.projection.selector context)
  limits : ∀ m slot, F m → m.head.cache = some slot → 1 ≤ slot.rule.limit
  /-- Clocks can always be read, and two of their readings can be judged by, as numbers can. They may
  stand still, jump and run backwards. -/
  clocks : ∀ m slot, F m → m.head.cache = some slot →
    (∀ w, ∃ t, h.now slot.clock w = .ok t) ∧
      ∀ w w' t t', h.now slot.clock w = .ok t → h.now slot.clock w' = .ok t' →
        ∃ stale, CacheRule.isStale h.cells slot.rule.ttl t t' = .ok stale
  /-- Calls with the same key mean the same. -/
  respects : ∀ m slot, F m → m.head.cache = some slot → ∀ key v context v' context',
    a.keyOf h.cells m v context = .ok (some key) →
      a.keyOf h.cells m v' context' = .ok (some key) →
        AgreeUpToFaults (a.meaning h.cells m v context) (a.meaning h.cells m v' context')

/-- A collection whose functions have to be awaited once at most: what they give then does not have
to be awaited again. -/
structure OnceAwaited (F : Morph → Prop) : Prop extends a.Family h F where
  once : ∀ m, F m → ∀ fn ∈ m.functions, ∀ v context u, a.call fn v context = .ok u →
    u.isAwaitable = false

/-- A function gives its answers, and those do not have to be awaited. -/
structure ExplainedOnce (I : World U → Prop) (fn : Value) : Prop extends a.Explained h I fn where
  ready : ∀ v context u, a.call fn v context = .ok u → u.isAwaitable = false

variable {h a} {F : Morph → Prop}

theorem OnceAwaited.explained (family : a.OnceAwaited h F) {m : Morph} (hm : F m) :
    ∀ fn ∈ m.functions, a.ExplainedOnce h (a.Sound h F) fn :=
  fun fn hfn => ⟨family.functions m hm fn hfn, family.once m hm fn hfn⟩

/-- Caches without entries are sound. -/
theorem sound_of_empty {w : World U} (empty : ∀ i, (w.caches i).entries = []) : a.Sound h F w :=
  fun m _ _ _ => MemoCache.keeps_of_empty (empty m.head.id)

/-- A world is sound when its caches are, whatever the functions keep. -/
theorem Sound.of_caches {w w' : World U} (sound : a.Sound h F w) (same : w'.caches = w.caches) :
    a.Sound h F w' := by
  intro m slot hm cached
  rw [same]
  exact sound m slot hm cached

/-- A cache of the family may be changed into one that is sound itself. -/
theorem Sound.update (family : a.Family h F) {w : World U} (sound : a.Sound h F w) {m : Morph}
    {slot : CacheSlot} (hm : F m) (cached : m.head.cache = some slot) {cache : ResultCache}
    (keeps : cache.Keeps (a.Explains h m slot)) (u : U) :
    a.Sound h F ⟨fun i => if i = m.head.id then cache else w.caches i, u⟩ := by
  intro m' slot' hm' cached'
  by_cases same : m'.head.id = m.head.id
  · have one : m' = m := family.identities m' m hm' hm (by rw [cached']; rfl) (by rw [cached]; rfl)
      same
    subst one
    have slots : slot' = slot := Option.some.inj (cached'.symm.trans cached)
    subst slots
    dsimp only
    rw [if_pos rfl]
    exact keeps
  · dsimp only
    rw [if_neg same]
    exact sound m' slot' hm' cached'

end Answers

end MorphEngine
