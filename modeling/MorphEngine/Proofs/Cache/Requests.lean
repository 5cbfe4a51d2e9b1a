import Mathlib.Data.List.Induction
import MorphEngine.OpenCache
import MorphEngine.Proofs.Engine

/-!
# Requests to a cache over time

A cache is asked to store, to look up, to say whether a key is there, to drop what is stale, and to
drop everything. Each request comes with a reading of the clock, and nothing relates one reading to
the next. The requests and their answers make up the history of a cache, and what one request keeps
up holds after any number of them. A cache by itself and the cache of a morph serve requests in the
same way.
-/

namespace MorphEngine

namespace MemoCache

/-- A reading of the clock, with what the cells that values refer to contain at that time. -/
structure Reading where
  now : Value
  cells : Cells

/-- What stays the same about a cache as far as its answers depend on it. -/
structure Bounds where
  ttl : Value
  limit : Nat

namespace Reading

/-- Whether an entry from some time is stale at the reading. -/
def judge (r : Reading) (ttl insertedAt : Value) : Except Fault Bool :=
  CacheRule.isStale r.cells ttl r.now insertedAt

/-- Without a time to live nothing is stale. -/
theorem judge_of_none {ttl : Value} (never : ttl = .none) (r : Reading) (insertedAt : Value) :
    r.judge ttl insertedAt = .ok false := by
  rw [judge, CacheRule.isStale.eq_def, never]

end Reading

inductive Request (κ ν : Type) where
  | store (key : κ) (value : ν)
  | lookup (key : κ)
  | contains (key : κ)
  | expire
  | clear

inductive Answer (ν : Type) where
  | done
  | found (value : Option ν)
  | isFresh (fresh : Bool)
  | dropped (count : Nat)

/-- A request at a reading. -/
structure Event (κ ν : Type) where
  reading : Reading
  request : Request κ ν

/-- An event with the answer that it got. -/
structure Record (κ ν : Type) extends Event κ ν where
  answer : Except Fault (Answer ν)

variable {κ ν : Type} [BEq κ]

/-- Serves a request. -/
def serve (b : Bounds) (e : Event κ ν) (c : MemoCache Value κ ν) :
    Except Fault (Answer ν) × MemoCache Value κ ν :=
  match e.request with
  | .store key value =>
    let (result, c) := c.store b.limit (.ok e.reading.now) key value
    (result.map fun _ => .done, c)
  | .lookup key =>
    let (result, c) := c.lookup (e.reading.judge b.ttl) key
    (result.map .found, c)
  | .contains key =>
    let (result, c) := c.contains (e.reading.judge b.ttl) key
    (result.map .isFresh, c)
  | .expire =>
    match b.ttl with
    | .none => (.ok (.dropped 0), c)
    | ttl =>
      let (result, c) := c.sweep (e.reading.judge ttl)
      (result.map .dropped, c)
  | .clear => (.ok .done, c.clear)

/-- The event as it is recorded when a cache has served it. -/
def record (b : Bounds) (e : Event κ ν) (c : MemoCache Value κ ν) : Record κ ν :=
  ⟨e, (c.serve b e).1⟩

/-- A cache with everything that it has been asked. -/
structure Course (κ ν : Type) where
  history : List (Record κ ν)
  cache : MemoCache Value κ ν

def Course.step (b : Bounds) (s : Course κ ν) (e : Event κ ν) : Course κ ν :=
  ⟨s.history ++ [s.cache.record b e], (s.cache.serve b e).2⟩

/-- What comes of events, from an empty cache on. -/
def course (b : Bounds) (es : List (Event κ ν)) : Course κ ν :=
  es.foldl (Course.step b) ⟨[], empty⟩

theorem serve_expire_of_none {b : Bounds} {r : Reading} (never : b.ttl = .none)
    (c : MemoCache Value κ ν) : c.serve b ⟨r, .expire⟩ = (.ok (.dropped 0), c) := by
  simp only [serve, never]

theorem serve_expire {b : Bounds} {r : Reading} (ages : b.ttl ≠ .none) (c : MemoCache Value κ ν) :
    c.serve b ⟨r, .expire⟩ =
      ((c.sweep (r.judge b.ttl)).1.map .dropped, (c.sweep (r.judge b.ttl)).2) := by
  simp only [serve]

theorem course_snoc (b : Bounds) (es : List (Event κ ν)) (e : Event κ ν) :
    course b (es ++ [e]) = (course b es).step b e := by
  simp [course]

/-- What holds of a new cache, and is kept up by every request, always holds. -/
theorem course_keeps {b : Bounds} {P : List (Record κ ν) → MemoCache Value κ ν → Prop}
    (begins : P [] empty) (step : ∀ h c e, P h c → P (h ++ [c.record b e]) (c.serve b e).2)
    (es : List (Event κ ν)) : P (course b es).history (course b es).cache := by
  induction es using List.reverseRecOn with
  | nil => exact begins
  | append_singleton es e ih =>
    rw [course_snoc]
    exact step _ _ e ih

end MemoCache

/-! ### Who serves requests -/

namespace OpenCache

open MemoCache

/-- Asks a cache by itself. -/
def ask : MemoCache.Request Value Value → Use (Answer Value)
  | .store key value => do
    store key value
    return .done
  | .lookup key => return .found (← lookup key)
  | .contains key => return .isFresh (← contains key)
  | .expire => return .dropped (← expire)
  | .clear => do
    clear
    return .done

/-- What the answers depend on. -/
def bounds (c : OpenCache) : Bounds := ⟨c.ttl, c.limit⟩

def reading (c : OpenCache) : Reading := ⟨.real c.session.world.user.clock, c.session.cells⟩

/-- The key of a request can be looked for among the keys of the cache. -/
def Admits (c : OpenCache) : MemoCache.Request Value Value → Prop
  | .store key _ | .lookup key | .contains key =>
    key.checkKeyAmong (c.cache.entries.map (·.key)) = .ok ()
  | .expire | .clear => True

/-- What works on the content changes nothing else. -/
theorem run_onCache {α : Type}
    (f : OpenCache → Value → MemoCache Value Value Value →
      Except Fault α × MemoCache Value Value Value) (c : OpenCache) :
    (onCache f).run c =
      ((f c c.reading.now c.cache).1, { c with cache := (f c c.reading.now c.cache).2 }) := rfl

theorem run_checkKey {c : OpenCache} {key : Value}
    (isKey : key.checkKeyAmong (c.cache.entries.map (·.key)) = .ok ()) :
    (checkKey key).run c = (.ok (), c) := by
  have checked : (checkKey key).run c = (key.checkKeyAmong (c.cache.entries.map (·.key)), c) := rfl
  rw [checked, isKey]

theorem run_lookup {c : OpenCache} {key : Value}
    (isKey : key.checkKeyAmong (c.cache.entries.map (·.key)) = .ok ()) :
    (lookup key).run c =
      ((c.cache.lookup (c.reading.judge c.ttl) key).1,
        { c with cache := (c.cache.lookup (c.reading.judge c.ttl) key).2 }) := by
  rw [lookup, run_bind, run_checkKey isKey]
  rfl

theorem run_contains {c : OpenCache} {key : Value}
    (isKey : key.checkKeyAmong (c.cache.entries.map (·.key)) = .ok ()) :
    (contains key).run c =
      ((c.cache.contains (c.reading.judge c.ttl) key).1,
        { c with cache := (c.cache.contains (c.reading.judge c.ttl) key).2 }) := by
  rw [contains, run_bind, run_checkKey isKey]
  rfl

theorem run_store {c : OpenCache} {key value : Value}
    (isKey : key.checkKeyAmong (c.cache.entries.map (·.key)) = .ok ()) :
    (store key value).run c =
      ((c.cache.store c.limit (.ok c.reading.now) key value).1,
        { c with cache := (c.cache.store c.limit (.ok c.reading.now) key value).2 }) := by
  simp only [store, run_onCache, isKey]

theorem run_expire_of_none {c : OpenCache} (never : c.ttl = .none) :
    expire.run c = (.ok 0, c) := by
  obtain ⟨name, ttl, limit, projection, cache, session⟩ := c
  cases never
  rfl

theorem run_expire {c : OpenCache} (ages : c.ttl ≠ .none) :
    expire.run c =
      ((c.cache.sweep (c.reading.judge c.ttl)).1,
        { c with cache := (c.cache.sweep (c.reading.judge c.ttl)).2 }) := by
  simp only [expire, run_onCache]
  rfl

/-- A cache by itself serves a request whose key it admits. -/
theorem run_ask {c : OpenCache} {r : MemoCache.Request Value Value} (admitted : c.Admits r) :
    (ask r).run c =
      ((c.cache.serve c.bounds ⟨c.reading, r⟩).1,
        { c with cache := (c.cache.serve c.bounds ⟨c.reading, r⟩).2 }) := by
  cases r with
  | store key value =>
    rw [ask, run_bind, run_store admitted, serve, bounds]
    dsimp only
    cases (c.cache.store c.limit (.ok c.reading.now) key value).1 <;> rfl
  | lookup key =>
    rw [ask, run_bind, run_lookup admitted, serve, bounds]
    dsimp only
    cases (c.cache.lookup (c.reading.judge c.ttl) key).1 <;> rfl
  | contains key =>
    rw [ask, run_bind, run_contains admitted, serve, bounds]
    dsimp only
    cases (c.cache.contains (c.reading.judge c.ttl) key).1 <;> rfl
  | expire =>
    by_cases never : c.ttl = .none
    · rw [ask, run_bind, run_expire_of_none never, serve_expire_of_none (b := c.bounds) never]
      rfl
    · rw [ask, run_bind, run_expire never, serve_expire (b := c.bounds) never, bounds]
      dsimp only
      cases (c.cache.sweep (c.reading.judge c.ttl)).1 <;> rfl
  | clear => rfl

end OpenCache

namespace Morph

open MemoCache

variable {U : Type} {h : Host U} {head : Header} {slot : CacheSlot} {w : World U} {r : Reading}

/-- What the answers of a morph's cache depend on. -/
def bounds (slot : CacheSlot) : Bounds := ⟨slot.rule.ttl, slot.rule.limit⟩

/-- The cache of a morph has a reading of its clock. -/
structure Reads (h : Host U) (slot : CacheSlot) (w : World U) (r : Reading) : Prop where
  now : h.now slot.clock w = .ok r.now
  cells : h.cells = r.cells

/-- The world with another content of a morph's cache. -/
def withCache (w : World U) (head : Header) (cache : ResultCache) : World U :=
  { w with caches := fun i => if i = head.id then cache else w.caches i }

theorem cached_serves (has : head.cache = some slot) (reads : Reads h slot w r) (key : CacheKey) :
    ((cached h head (some key)).runFrom w).1.map .found =
        ((w.caches head.id).serve (bounds slot) ⟨r, .lookup key⟩).1 ∧
      ((cached h head (some key)).runFrom w).2 =
        withCache w head ((w.caches head.id).serve (bounds slot) ⟨r, .lookup key⟩).2 := by
  have judges : judge h slot (.ok r.now) = r.judge slot.rule.ttl := by
    funext insertedAt
    rw [judge, Reading.judge, reads.cells]
    rfl
  simp only [cached, has, Engine.runFrom_onCache, reads.now, judges]
  exact ⟨rfl, rfl⟩

theorem remember_serves (has : head.cache = some slot) (reads : Reads h slot w r) (key : CacheKey)
    (v : Value) :
    ((remember h head (some key) v).runFrom w).1.map (fun _ => Answer.done) =
        ((w.caches head.id).serve (bounds slot) ⟨r, .store key v⟩).1 ∧
      ((remember h head (some key) v).runFrom w).2 =
        withCache w head ((w.caches head.id).serve (bounds slot) ⟨r, .store key v⟩).2 := by
  simp only [remember, has, Engine.runFrom_onCache, reads.now]
  exact ⟨rfl, rfl⟩

theorem withCache_self (w : World U) (head : Header) :
    withCache w head (w.caches head.id) = w := by
  have same : (fun i => if i = head.id then w.caches head.id else w.caches i) = w.caches := by
    funext i
    by_cases own : i = head.id
    · rw [if_pos own, own]
    · rw [if_neg own]
  rw [withCache, same]

theorem expire_serves (reads : Reads h slot w r) :
    ((expire h head slot).runFrom w).1.map .dropped =
        ((w.caches head.id).serve (bounds slot) ⟨r, .expire⟩).1 ∧
      ((expire h head slot).runFrom w).2 =
        withCache w head ((w.caches head.id).serve (bounds slot) ⟨r, .expire⟩).2 := by
  by_cases never : slot.rule.ttl = .none
  · rw [serve_expire_of_none (b := bounds slot) never, withCache_self]
    simp only [expire, never]
    exact ⟨rfl, rfl⟩
  · have judges : CacheRule.isStale h.cells slot.rule.ttl r.now = r.judge slot.rule.ttl := by
      funext insertedAt
      rw [Reading.judge, reads.cells]
    rw [serve_expire (b := bounds slot) never]
    simp only [expire, Engine.runFrom_onCache, reads.now, judges]
    exact ⟨rfl, rfl⟩

end Morph

end MorphEngine
