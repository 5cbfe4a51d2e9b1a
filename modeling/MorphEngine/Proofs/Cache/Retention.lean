import MorphEngine.Proofs.Cache.Distinct
import MorphEngine.Proofs.Cache.Effects

/-!
# What a bounded cache retains

A cache whose entries do not age holds the keys that were used last, as many different ones as it has
room for. Its entries make room in the order in which their keys were last used. So a key is found
exactly when it has been stored and fewer other keys have been used since its own last use than the
cache has room for.
-/

namespace MorphEngine

namespace MemoCache

variable {κ ν : Type}

/-- The keys used, with the use that a record makes of one: a store uses its key, and so does a
request that finds its key. -/
def Record.use (keys : List κ) (i : Record κ ν) : List κ :=
  match i.request, i.answer with
  | .store key _, .ok .done => keys ++ [key]
  | .lookup key, .ok (.found (some _)) => keys ++ [key]
  | .contains key, .ok (.isFresh true) => keys ++ [key]
  | .clear, _ => []
  | _, _ => keys

/-- The keys used since the cache was last emptied, in the order of use. -/
def used (h : List (Record κ ν)) : List κ := h.foldl Record.use []

/-- The keys stored, with the one that a record stores. -/
def Record.enter (keys : List κ) (i : Record κ ν) : List κ :=
  match i.request, i.answer with
  | .store key _, .ok .done => keys ++ [key]
  | .clear, _ => []
  | _, _ => keys

/-- The keys stored since the cache was last emptied. -/
def stored (h : List (Record κ ν)) : List κ := h.foldl Record.enter []

@[simp] theorem used_snoc (h : List (Record κ ν)) (i : Record κ ν) :
    used (h ++ [i]) = i.use (used h) := by
  simp [used]

@[simp] theorem stored_snoc (h : List (Record κ ν)) (i : Record κ ν) :
    stored (h ++ [i]) = i.enter (stored h) := by
  simp [stored]

variable [BEq κ]

/-- The different ones of some keys, the last one first. -/
def recent (keys : List κ) : List κ := keys.reverse.eraseDups

/-- The different ones of some keys after the last place of a key. -/
def usedSince (key : κ) (keys : List κ) : List κ := (Distinct.before key keys.reverse).eraseDups

variable [EquivBEq κ] {b : Bounds} {c : MemoCache Value κ ν} {order : List (CacheEntry Value κ ν)}
  {h : List (Record κ ν)} {key : κ} {keys : List κ}

open Distinct

theorem recent_snoc (key : κ) (keys : List κ) :
    recent (keys ++ [key]) = key :: (recent keys).filter (!· == key) := by
  rw [recent, List.reverse_append, List.reverse_singleton, List.singleton_append, eraseDups_front]
  rfl

omit [EquivBEq κ] in
theorem recent_pairwise (keys : List κ) :
    (recent keys).Pairwise fun k k' => (k' == k) = false := eraseDups_pairwise keys.reverse

/-- The entries, in the order in which they make room, are under the keys used last. -/
def Retains (limit : Nat) (keys : List κ) (order : List (CacheEntry Value κ ν)) : Prop :=
  Alike (order.reverse.map (·.key)) ((recent keys).take limit)

namespace Retains

variable {limit : Nat} {e e' : CacheEntry Value κ ν}

omit [EquivBEq κ] in
theorem length_order (retains : Retains limit keys order) :
    order.length = min limit (recent keys).length := by
  have same := List.Forall₂.length_eq retains
  simpa using same

/-- A key is found when it is among those used last. -/
theorem found_iff (retains : Retains limit keys order) (tidy : c.Tidy order) (key : κ) :
    (∃ e, c.find? key = some e) ↔ ∃ k ∈ (recent keys).take limit, (k == key) = true := by
  rw [← retains.exists_iff key]
  constructor
  · rintro ⟨e, found⟩
    obtain ⟨he, under⟩ := key_of_find? found
    refine ⟨e.key, List.mem_map_of_mem ?_, under⟩
    exact List.mem_reverse.mpr (tidy.arranged.entries.mem_iff.mpr he)
  · rintro ⟨k, hk, under⟩
    obtain ⟨e, he, rfl⟩ := List.mem_map.mp hk
    have held := tidy.arranged.entries.mem_iff.mp (List.mem_reverse.mp he)
    exact ⟨e, tidy.find?_eq held under⟩

theorem clear : Retains limit ([] : List κ) ([] : List (CacheEntry Value κ ν)) := by
  simp [Retains, recent, Alike]

/-- An entry whose key is used goes last. -/
theorem use (retains : Retains limit keys order) (tidy : c.Tidy order)
    (found : c.find? key = some e) (under : (e'.key == key) = true) :
    Retains limit (keys ++ [key]) (without order e ++ [e']) := by
  -- The key is among those used last, and once it is taken away there is room for it in front.
  obtain ⟨k, hk, same⟩ := (retains.found_iff tidy key).mp ⟨e, found⟩
  have room : 0 < limit := by
    cases limit with
    | zero => simp at hk
    | succ n => exact Nat.succ_pos n
  have left : Alike ((without order e).reverse.map (·.key))
      (((recent keys).filter (!· == key)).take (limit - 1)) := by
    rw [← filter_take (recent_pairwise keys) ⟨k, hk, same⟩, List.map_reverse,
      tidy.keys_without found, ← List.filter_reverse, ← List.map_reverse]
    exact Alike.filter (respects_other key) retains
  rw [Retains, recent_snoc, List.take_cons room, List.reverse_append,
    List.reverse_singleton, List.singleton_append, List.map_cons]
  exact .cons under left

/-- A new entry takes the place of the one whose key was used longest ago. -/
theorem add (retains : Retains limit keys order) (tidy : c.Tidy order)
    (absent : c.find? key = none) (room : 0 < limit) (under : (e'.key == key) = true) :
    Retains limit (keys ++ [key]) (order.drop (c.size + 1 - limit) ++ [e']) := by
  have size : c.size = order.length := tidy.arranged.length_eq.symm
  have fits : order.length ≤ limit := by
    have := retains.length_order
    omega
  have left : (order.drop (c.size + 1 - limit)).reverse = order.reverse.take (limit - 1) := by
    rw [List.take_reverse, size]
    congr 2
    omega
  -- A key that is not there is not among those used last either, so none of them is left out.
  have others : ((recent keys).filter (!· == key)).take (limit - 1) =
      ((recent keys).take limit).take (limit - 1) := by
    rw [List.take_take, Nat.min_eq_left (Nat.sub_le limit 1)]
    refine take_filter fun k hk => ?_
    rw [Bool.not_eq_true', Bool.eq_false_iff]
    intro same
    have there : k ∈ (recent keys).take limit :=
      (List.take_sublist_take_left (Nat.sub_le limit 1)).subset hk
    obtain ⟨e, found⟩ := (retains.found_iff tidy key).mpr ⟨k, there, same⟩
    rw [absent] at found
    cases found
  rw [Retains, recent_snoc, List.take_cons room, List.reverse_append,
    List.reverse_singleton, List.singleton_append, List.map_cons, left, others, List.map_take]
  exact .cons under (List.forall₂_take _ retains)

end Retains

/-! ### Runs -/

/-- A cache holds the keys used last, and keys are used only once they have been stored. -/
structure Remembers (limit : Nat) (h : List (Record κ ν)) (order : List (CacheEntry Value κ ν)) :
    Prop where
  retains : Retains limit (used h) order
  stored : ∀ key, (∃ k ∈ used h, (k == key) = true) ↔ ∃ k ∈ stored h, (k == key) = true

omit [EquivBEq κ] in
theorem exists_snoc_iff {key' : κ} :
    (∃ k ∈ keys ++ [key], (k == key') = true) ↔
      (∃ k ∈ keys, (k == key') = true) ∨ (key == key') = true := by
  simp only [List.mem_append, List.mem_singleton, or_and_right, exists_or, exists_eq_left]

variable {limit : Nat}

/-- A key that is found has been used before. -/
theorem Remembers.used_of_found (remembers : Remembers limit h order) (tidy : c.Tidy order)
    {e : CacheEntry Value κ ν} (found : c.find? key = some e) :
    ∃ k ∈ used h, (k == key) = true := by
  obtain ⟨k, hk, same⟩ := (remembers.retains.found_iff tidy key).mp ⟨e, found⟩
  have used := mem_of_mem_eraseDups (List.mem_of_mem_take hk)
  exact ⟨k, List.mem_reverse.mp used, same⟩

/-- Reading an entry uses its key. -/
theorem Remembers.read (remembers : Remembers limit h order) (tidy : c.Tidy order)
    {e : CacheEntry Value κ ν} (found : c.find? key = some e) {i : Record κ ν}
    (uses : i.use (MemoCache.used h) = MemoCache.used h ++ [key])
    (enters : i.enter (MemoCache.stored h) = MemoCache.stored h) :
    Remembers limit (h ++ [i]) (without order e ++ [e]) where
  retains := by
    rw [used_snoc, uses]
    exact remembers.retains.use tidy found (key_of_find? found).2
  stored key' := by
    obtain ⟨k, hk, same⟩ := remembers.used_of_found tidy found
    rw [used_snoc, stored_snoc, uses, enters, ← remembers.stored, exists_snoc_iff]
    constructor
    · rintro (there | same')
      · exact there
      · exact ⟨k, hk, BEq.trans same same'⟩
    · exact Or.inl

omit [EquivBEq κ] in
/-- Storing under a key uses it. -/
theorem Remembers.store {order' : List (CacheEntry Value κ ν)} (remembers : Remembers limit h order)
    (retains : Retains limit (used h ++ [key]) order') {i : Record κ ν}
    (uses : i.use (MemoCache.used h) = MemoCache.used h ++ [key])
    (enters : i.enter (MemoCache.stored h) = MemoCache.stored h ++ [key]) :
    Remembers limit (h ++ [i]) order' where
  retains := by
    rw [used_snoc, uses]
    exact retains
  stored key' := by
    rw [used_snoc, stored_snoc, uses, enters, exists_snoc_iff, exists_snoc_iff, remembers.stored]

omit [EquivBEq κ] in
/-- A request that uses no key changes nothing. -/
theorem Remembers.idle (remembers : Remembers limit h order) {i : Record κ ν}
    (uses : i.use (MemoCache.used h) = MemoCache.used h)
    (enters : i.enter (MemoCache.stored h) = MemoCache.stored h) :
    Remembers limit (h ++ [i]) order where
  retains := by
    rw [used_snoc, uses]
    exact remembers.retains
  stored key' := by rw [used_snoc, stored_snoc, uses, enters, remembers.stored]

/-- What any request does keeps up what a cache remembers, when entries do not age. -/
theorem Effect.remembers {order' : List (CacheEntry Value κ ν)} {r : Reading}
    {request : Request κ ν} {answer : Except Fault (Answer ν)} (ageless : b.ttl = .none)
    (room : 1 ≤ b.limit) (tidy : c.Tidy order) (remembers : Remembers b.limit h order)
    (effect : Effect b r c order request answer order') :
    Remembers b.limit (h ++ [⟨⟨r, request⟩, answer⟩]) order' := by
  have young (e : CacheEntry Value κ ν) : r.judge b.ttl e.insertedAt = .ok false :=
    r.judge_of_none ageless e.insertedAt
  cases effect with
  | refuse full => omega
  | @renew key value e _ found =>
    have under : (({ e with insertedAt := r.now, value := value } : CacheEntry Value κ ν).key ==
        key) = true := (key_of_find? found).2
    exact remembers.store (remembers.retains.use tidy found under) rfl rfl
  | @add key value _ absent =>
    have under : ((⟨c.nextSerial, key, r.now, value⟩ : CacheEntry Value κ ν).key == key) = true :=
      BEq.rfl
    exact remembers.store (remembers.retains.add tidy absent room under) rfl rfl
  | miss absent => exact remembers.idle rfl rfl
  | hit found fresh => exact remembers.read tidy found rfl rfl
  | outlive found stale => simp [young] at stale
  | doubt found fails => simp [young] at fails
  | absent absent => exact remembers.idle rfl rfl
  | present found =>
    rw [young]
    exact remembers.read tidy found rfl rfl
  | endure never => exact remembers.idle rfl rfl
  | sweep ages judged => exact absurd ageless ages
  | stumble ages he fails => exact absurd ageless ages
  | clear =>
    refine ⟨?_, fun key => ?_⟩
    · rw [used_snoc]
      exact .clear
    · rw [used_snoc, stored_snoc]
      rfl

omit [EquivBEq κ] in
/-- A store drops no entry while there is room for one more. -/
theorem Tidy.store_keeps (tidy : c.Tidy order) (fits : c.size < b.limit)
    {e : CacheEntry Value κ ν} (he : e ∈ c.entries) (r : Reading) (key : κ) (value : ν) :
    ∃ f ∈ (c.serve b ⟨r, .store key value⟩).2.entries, f.serial = e.serial ∧ f.key = e.key := by
  obtain ⟨order', effect, next⟩ := tidy.serve (b := b) ⟨r, .store key value⟩
  have kept : ∃ f ∈ order', f.serial = e.serial ∧ f.key = e.key := by
    have held : e ∈ order := tidy.arranged.entries.mem_iff.mpr he
    generalize (c.serve b ⟨r, .store key value⟩).1 = answer at effect
    cases effect with
    | refuse full => omega
    | @renew _ _ old room found =>
      by_cases same : e.serial = old.serial
      · have one : e = old :=
          tidy.arranged.numbered.distinct e he old (key_of_find? found).1 same
        exact ⟨_, List.mem_append_right _ List.mem_cons_self, same.symm, by rw [one]⟩
      · have left : e ∈ without order old := List.mem_filter.mpr ⟨held, bne_iff_ne.mpr same⟩
        exact ⟨e, List.mem_append_left _ left, rfl, rfl⟩
    | add room absent =>
      have all : c.size + 1 - b.limit = 0 := by omega
      rw [all, List.drop_zero]
      exact ⟨e, List.mem_append_left _ held, rfl, rfl⟩
  obtain ⟨f, hf, same⟩ := kept
  exact ⟨f, next.arranged.entries.mem_iff.mp hf, same⟩

theorem course_remembers (ageless : b.ttl = .none) (room : 1 ≤ b.limit) (es : List (Event κ ν)) :
    Remembers b.limit (course b es).history (course b es).cache.evictionOrder :=
  (course_effects (P := Remembers b.limit) ⟨.clear, fun _ => Iff.rfl⟩
    (fun _ _ _ _ _ tidy remembers effect => effect.remembers ageless room tidy remembers) es).2

/-- A lookup hits when the key has been stored, and fewer different other keys have been used since
its own last use than the cache has room for. The cache holds as many entries as different keys have
been used, up to its limit, and below that a store drops none. -/
theorem retention (ageless : b.ttl = .none) (room : 1 ≤ b.limit) (es : List (Event κ ν))
    (r : Reading) (key : κ) :
    ((∃ value, ((course b es).cache.serve b ⟨r, .lookup key⟩).1 = .ok (.found (some value))) ↔
      (∃ k ∈ stored (course b es).history, (k == key) = true) ∧
        (usedSince key (used (course b es).history)).length < b.limit) ∧
      (course b es).cache.size = min b.limit (recent (used (course b es).history)).length ∧
      ∀ value, (recent (used (course b es).history)).length < b.limit →
        ∀ e ∈ (course b es).cache.entries,
          ∃ f ∈ ((course b es).cache.serve b ⟨r, .store key value⟩).2.entries,
            f.serial = e.serial ∧ f.key = e.key := by
  have tidy := course_tidy (b := b) es
  have remembers := course_remembers ageless room es
  have young (e : CacheEntry Value κ ν) : r.judge b.ttl e.insertedAt = .ok false :=
    r.judge_of_none ageless e.insertedAt
  refine ⟨?_, ?_, ?_⟩
  · have hits : (∃ value, ((course b es).cache.serve b ⟨r, .lookup key⟩).1 =
        .ok (.found (some value))) ↔ ∃ e, (course b es).cache.find? key = some e := by
      constructor
      · rintro ⟨value, hit⟩
        obtain ⟨e, found, _⟩ := found_iff.mp hit
        exact ⟨e, found⟩
      · rintro ⟨e, found⟩
        exact ⟨e.value, found_iff.mpr ⟨e, found, young e, rfl⟩⟩
    rw [hits, remembers.retains.found_iff tidy key, ← remembers.stored]
    have reached := exists_mem_take_eraseDups key b.limit (used (course b es).history).reverse
    simp only [List.mem_reverse] at reached
    exact reached
  · rw [← tidy.arranged.length_eq]
    exact remembers.retains.length_order
  · intro value few e he
    have size := remembers.retains.length_order
    rw [tidy.arranged.length_eq] at size
    exact tidy.store_keeps (by omega) he r key value

/-- Three keys for a cache of two entries, of which the first one is used again in between. -/
def threeKeys : List (Event Nat Unit) :=
  [⟨⟨.int 0, []⟩, .store 1 ()⟩, ⟨⟨.int 0, []⟩, .store 2 ()⟩, ⟨⟨.int 0, []⟩, .lookup 1⟩,
    ⟨⟨.int 0, []⟩, .store 3 ()⟩]

theorem threeKeys_retention :
    (∃ value, ((course ⟨.none, 2⟩ threeKeys).cache.serve ⟨.none, 2⟩
        ⟨⟨.int 0, []⟩, .lookup 1⟩).1 = .ok (.found (some value))) ∧
      ¬ (∃ value, ((course ⟨.none, 2⟩ threeKeys).cache.serve ⟨.none, 2⟩
        ⟨⟨.int 0, []⟩, .lookup 2⟩).1 = .ok (.found (some value))) ∧
      (course ⟨.none, 2⟩ threeKeys).cache.size = 2 := by
  have law (key : Nat) :=
    retention (b := ⟨.none, 2⟩) rfl (by decide) threeKeys ⟨.int 0, []⟩ key
  refine ⟨(law 1).1.mpr ⟨⟨1, by decide, rfl⟩, by decide⟩, fun hit => ?_, (law 1).2.1⟩
  have few := ((law 2).1.mp hit).2
  exact absurd few (by decide)

end MemoCache

end MorphEngine
