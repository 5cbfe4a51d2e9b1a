import MorphEngine.Proofs.Cache.Effects

/-!
# Sweeps and membership tests read entries

Dropping what is stale leaves every other entry as it is, and so does asking whether a key is there.
But both read entries, and an entry that is read goes last in the order in which entries make room. A
sweep reads all entries, so afterwards they make room in the order of their insertion, whatever was
used in between. What makes room is always the entry that was read longest ago.
-/

namespace MorphEngine

namespace MemoCache

variable {κ ν : Type} [BEq κ]

/-- The keys of the entries that a request reads or writes. -/
def readBy (b : Bounds) (e : Event κ ν) (c : MemoCache Value κ ν) : List κ :=
  match e.request with
  | .store key _ => if b.limit = 0 then [] else [key]
  | .lookup key | .contains key => if (c.find? key).isSome then [key] else []
  | .expire =>
    match b.ttl with
    | .none => []
    | _ => c.entries.map (·.key)
  | .clear => []

/-- The keys that have been read or written, in their order. -/
def reads (b : Bounds) (es : List (Event κ ν)) : List κ :=
  (es.foldl (fun s e => (s.1 ++ s.2.readBy b e, (s.2.serve b e).2)) ([], empty)).1

/-- Among some keys, the last place of the first key comes before a place of the second one. -/
def LastBefore (keys : List κ) (key key' : κ) : Prop :=
  ∃ l k m, keys = l ++ k :: m ∧ (k == key') = true ∧ ∀ k' ∈ m, (k' == key) = false

variable {b : Bounds} {r : Reading} {c : MemoCache Value κ ν} {order : List (CacheEntry Value κ ν)}
  {keys : List κ} {key key' : κ}

theorem reads_snoc (es : List (Event κ ν)) (e : Event κ ν) :
    reads b (es ++ [e]) = reads b es ++ (course b es).cache.readBy b e := by
  -- The cache that is carried along is that of the course.
  have same : (es.foldl (fun s e => (s.1 ++ s.2.readBy b e, (s.2.serve b e).2))
      (([] : List κ), (empty : MemoCache Value κ ν))).2 = (course b es).cache := by
    induction es using List.reverseRecOn with
    | nil => rfl
    | append_singleton es e ih =>
      rw [course_snoc]
      simp [Course.step, ih]
  simp [reads, same]

theorem LastBefore.snoc (before : LastBefore keys key key') {k : κ} (other : (k == key) = false) :
    LastBefore (keys ++ [k]) key key' := by
  obtain ⟨l, k', m, rfl, same, later⟩ := before
  refine ⟨l, k', m ++ [k], by simp, same, ?_⟩
  intro x hx
  rcases List.mem_append.mp hx with hx | hx
  · exact later x hx
  · rw [List.mem_singleton.mp hx]
    exact other

theorem LastBefore.last (key : κ) (same : (key == key') = true) (k : κ) :
    LastBefore (keys ++ [key]) k key' := ⟨keys, key, [], rfl, same, by simp⟩

/-- Entries that are all read have been read in that order. -/
theorem lastBefore_map [EquivBEq κ] {es : List (CacheEntry Value κ ν)}
    (differ : es.Pairwise fun e f => (e.key == f.key) = false) (keys : List κ) :
    es.Pairwise fun e f => LastBefore (keys ++ es.map (·.key)) e.key f.key := by
  induction es generalizing keys with
  | nil => exact .nil
  | cons e es ih =>
    rw [List.pairwise_cons] at differ ⊢
    refine ⟨fun f hf => ?_, ?_⟩
    · obtain ⟨s, t, rfl⟩ := List.append_of_mem hf
      refine ⟨keys ++ e.key :: s.map (·.key), f.key, t.map (·.key), by simp, BEq.rfl, ?_⟩
      intro k hk
      obtain ⟨g, hg, rfl⟩ := List.mem_map.mp hk
      rw [BEq.comm]
      exact differ.1 g (by simp [hg])
    · have rest := ih differ.2 (keys ++ [e.key])
      rw [List.append_assoc] at rest
      exact rest

/-- Entries that make room in the order in which they were last read. -/
def ByReading (keys : List κ) (order : List (CacheEntry Value κ ν)) : Prop :=
  order.Pairwise fun e f => LastBefore keys e.key f.key

namespace ByReading

variable {rest : List (CacheEntry Value κ ν)} {e : CacheEntry Value κ ν}

/-- Reading something else leaves the order of entries. -/
theorem skip (byReading : ByReading keys order) (left : rest.Sublist order)
    (others : ∀ f ∈ rest, (key == f.key) = false) : ByReading (keys ++ [key]) rest :=
  (byReading.sublist left).imp_of_mem fun he _ before => before.snoc (others _ he)

/-- What is read goes last. -/
theorem read (byReading : ByReading keys order) (left : rest.Sublist order)
    (others : ∀ f ∈ rest, (key == f.key) = false) (under : (key == e.key) = true) :
    ByReading (keys ++ [key]) (rest ++ [e]) := by
  refine List.pairwise_append.mpr
    ⟨byReading.skip left others, List.pairwise_singleton _ _, fun f _ g hg => ?_⟩
  rw [List.mem_singleton.mp hg]
  exact .last key under f.key

end ByReading

variable [EquivBEq κ]

/-- What any request does keeps the entries in the order of reading. -/
theorem Effect.byReading {order' : List (CacheEntry Value κ ν)} {request : Request κ ν}
    {answer : Except Fault (Answer ν)} (tidy : c.Tidy order)
    (effect : Effect b r c order request answer order') (byReading : ByReading keys order) :
    ByReading (keys ++ c.readBy b ⟨r, request⟩) order' := by
  have others {key : κ} {e : CacheEntry Value κ ν} (found : c.find? key = some e) :
      ∀ f ∈ without order e, (key == f.key) = false := fun f hf => (tidy.other_key found hf).2
  have under {key : κ} {e : CacheEntry Value κ ν} (found : c.find? key = some e) :
      (key == e.key) = true := BEq.symm (key_of_find? found).2
  cases effect with
  | refuse full => simpa [readBy, full] using byReading
  | @renew key value e room found =>
    have same : (key == e.key) = true := under found
    simp only [readBy, Nat.ne_of_gt room, if_false]
    exact byReading.read List.filter_sublist (others found) same
  | add room absent =>
    simp only [readBy, Nat.ne_of_gt room, if_false]
    exact byReading.read (List.drop_sublist _ _)
      (fun f hf => tidy.absent_key absent (List.mem_of_mem_drop hf)) BEq.rfl
  | miss absent | absent absent => simpa [readBy, absent] using byReading
  | hit found _ | doubt found _ | present found =>
    simp only [readBy, found, Option.isSome_some, if_true]
    exact byReading.read List.filter_sublist (others found) (under found)
  | outlive found stale =>
    simp only [readBy, found, Option.isSome_some, if_true]
    exact byReading.skip List.filter_sublist (others found)
  | endure never => simpa [readBy, never] using byReading
  | sweep ages judged =>
    simp only [readBy]
    exact (lastBefore_map tidy.keys keys).filter _
  | stumble ages he fails =>
    simp only [readBy]
    exact lastBefore_map tidy.keys keys
  | clear => exact .nil

/-- Entries make room in the order in which they were last read. -/
theorem course_byReading (b : Bounds) (es : List (Event κ ν)) :
    ByReading (reads b es) (course b es).cache.evictionOrder := by
  induction es using List.reverseRecOn with
  | nil => exact .nil
  | append_singleton es e ih =>
    have tidy := course_tidy (b := b) es
    obtain ⟨order', effect, next⟩ := tidy.serve (b := b) e
    rw [reads_snoc, course_snoc, Course.step, next.arranged.evictionOrder_eq]
    exact effect.byReading tidy ih

omit [EquivBEq κ] in
theorem Effect.length_le {order' : List (CacheEntry Value κ ν)} {request : Request κ ν}
    {answer : Except Fault (Answer ν)} (tidy : c.Tidy order)
    (effect : Effect b r c order request answer order') (fits : order.length ≤ b.limit) :
    order'.length ≤ b.limit := by
  have size := tidy.arranged.length_eq
  have fewer {key : κ} {e e' : CacheEntry Value κ ν} (found : c.find? key = some e) :
      (without order e ++ [e']).length ≤ b.limit := by
    have held : e ∈ order := tidy.arranged.entries.mem_iff.mpr (key_of_find? found).1
    have less : (without order e).length < order.length :=
      List.length_filter_lt_length_iff_exists.mpr ⟨e, held, by simp⟩
    simp only [List.length_append, List.length_singleton]
    omega
  have entries : order.length = c.entries.length := tidy.arranged.entries.length_eq
  cases effect with
  | refuse _ | miss _ | absent _ | endure _ => exact fits
  | renew _ found | hit found _ | doubt found _ | present found => exact fewer found
  | add room absent =>
    simp only [List.length_append, List.length_drop, List.length_singleton]
    omega
  | outlive found stale => exact Nat.le_trans (List.length_filter_le _ _) fits
  | sweep ages judged =>
    refine Nat.le_trans (List.length_filter_le _ _) ?_
    omega
  | stumble ages he fails => omega
  | clear => exact Nat.zero_le _

omit [EquivBEq κ] in
/-- A cache never holds more entries than its limit. -/
theorem course_size (b : Bounds) (es : List (Event κ ν)) : (course b es).cache.size ≤ b.limit := by
  obtain ⟨tidy, fits⟩ := course_effects (b := b) (P := fun _ order => order.length ≤ b.limit)
    (Nat.zero_le _) (fun _ _ _ _ _ tidy fits effect => effect.length_le tidy fits) es
  rw [← tidy.arranged.length_eq]
  exact fits

/-- What sweeps and membership tests do to a cache whose entries have been read by some keys. -/
structure Upkeep (b : Bounds) (r : Reading) (keys : List κ) (c : MemoCache Value κ ν) : Prop where
  /-- Without a time to live a sweep does nothing. -/
  ageless : b.ttl = .none → c.serve b ⟨r, .expire⟩ = (.ok (.dropped 0), c)
  /-- A sweep drops the stale entries and says how many there were. The others stay as they are, but
  come to make room in the order of their insertion. -/
  swept : b.ttl ≠ .none → ∀ p : CacheEntry Value κ ν → Bool,
    (∀ e ∈ c.entries, r.judge b.ttl e.insertedAt = .ok (p e)) →
      (c.serve b ⟨r, .expire⟩).1 = .ok (.dropped (c.entries.filter p).length) ∧
        (c.serve b ⟨r, .expire⟩).2.entries = c.entries.filter (fun e => !p e) ∧
        (c.serve b ⟨r, .expire⟩).2.evictionOrder = c.entries.filter fun e => !p e
  /-- A sweep that cannot judge an entry drops none, but has read them all. -/
  stumbled : b.ttl ≠ .none →
    (∃ e ∈ c.entries, ∃ f, r.judge b.ttl e.insertedAt = .error f) →
      (∃ f, (c.serve b ⟨r, .expire⟩).1 = .error f) ∧
        (c.serve b ⟨r, .expire⟩).2.entries = c.entries ∧
        (c.serve b ⟨r, .expire⟩).2.evictionOrder = c.entries
  /-- A membership test changes neither entries nor counters, but the entry that it finds goes last. -/
  asked : ∀ key,
    (c.serve b ⟨r, .contains key⟩).2.entries = c.entries ∧
      (c.serve b ⟨r, .contains key⟩).2.counters = c.counters ∧
      (c.serve b ⟨r, .contains key⟩).2.evictionOrder =
        match c.find? key with
        | some e => without c.evictionOrder e ++ [e]
        | none => c.evictionOrder
  /-- Entries make room in the order in which they were last read. -/
  ordered : ByReading keys c.evictionOrder
  /-- A full cache drops the first of them for an entry under a new key. -/
  dropped : 0 < b.limit → c.size = b.limit → ∀ key value, c.find? key = none →
    (c.serve b ⟨r, .store key value⟩).2.evictionOrder =
      c.evictionOrder.tail ++ [⟨c.nextSerial, key, r.now, value⟩]
  fits : c.size ≤ b.limit

/-- Whatever a cache has been asked, sweeps and membership tests count as readings of entries. -/
theorem course_upkeep (b : Bounds) (es : List (Event κ ν)) (r : Reading) :
    Upkeep b r (reads b es) (course b es).cache where
  ageless never := serve_expire_of_none never _
  swept ages p judged := by
    obtain ⟨answered, entries, swept⟩ := (course_tidy (b := b) es).expire_of_judged ages judged
    exact ⟨answered, entries, swept.arranged.evictionOrder_eq⟩
  stumbled ages := by
    rintro ⟨e, he, f, fails⟩
    obtain ⟨failed, entries, kept⟩ := (course_tidy (b := b) es).expire_of_failed ages he fails
    exact ⟨failed, entries, kept.arranged.evictionOrder_eq⟩
  asked key := by
    have tidy := course_tidy (b := b) es
    cases found : (course b es).cache.find? key with
    | none =>
      simp only [serve, MemoCache.contains, found]
      exact ⟨trivial, trivial, trivial⟩
    | some e =>
      simp only [serve, MemoCache.contains, found]
      have touched := tidy.touch (key_of_find? found).1
      exact ⟨rfl, rfl, touched.arranged.evictionOrder_eq⟩
  ordered := course_byReading b es
  dropped room full key value absent := by
    obtain ⟨order', effect, next⟩ := (course_tidy (b := b) es).store (b := b) (r := r) key value
    have one : (course b es).cache.size + 1 - b.limit = 1 := by omega
    rw [next.arranged.evictionOrder_eq]
    generalize ((course b es).cache.serve b ⟨r, .store key value⟩).1 = answer at effect
    cases effect with
    | refuse none => omega
    | renew _ found =>
      rw [absent] at found
      cases found
    | add _ _ => rw [one, List.drop_one]
  fits := course_size b es

/-- Three keys for a cache of two entries, of which the first one is read last before a sweep. -/
def sweptEvents : List (Event Nat Unit) :=
  [⟨⟨.int 0, []⟩, .store 1 ()⟩, ⟨⟨.int 0, []⟩, .store 2 ()⟩, ⟨⟨.int 0, []⟩, .lookup 1⟩,
    ⟨⟨.int 0, []⟩, .expire⟩]

/-- After the sweep the entry that was looked up last is the first to make room. -/
theorem sweptEvents_upkeep :
    Upkeep ⟨.int 60, 2⟩ ⟨.int 0, []⟩ (reads ⟨.int 60, 2⟩ sweptEvents)
        (course ⟨.int 60, 2⟩ sweptEvents).cache ∧
      (course ⟨.int 60, 2⟩ sweptEvents).cache.evictionOrder.map (·.key) = [1, 2] ∧
      (course ⟨.int 60, 2⟩ (sweptEvents.take 3)).cache.evictionOrder.map (·.key) = [2, 1] :=
  ⟨course_upkeep ⟨.int 60, 2⟩ sweptEvents ⟨.int 0, []⟩, by decide, by decide⟩

end MemoCache

end MorphEngine
