import MorphEngine.Proofs.Cache.Order
import MorphEngine.Proofs.Cache.Requests

/-!
# What a request does to a cache

There are few things that a request can do: to each belongs an answer, and an order in which the
entries make room from then on. The order says which entries there are, so whatever is to hold of a
cache throughout follows by going through these cases.
-/

namespace MorphEngine

namespace MemoCache

variable {κ ν : Type} [BEq κ]

/-- The order without an entry. -/
def without (order : List (CacheEntry Value κ ν)) (e : CacheEntry Value κ ν) :
    List (CacheEntry Value κ ν) := order.filter (·.serial != e.serial)

/-- A request at a reading can get an answer, and leave the entries in an order, from a cache whose
entries make room in some order. -/
inductive Effect (b : Bounds) (r : Reading) (c : MemoCache Value κ ν)
    (order : List (CacheEntry Value κ ν)) :
    Request κ ν → Except Fault (Answer ν) → List (CacheEntry Value κ ν) → Prop
  | refuse {key value f} (full : b.limit = 0) :
    Effect b r c order (.store key value) (.error f) order
  | renew {key value e} (room : 0 < b.limit) (found : c.find? key = some e) :
    Effect b r c order (.store key value) (.ok .done)
      (without order e ++ [{ e with insertedAt := r.now, value := value }])
  | add {key value} (room : 0 < b.limit) (absent : c.find? key = none) :
    Effect b r c order (.store key value) (.ok .done)
      (order.drop (c.size + 1 - b.limit) ++ [⟨c.nextSerial, key, r.now, value⟩])
  | miss {key} (absent : c.find? key = none) :
    Effect b r c order (.lookup key) (.ok (.found none)) order
  | hit {key e} (found : c.find? key = some e) (fresh : r.judge b.ttl e.insertedAt = .ok false) :
    Effect b r c order (.lookup key) (.ok (.found (some e.value))) (without order e ++ [e])
  | outlive {key e} (found : c.find? key = some e) (stale : r.judge b.ttl e.insertedAt = .ok true) :
    Effect b r c order (.lookup key) (.ok (.found none)) (without order e)
  | doubt {key e f} (found : c.find? key = some e) (fails : r.judge b.ttl e.insertedAt = .error f) :
    Effect b r c order (.lookup key) (.error f) (without order e ++ [e])
  | absent {key} (absent : c.find? key = none) :
    Effect b r c order (.contains key) (.ok (.isFresh false)) order
  | present {key e} (found : c.find? key = some e) :
    Effect b r c order (.contains key)
      ((r.judge b.ttl e.insertedAt).map fun stale => .isFresh !stale) (without order e ++ [e])
  | endure (never : b.ttl = .none) : Effect b r c order .expire (.ok (.dropped 0)) order
  | sweep {p : CacheEntry Value κ ν → Bool} (ages : b.ttl ≠ .none)
    (judged : ∀ e ∈ c.entries, r.judge b.ttl e.insertedAt = .ok (p e)) :
    Effect b r c order .expire (.ok (.dropped (c.entries.filter p).length))
      (c.entries.filter fun e => !p e)
  | stumble {e f f'} (ages : b.ttl ≠ .none) (he : e ∈ c.entries)
    (fails : r.judge b.ttl e.insertedAt = .error f) :
    Effect b r c order .expire (.error f') c.entries
  | clear : Effect b r c order .clear (.ok .done) []

variable {b : Bounds} {r : Reading} {c : MemoCache Value κ ν} {order : List (CacheEntry Value κ ν)}

/-- Entries can all be judged, unless there is one that cannot. -/
theorem judged_or_failed {τ κ ν ε : Type} (judge : τ → Except ε Bool)
    (es : List (CacheEntry τ κ ν)) :
    (∃ p : CacheEntry τ κ ν → Bool, ∀ e ∈ es, judge e.insertedAt = .ok (p e)) ∨
      ∃ e ∈ es, ∃ f, judge e.insertedAt = .error f := by
  by_cases failed : ∃ e ∈ es, ∃ f, judge e.insertedAt = .error f
  · exact Or.inr failed
  · refine Or.inl ⟨fun e => ((judge e.insertedAt).toOption).getD false, fun e he => ?_⟩
    cases judged : judge e.insertedAt with
    | error f => exact absurd ⟨e, he, f, judged⟩ failed
    | ok stale =>
      dsimp only
      rw [judged]
      rfl

/-! ### Answers -/

theorem found_iff {key : κ} {value : ν} :
    (c.serve b ⟨r, .lookup key⟩).1 = .ok (.found (some value)) ↔
      ∃ e, c.find? key = some e ∧ r.judge b.ttl e.insertedAt = .ok false ∧ e.value = value := by
  cases found : c.find? key with
  | none => simp [MemoCache.serve, MemoCache.lookup, found, Except.map]
  | some e =>
    cases judged : r.judge b.ttl e.insertedAt with
    | error f => simp [MemoCache.serve, MemoCache.lookup, found, judged, Except.map]
    | ok stale =>
      cases stale <;> simp [MemoCache.serve, MemoCache.lookup, found, judged, Except.map]

theorem isFresh_iff {key : κ} :
    (c.serve b ⟨r, .contains key⟩).1 = .ok (.isFresh true) ↔
      ∃ e, c.find? key = some e ∧ r.judge b.ttl e.insertedAt = .ok false := by
  cases found : c.find? key with
  | none => simp [MemoCache.serve, MemoCache.contains, found, Except.map]
  | some e =>
    cases judged : r.judge b.ttl e.insertedAt with
    | error f => simp [MemoCache.serve, MemoCache.contains, found, judged, Except.map]
    | ok stale =>
      cases stale <;> simp [MemoCache.serve, MemoCache.contains, found, judged, Except.map]

/-! ### Keys of the entries -/

section Keys

variable [EquivBEq κ] {e f : CacheEntry Value κ ν} {key : κ}

/-- The other entries are under other keys. -/
theorem Tidy.other_key (tidy : c.Tidy order) (found : c.find? key = some e)
    (hf : f ∈ without order e) : f ∈ order ∧ (key == f.key) = false := by
  obtain ⟨he, under⟩ := key_of_find? found
  obtain ⟨hf, differs⟩ := List.mem_filter.mp hf
  refine ⟨hf, Bool.eq_false_iff.mpr fun same => ?_⟩
  have one : e = f :=
    tidy.eq_of_key he (tidy.arranged.entries.mem_iff.mp hf) (BEq.trans under same)
  simp [one] at differs

/-- When something else comes last in place of an entry, the others are under other keys. -/
theorem Tidy.mem_without_append (tidy : c.Tidy order) (found : c.find? key = some e)
    {e' : CacheEntry Value κ ν} (hf : f ∈ without order e ++ [e']) :
    (f ∈ order ∧ (key == f.key) = false) ∨ f = e' := by
  rcases List.mem_append.mp hf with hf | hf
  · exact Or.inl (tidy.other_key found hf)
  · exact Or.inr (List.mem_singleton.mp hf)

theorem Tidy.absent_key (tidy : c.Tidy order) (absent : c.find? key = none) (hf : f ∈ order) :
    (key == f.key) = false := by
  rw [BEq.comm]
  exact keys_of_find? absent f (tidy.arranged.entries.mem_iff.mp hf)

theorem Tidy.keys_without (tidy : c.Tidy order) (found : c.find? key = some e) :
    (without order e).map (·.key) = (order.map (·.key)).filter (!· == key) := by
  rw [List.filter_map, without]
  congr 1
  refine List.filter_congr fun f hf => ?_
  obtain ⟨he, under⟩ := key_of_find? found
  by_cases same : f.serial = e.serial
  · have one : f = e :=
      tidy.arranged.numbered.distinct f (tidy.arranged.entries.mem_iff.mp hf) e he same
    simp [one, under]
  · have other : f ∈ without order e := List.mem_filter.mpr ⟨hf, bne_iff_ne.mpr same⟩
    have differs := (tidy.other_key found other).2
    rw [BEq.comm] at differs
    simp [same, differs]

end Keys

/-! ### The order afterwards -/

theorem Tidy.touch (tidy : c.Tidy order) {e : CacheEntry Value κ ν} (he : e ∈ c.entries) :
    (c.touch e.serial).Tidy (without order e ++ [e]) :=
  ⟨tidy.arranged.touch he, tidy.keys⟩

theorem Tidy.store (tidy : c.Tidy order) (key : κ) (value : ν) :
    ∃ order', Effect b r c order (.store key value) (c.serve b ⟨r, .store key value⟩).1 order' ∧
      (c.serve b ⟨r, .store key value⟩).2.Tidy order' := by
  have counted : (c.count fun n => { n with stores := n.stores + 1 }).Tidy order :=
    ⟨tidy.arranged.count _, tidy.keys⟩
  by_cases full : b.limit = 0
  · simp only [MemoCache.serve, MemoCache.store, full, if_true]
    exact ⟨order, .refuse full, counted⟩
  · have room : 0 < b.limit := Nat.pos_of_ne_zero full
    simp only [MemoCache.serve, MemoCache.store, full, if_false]
    cases found : c.find? key with
    | none => exact ⟨_, .add room found, counted.put_new found b.limit r.now value⟩
    | some e => exact ⟨_, .renew room found, counted.put_found found b.limit r.now value⟩

theorem Tidy.lookup (tidy : c.Tidy order) (key : κ) :
    ∃ order', Effect b r c order (.lookup key) (c.serve b ⟨r, .lookup key⟩).1 order' ∧
      (c.serve b ⟨r, .lookup key⟩).2.Tidy order' := by
  cases found : c.find? key with
  | none =>
    simp only [MemoCache.serve, MemoCache.lookup, found]
    exact ⟨order, .miss found, tidy.arranged.count _, tidy.keys⟩
  | some e =>
    have he := (key_of_find? found).1
    have touched := tidy.touch he
    cases judged : r.judge b.ttl e.insertedAt with
    | error f =>
      simp only [MemoCache.serve, MemoCache.lookup, found, judged]
      exact ⟨_, .doubt found judged, touched⟩
    | ok stale =>
      cases stale with
      | false =>
        simp only [MemoCache.serve, MemoCache.lookup, found, judged]
        exact ⟨_, .hit found judged, touched.arranged.count _, touched.keys⟩
      | true =>
        have removed := touched.arranged.remove e.serial
        have left : (without order e ++ [e]).filter (·.serial != e.serial) = without order e := by
          simp [without, List.filter_append, List.filter_filter]
        rw [left] at removed
        simp only [MemoCache.serve, MemoCache.lookup, found, judged]
        exact ⟨_, .outlive found judged, removed.count _, tidy.keys.sublist List.filter_sublist⟩

theorem Tidy.contains (tidy : c.Tidy order) (key : κ) :
    ∃ order', Effect b r c order (.contains key) (c.serve b ⟨r, .contains key⟩).1 order' ∧
      (c.serve b ⟨r, .contains key⟩).2.Tidy order' := by
  cases found : c.find? key with
  | none =>
    simp only [MemoCache.serve, MemoCache.contains, found]
    exact ⟨order, .absent found, tidy⟩
  | some e =>
    have answered : (c.serve b ⟨r, .contains key⟩).1 =
        (r.judge b.ttl e.insertedAt).map fun stale => .isFresh !stale := by
      simp only [MemoCache.serve, MemoCache.contains, found]
      cases r.judge b.ttl e.insertedAt <;> rfl
    rw [answered]
    simp only [MemoCache.serve, MemoCache.contains, found]
    exact ⟨_, .present found, tidy.touch (key_of_find? found).1⟩

/-- A sweep that can judge every entry drops the stale ones. The others come to stand in the order of
their insertion. -/
theorem Tidy.expire_of_judged (tidy : c.Tidy order) (ages : b.ttl ≠ .none)
    {p : CacheEntry Value κ ν → Bool}
    (judged : ∀ e ∈ c.entries, r.judge b.ttl e.insertedAt = .ok (p e)) :
    (c.serve b ⟨r, .expire⟩).1 = .ok (.dropped (c.entries.filter p).length) ∧
      (c.serve b ⟨r, .expire⟩).2.entries = c.entries.filter (fun e => !p e) ∧
      (c.serve b ⟨r, .expire⟩).2.Tidy (c.entries.filter fun e => !p e) := by
  obtain ⟨answered, entries, arranged⟩ := tidy.arranged.sweep judged
  rw [serve_expire ages]
  refine ⟨by rw [answered]; rfl, entries, tidy.sublist arranged ?_⟩
  rw [entries]
  exact List.filter_sublist

/-- A sweep that cannot judge an entry drops none, but has read them all. -/
theorem Tidy.expire_of_failed (tidy : c.Tidy order) (ages : b.ttl ≠ .none)
    {e : CacheEntry Value κ ν} {f : Fault} (he : e ∈ c.entries)
    (fails : r.judge b.ttl e.insertedAt = .error f) :
    (∃ f', (c.serve b ⟨r, .expire⟩).1 = .error f') ∧
      (c.serve b ⟨r, .expire⟩).2.entries = c.entries ∧
      (c.serve b ⟨r, .expire⟩).2.Tidy c.entries := by
  obtain ⟨f', failed⟩ :=
    filterM_failed (f := fun e : CacheEntry Value κ ν => r.judge b.ttl e.insertedAt) he fails
  rw [serve_expire ages, sweep_of_failed failed]
  refine ⟨⟨f', rfl⟩, entries_touchAll _, tidy.sublist tidy.arranged.touchAll ?_⟩
  rw [entries_touchAll]

theorem Tidy.expire (tidy : c.Tidy order) :
    ∃ order', Effect b r c order .expire (c.serve b ⟨r, .expire⟩).1 order' ∧
      (c.serve b ⟨r, .expire⟩).2.Tidy order' := by
  by_cases never : b.ttl = .none
  · rw [serve_expire_of_none never]
    exact ⟨order, .endure never, tidy⟩
  · rcases judged_or_failed (r.judge b.ttl) c.entries with ⟨p, judged⟩ | ⟨e, he, f, fails⟩
    · obtain ⟨answered, _, swept⟩ := tidy.expire_of_judged never judged
      rw [answered]
      exact ⟨_, .sweep never judged, swept⟩
    · obtain ⟨⟨f', failed⟩, _, kept⟩ := tidy.expire_of_failed never he fails
      rw [failed]
      exact ⟨_, .stumble never he fails, kept⟩

/-- A request does one of these things, and leaves the cache tidy. -/
theorem Tidy.serve (tidy : c.Tidy order) (e : Event κ ν) :
    ∃ order', Effect b e.reading c order e.request (c.serve b e).1 order' ∧
      (c.serve b e).2.Tidy order' := by
  obtain ⟨r, request⟩ := e
  cases request with
  | store key value => exact tidy.store key value
  | lookup key => exact tidy.lookup key
  | contains key => exact tidy.contains key
  | expire => exact tidy.expire
  | clear => exact ⟨[], .clear, .clear c, .nil⟩

/-- What holds of a new cache and is kept up by all that a request can do, always holds. -/
theorem course_effects {P : List (Record κ ν) → List (CacheEntry Value κ ν) → Prop}
    (begins : P [] [])
    (step : ∀ h c order e order', c.Tidy order → P h order →
      Effect b e.reading c order e.request (c.serve b e).1 order' →
        P (h ++ [c.record b e]) order')
    (es : List (Event κ ν)) :
    (course b es).cache.Tidy (course b es).cache.evictionOrder ∧
      P (course b es).history (course b es).cache.evictionOrder := by
  obtain ⟨order, tidy, holds⟩ := course_keeps (b := b)
    (P := fun h c => ∃ order, c.Tidy order ∧ P h order) ⟨[], .empty, begins⟩
    (fun h c e ⟨order, tidy, holds⟩ => by
      obtain ⟨order', effect, next⟩ := tidy.serve e
      exact ⟨order', next, step h c order e order' tidy holds effect⟩) es
  rw [tidy.arranged.evictionOrder_eq]
  exact ⟨tidy, holds⟩

theorem course_tidy (es : List (Event κ ν)) :
    (course b es).cache.Tidy (course b es).cache.evictionOrder :=
  (course_effects (P := fun _ _ => True) trivial (fun _ _ _ _ _ _ _ _ => trivial) es).1

end MemoCache

end MorphEngine
