import Mathlib.Data.List.Nodup
import Mathlib.Data.List.Pairwise
import MorphEngine.Proofs.Memo.Entries

/-!
# The order in which entries make room

The serial numbers in the order of their last use say in which order entries make room. Entries are
told apart by their numbers, and each has its place in that order. Reading an entry puts it last;
the order of the others stays as it is when entries come or go. When all entries are read they stand
in the order of their insertion.
-/

namespace MorphEngine

namespace MemoCache

variable {τ κ ν : Type}

/-- The entries in the order in which they make room. -/
def evictionOrder (c : MemoCache τ κ ν) : List (CacheEntry τ κ ν) :=
  c.recency.filterMap fun serial => c.entries.find? (·.serial = serial)

/-- The entries are numbered in the order of their insertion, and make room in the given order. -/
structure Arranged (c : MemoCache τ κ ν) (order : List (CacheEntry τ κ ν)) : Prop where
  ascending : c.entries.Pairwise fun e f => e.serial < f.serial
  fresh : ∀ e ∈ c.entries, e.serial < c.nextSerial
  serials : order.map (·.serial) = c.recency
  entries : order.Perm c.entries

namespace Arranged

variable {c d : MemoCache τ κ ν} {order : List (CacheEntry τ κ ν)} {e f : CacheEntry τ κ ν}

theorem empty : (MemoCache.empty : MemoCache τ κ ν).Arranged [] where
  ascending := .nil
  fresh _ he := absurd he List.not_mem_nil
  serials := rfl
  entries := .refl []

theorem nodup_serials (arranged : c.Arranged order) : (c.entries.map (·.serial)).Nodup :=
  List.pairwise_map.mpr (arranged.ascending.imp fun less => Nat.ne_of_lt less)

theorem numbered (arranged : c.Arranged order) : c.IsNumbered where
  distinct _ he _ hf same := List.inj_on_of_nodup_map arranged.nodup_serials he hf same
  fresh := arranged.fresh

theorem nodup_recency (arranged : c.Arranged order) : c.recency.Nodup := by
  rw [← arranged.serials]
  exact (arranged.entries.map _).nodup_iff.mpr arranged.nodup_serials

theorem nodup (arranged : c.Arranged order) : order.Nodup := by
  rw [arranged.entries.nodup_iff]
  exact arranged.nodup_serials.of_map

theorem length_eq (arranged : c.Arranged order) : order.length = c.size := arranged.entries.length_eq

/-- An entry of a cache is found by its number. -/
theorem find?_serial (arranged : c.Arranged order) (he : e ∈ c.entries) :
    c.entries.find? (·.serial = e.serial) = some e := by
  cases found : c.entries.find? (·.serial = e.serial) with
  | none => simpa using List.find?_eq_none.mp found e he
  | some f =>
    have same : f.serial = e.serial := by simpa using List.find?_some found
    rw [arranged.numbered.distinct f (List.mem_of_find?_eq_some found) e he same]

/-- The order is the one that the cache goes by. -/
theorem evictionOrder_eq (arranged : c.Arranged order) : c.evictionOrder = order := by
  have finds : ∀ e ∈ order, c.entries.find? (·.serial = e.serial) = some e :=
    fun e he => arranged.find?_serial (arranged.entries.mem_iff.mp he)
  rw [evictionOrder, ← arranged.serials, List.filterMap_map]
  calc
    order.filterMap ((fun serial => c.entries.find? (·.serial = serial)) ∘ (·.serial)) =
        order.filterMap some := List.filterMap_congr finds
    _ = order := List.filterMap_some

/-! ### Reading -/

theorem count (arranged : c.Arranged order) (f : CacheCounters → CacheCounters) :
    (c.count f).Arranged order :=
  ⟨arranged.ascending, arranged.fresh, arranged.serials, arranged.entries⟩

/-- An entry that is read goes last. -/
theorem touch (arranged : c.Arranged order) (he : e ∈ c.entries) :
    (c.touch e.serial).Arranged (order.filter (·.serial != e.serial) ++ [e]) where
  ascending := arranged.ascending
  fresh := arranged.fresh
  serials := by
    rw [MemoCache.touch, ← arranged.serials, List.map_append, List.filter_map]
    rfl
  entries := by
    have apart : (order.filter (·.serial != e.serial) ++ [e]).Nodup := by
      simp only [List.nodup_append, arranged.nodup.filter, List.nodup_singleton, true_and,
        List.mem_filter, bne_iff_ne, List.mem_singleton]
      rintro f ⟨_, differs⟩ _ rfl rfl
      exact differs rfl
    refine (List.perm_ext_iff_of_nodup apart arranged.nodup_serials.of_map).mpr fun f => ?_
    simp only [List.mem_append, List.mem_filter, bne_iff_ne, List.mem_singleton,
      arranged.entries.mem_iff]
    constructor
    · rintro (⟨hf, _⟩ | rfl)
      · exact hf
      · exact he
    · intro hf
      by_cases same : f.serial = e.serial
      · exact Or.inr (arranged.numbered.distinct f hf e he same)
      · exact Or.inl ⟨hf, same⟩

/-! ### Removing -/

/-- What is kept stays in order. -/
theorem keep (arranged : c.Arranged order) (p : Nat → Bool)
    (entries : d.entries = c.entries.filter fun e => p e.serial)
    (recency : d.recency = c.recency.filter p) (number : d.nextSerial = c.nextSerial) :
    d.Arranged (order.filter fun e => p e.serial) where
  ascending := by
    rw [entries]
    exact arranged.ascending.filter _
  fresh e he := by
    rw [entries] at he
    rw [number]
    exact arranged.fresh e (List.mem_filter.mp he).1
  serials := by
    rw [recency, ← arranged.serials, List.filter_map]
    rfl
  entries := by
    rw [entries]
    exact arranged.entries.filter _

theorem remove (arranged : c.Arranged order) (serial : Nat) :
    (c.remove serial).Arranged (order.filter (·.serial != serial)) :=
  arranged.keep (· != serial) rfl rfl rfl

theorem clear (c : MemoCache τ κ ν) : c.clear.Arranged [] where
  ascending := .nil
  fresh _ he := absurd he List.not_mem_nil
  serials := rfl
  entries := .refl []

end Arranged

/-- Removing several entries removes just these. -/
theorem foldl_remove (serials : List Nat) (c : MemoCache τ κ ν) :
    serials.foldl (fun c serial => c.remove serial) c =
      { c with
        entries := c.entries.filter fun e => !serials.contains e.serial
        recency := c.recency.filter fun serial => !serials.contains serial } := by
  induction serials generalizing c with
  | nil => simp
  | cons serial rest ih =>
    rw [List.foldl_cons, ih]
    simp only [remove, List.filter_filter, List.contains_cons, Bool.not_or, bne, Bool.and_comm]

/-- Without its first few members the rest of a list remains, when the members differ. -/
theorem filter_not_take {α : Type} {f : α → Nat} {xs : List α} (distinct : (xs.map f).Nodup)
    (n : Nat) : xs.filter (fun x => !((xs.take n).map f).contains (f x)) = xs.drop n := by
  have apart : ∀ x ∈ xs.drop n, f x ∉ (xs.take n).map f := by
    intro x hx taken
    rw [← List.take_append_drop n xs, List.map_append, List.nodup_append] at distinct
    exact distinct.2.2 _ taken _ (List.mem_map_of_mem hx) rfl
  calc
    xs.filter (fun x => !((xs.take n).map f).contains (f x)) =
        (xs.take n ++ xs.drop n).filter fun x => !((xs.take n).map f).contains (f x) := by
      rw [List.take_append_drop]
    _ = [] ++ xs.drop n := by
      rw [List.filter_append]
      congr 1
      · rw [List.filter_eq_nil_iff]
        intro x hx
        have taken : f x ∈ (xs.take n).map f := List.mem_map_of_mem hx
        simpa using taken
      · rw [List.filter_eq_self]
        intro x hx
        simpa using apart x hx
    _ = xs.drop n := List.nil_append _

namespace Arranged

variable {c : MemoCache τ κ ν} {order : List (CacheEntry τ κ ν)}

theorem makeRoom (arranged : c.Arranged order) (limit : Nat) :
    (c.makeRoom limit).Arranged (order.drop (c.size + 1 - limit)) := by
  have dropped : c.makeRoom limit = _ := foldl_remove (c.recency.take (c.size + 1 - limit)) c
  have kept : (c.makeRoom limit).Arranged (order.filter fun e =>
      !(c.recency.take (c.size + 1 - limit)).contains e.serial) := by
    rw [dropped]
    exact arranged.keep (fun serial => !(c.recency.take (c.size + 1 - limit)).contains serial)
      rfl rfl rfl
  have distinct : (order.map (·.serial)).Nodup := by
    rw [arranged.serials]
    exact arranged.nodup_recency
  rw [← filter_not_take distinct, List.map_take, arranged.serials]
  exact kept

/-! ### Storing -/

theorem append (arranged : c.Arranged order) (now : τ) (key : κ) (value : ν) :
    (c.append now key value).Arranged (order ++ [⟨c.nextSerial, key, now, value⟩]) where
  ascending := by
    simp only [MemoCache.append, List.pairwise_append, List.pairwise_singleton, List.mem_singleton,
      true_and]
    refine ⟨arranged.ascending, ?_⟩
    rintro e he _ rfl
    exact arranged.fresh e he
  fresh e he := by
    simp only [MemoCache.append, List.mem_append, List.mem_singleton] at he ⊢
    rcases he with he | rfl
    · exact Nat.lt_succ_of_lt (arranged.fresh e he)
    · exact Nat.lt_succ_self _
  serials := by simp [MemoCache.append, arranged.serials]
  entries := arranged.entries.append_right _

/-- The entry with a new value, as long as it is the one with the number. -/
def renewed (serial : Nat) (now : τ) (value : ν) (e : CacheEntry τ κ ν) : CacheEntry τ κ ν :=
  if e.serial = serial then { e with insertedAt := now, value := value } else e

theorem key_renewed (serial : Nat) (now : τ) (value : ν) (e : CacheEntry τ κ ν) :
    (renewed serial now value e).key = e.key := by
  rw [renewed]
  split <;> rfl

theorem serial_renewed (serial : Nat) (now : τ) (value : ν) (e : CacheEntry τ κ ν) :
    (renewed serial now value e).serial = e.serial := by
  rw [renewed]
  split <;> rfl

theorem entries_replace (serial : Nat) (now : τ) (value : ν) (c : MemoCache τ κ ν) :
    (c.replace serial now value).entries = c.entries.map (renewed serial now value) := rfl

theorem replace (arranged : c.Arranged order) (serial : Nat) (now : τ) (value : ν) :
    (c.replace serial now value).Arranged (order.map (renewed serial now value)) where
  ascending := by
    simpa only [entries_replace, List.pairwise_map, serial_renewed] using arranged.ascending
  fresh e he := by
    rw [entries_replace] at he
    obtain ⟨f, hf, rfl⟩ := List.mem_map.mp he
    rw [serial_renewed]
    exact arranged.fresh f hf
  serials := by
    have kept : (c.replace serial now value).recency = c.recency := rfl
    rw [kept, List.map_map, ← arranged.serials]
    exact List.map_congr_left fun e _ => serial_renewed serial now value e
  entries := arranged.entries.map _

/-- A new value puts the entry last. -/
theorem replace_touch (arranged : c.Arranged order) {e : CacheEntry τ κ ν} (he : e ∈ c.entries)
    (now : τ) (value : ν) :
    ((c.replace e.serial now value).touch e.serial).Arranged
      (order.filter (·.serial != e.serial) ++ [{ e with insertedAt := now, value := value }]) := by
  have own : renewed e.serial now value e = { e with insertedAt := now, value := value } := by
    rw [renewed, if_pos rfl]
  have others : (order.map (renewed e.serial now value)).filter (·.serial != e.serial) =
      order.filter (·.serial != e.serial) := by
    simp only [List.filter_map, Function.comp_def, serial_renewed]
    refine (List.map_congr_left fun f hf => ?_).trans (List.map_id _)
    have differs : f.serial ≠ e.serial := by simpa using (List.mem_filter.mp hf).2
    rw [renewed, if_neg differs, id]
  have there : renewed e.serial now value e ∈ (c.replace e.serial now value).entries := by
    rw [entries_replace]
    exact List.mem_map_of_mem he
  have touched := (arranged.replace e.serial now value).touch there
  rw [serial_renewed, others, own] at touched
  exact touched

/-! ### Reading everything -/

theorem foldl_touch (arranged : c.Arranged order) {es : List (CacheEntry τ κ ν)}
    (held : ∀ e ∈ es, e ∈ c.entries) (distinct : (es.map (·.serial)).Nodup) :
    (es.foldl (fun c e => c.touch e.serial) c).Arranged
      (order.filter (fun e => !(es.map (·.serial)).contains e.serial) ++ es) := by
  induction es generalizing c order with
  | nil => simpa using arranged
  | cons e rest ih =>
    rw [List.forall_mem_cons] at held
    rw [List.map_cons, List.nodup_cons] at distinct
    have rests := ih (arranged.touch held.1) held.2 distinct.2
    have last : [e].filter (fun f => !(rest.map (·.serial)).contains f.serial) = [e] := by
      simpa using distinct.1
    rw [List.filter_append, last, List.filter_filter, List.append_assoc] at rests
    simpa only [List.foldl_cons, List.map_cons, List.contains_cons, Bool.not_or, bne,
      Bool.and_comm, List.singleton_append] using rests

/-- When all entries are read, they stand in the order of their insertion. -/
theorem touchAll (arranged : c.Arranged order) : c.touchAll.Arranged c.entries := by
  have read := arranged.foldl_touch (fun e he => he) arranged.nodup_serials
  have none : order.filter (fun e => !(c.entries.map (·.serial)).contains e.serial) = [] := by
    rw [List.filter_eq_nil_iff]
    intro e he
    have there : e.serial ∈ c.entries.map (·.serial) :=
      List.mem_map_of_mem (arranged.entries.mem_iff.mp he)
    simpa using there
  rw [none] at read
  exact read

end Arranged

/-! ### Sweeping -/

theorem entries_touchAll (c : MemoCache τ κ ν) : c.touchAll.entries = c.entries := by
  have kept (es : List (CacheEntry τ κ ν)) (c : MemoCache τ κ ν) :
      (es.foldl (fun c e => c.touch e.serial) c).entries = c.entries := by
    induction es generalizing c with
    | nil => rfl
    | cons e es ih => exact ih (c.touch e.serial)
  exact kept c.entries c

theorem sweep_of_filterM {ε : Type} {isStale : τ → Except ε Bool} {c : MemoCache τ κ ν}
    {stale : List (CacheEntry τ κ ν)}
    (filtered : c.entries.filterM (fun e => isStale e.insertedAt) = .ok stale) :
    c.sweep isStale =
      (.ok stale.length,
        ((stale.map (·.serial)).foldl (fun c serial => c.remove serial) c.touchAll).count
          fun n => { n with expired := n.expired + stale.length }) := by
  simp only [sweep, entries_touchAll, filtered, List.foldl_map]

/-- A sweep that cannot judge an entry reads all entries, and drops none. -/
theorem sweep_of_failed {ε : Type} {isStale : τ → Except ε Bool} {c : MemoCache τ κ ν} {f : ε}
    (failed : c.entries.filterM (fun e => isStale e.insertedAt) = .error f) :
    c.sweep isStale = (.error f, c.touchAll) := by
  simp only [sweep, entries_touchAll, failed]

theorem filterAuxM_judged {ε α : Type} {f : α → Except ε Bool} {p : α → Bool} {xs : List α}
    (judged : ∀ x ∈ xs, f x = .ok (p x)) (kept : List α) :
    List.filterAuxM f xs kept = .ok ((xs.filter p).reverse ++ kept) := by
  induction xs generalizing kept with
  | nil => rfl
  | cons x xs ih =>
    rw [List.forall_mem_cons] at judged
    rw [List.filterAuxM, judged.1]
    refine (ih judged.2 (cond (p x) (x :: kept) kept)).trans ?_
    cases holds : p x <;> simp [holds]

/-- What is judged is filtered by the judgement. -/
theorem filterM_judged {ε α : Type} {f : α → Except ε Bool} {p : α → Bool} {xs : List α}
    (judged : ∀ x ∈ xs, f x = .ok (p x)) : xs.filterM f = .ok (xs.filter p) := by
  rw [List.filterM, filterAuxM_judged judged]
  simp [Functor.map, Except.map]

theorem filterAuxM_failed {ε α : Type} {f : α → Except ε Bool} {xs : List α} {x : α} {e : ε}
    (hx : x ∈ xs) (failed : f x = .error e) (kept : List α) :
    ∃ e', List.filterAuxM f xs kept = .error e' := by
  induction xs generalizing kept with
  | nil => cases hx
  | cons y xs ih =>
    rw [List.filterAuxM]
    cases first : f y with
    | error e' => exact ⟨e', rfl⟩
    | ok b =>
      have later : x ∈ xs := by
        rcases List.mem_cons.mp hx with rfl | later
        · rw [failed] at first
          cases first
        · exact later
      exact ih later _

theorem filterM_failed {ε α : Type} {f : α → Except ε Bool} {xs : List α} {x : α} {e : ε}
    (hx : x ∈ xs) (failed : f x = .error e) : ∃ e', xs.filterM f = .error e' := by
  obtain ⟨e', fails⟩ := filterAuxM_failed hx failed []
  exact ⟨e', by rw [List.filterM, fails]; rfl⟩

namespace Arranged

variable {c : MemoCache τ κ ν} {order : List (CacheEntry τ κ ν)} {ε : Type}
  {isStale : τ → Except ε Bool}

/-- A sweep that can judge every entry drops the stale ones. The others come to stand in the order of
their insertion. -/
theorem sweep (arranged : c.Arranged order) {p : CacheEntry τ κ ν → Bool}
    (judged : ∀ e ∈ c.entries, isStale e.insertedAt = .ok (p e)) :
    (c.sweep isStale).1 = .ok (c.entries.filter p).length ∧
      (c.sweep isStale).2.entries = c.entries.filter (fun e => !p e) ∧
      (c.sweep isStale).2.Arranged (c.entries.filter fun e => !p e) := by
  -- Entries are dropped by their numbers, which no two of them share.
  have left : c.entries.filter
      (fun e => !((c.entries.filter p).map (·.serial)).contains e.serial) =
        c.entries.filter fun e => !p e := by
    refine List.filter_congr fun e he => ?_
    have same : ((c.entries.filter p).map (·.serial)).contains e.serial = p e := by
      rw [Bool.eq_iff_iff, List.contains_iff_mem, List.mem_map]
      constructor
      · rintro ⟨f, hf, number⟩
        obtain ⟨hf, stale⟩ := List.mem_filter.mp hf
        rw [← arranged.numbered.distinct f hf e he number]
        exact stale
      · intro stale
        exact ⟨e, List.mem_filter.mpr ⟨he, stale⟩, rfl⟩
    rw [same]
  have swept := sweep_of_filterM (filterM_judged judged)
  rw [foldl_remove, entries_touchAll, left] at swept
  have kept := arranged.touchAll.keep
    (fun serial => !((c.entries.filter p).map (·.serial)).contains serial)
    (d := { c.touchAll with
      entries := c.entries.filter fun e => !p e
      recency := c.touchAll.recency.filter fun serial =>
        !((c.entries.filter p).map (·.serial)).contains serial })
    (by rw [entries_touchAll, left]) rfl rfl
  rw [left] at kept
  rw [swept]
  exact ⟨rfl, rfl, kept.count fun n =>
    { n with expired := n.expired + (c.entries.filter p).length }⟩

end Arranged

/-! ### Keys -/

section Keyed

variable [BEq κ] {c d : MemoCache τ κ ν} {order : List (CacheEntry τ κ ν)}
  {e : CacheEntry τ κ ν} {key : κ}

theorem key_of_find? (found : c.find? key = some e) : e ∈ c.entries ∧ (e.key == key) = true :=
  ⟨List.mem_of_find?_eq_some found,
    List.find?_some (p := fun e : CacheEntry τ κ ν => e.key == key) found⟩

theorem keys_of_find? (absent : c.find? key = none) : ∀ e ∈ c.entries, (e.key == key) = false :=
  fun e he => Bool.eq_false_iff.mpr (List.find?_eq_none.mp absent e he)

/-- Entries make room in the given order, and no two of them are under the same key. -/
structure Tidy (c : MemoCache τ κ ν) (order : List (CacheEntry τ κ ν)) : Prop where
  arranged : c.Arranged order
  keys : c.entries.Pairwise fun e f => (e.key == f.key) = false

namespace Tidy

theorem empty : (MemoCache.empty : MemoCache τ κ ν).Tidy [] := ⟨.empty, .nil⟩

theorem eq_of_key [EquivBEq κ] (tidy : c.Tidy order) {e f : CacheEntry τ κ ν} (he : e ∈ c.entries)
    (hf : f ∈ c.entries) (same : (e.key == f.key) = true) : e = f := by
  by_contra differ
  have symm : Std.Symm fun e f : CacheEntry τ κ ν => (e.key == f.key) = false :=
    ⟨fun e f differs => by rw [BEq.comm]; exact differs⟩
  have differs := tidy.keys.forall he hf differ
  simp [same] at differs

theorem find?_eq [EquivBEq κ] (tidy : c.Tidy order) (he : e ∈ c.entries)
    (same : (e.key == key) = true) :
    c.find? key = some e := by
  cases found : c.find? key with
  | none => simp [keys_of_find? found e he] at same
  | some f =>
    obtain ⟨hf, under⟩ := key_of_find? found
    rw [tidy.eq_of_key hf he (BEq.trans under (BEq.symm same))]

/-- Entries that go leave the keys of the others different. -/
theorem sublist (tidy : c.Tidy order) {order' : List (CacheEntry τ κ ν)}
    (arranged : d.Arranged order') (goes : d.entries.Sublist c.entries) : d.Tidy order' :=
  ⟨arranged, tidy.keys.sublist goes⟩

theorem put_found (tidy : c.Tidy order) (found : c.find? key = some e) (limit : Nat) (now : τ)
    (value : ν) :
    (c.put limit now key value).Tidy
      (order.filter (·.serial != e.serial) ++ [{ e with insertedAt := now, value := value }]) := by
  simp only [put, found]
  refine ⟨tidy.arranged.replace_touch (key_of_find? found).1 now value, ?_⟩
  have replaced : ((c.replace e.serial now value).touch e.serial).entries =
      c.entries.map (Arranged.renewed e.serial now value) := rfl
  simpa only [replaced, List.pairwise_map, Arranged.key_renewed] using tidy.keys

theorem put_new (tidy : c.Tidy order) (absent : c.find? key = none) (limit : Nat) (now : τ)
    (value : ν) :
    (c.put limit now key value).Tidy
      (order.drop (c.size + 1 - limit) ++ [⟨c.nextSerial, key, now, value⟩]) := by
  have within := makeRoom_within limit c
  have room := (tidy.arranged.makeRoom limit).append now key value
  rw [within.number] at room
  simp only [put, absent]
  refine ⟨room, ?_⟩
  have goes : (c.makeRoom limit).entries.Sublist c.entries := by
    have made : c.makeRoom limit = _ := foldl_remove (c.recency.take (c.size + 1 - limit)) c
    rw [made]
    exact List.filter_sublist
  have appended : ((c.makeRoom limit).append now key value).entries =
      (c.makeRoom limit).entries ++ [⟨(c.makeRoom limit).nextSerial, key, now, value⟩] := rfl
  rw [appended, List.pairwise_append]
  refine ⟨tidy.keys.sublist goes, List.pairwise_singleton _ _, ?_⟩
  rintro e he f hf
  rw [List.mem_singleton] at hf
  rw [hf]
  exact keys_of_find? absent e (within.entries e he)

end Tidy

end Keyed

end MemoCache

end MorphEngine
