import MorphEngine.Proofs.Cache.Effects

/-!
# What the counters of a cache account for

Every operation of a cache has its entry in an account of calls: a lookup stands for a call that is
answered, or for one that runs its function, as a skipped call does; a store stands for a run that has
ended with a value. The counters agree with the account, whatever the times that entries are judged
by. No entry leaves a cache twice, so those that have expired and those that are there together are
no more than have been stored.
-/

namespace MorphEngine

namespace MemoCache

/-- An account of calls. -/
@[ext]
structure Tally where
  /-- Calls for which it was found out under which key their result is kept, if any. -/
  keyed : Nat
  /-- Runs of the function. -/
  invoked : Nat
  /-- Runs after a miss that ended with a value. -/
  returned : Nat
  /-- Calls that found an entry of which it could not be said whether it was stale. -/
  undecided : Nat

namespace Tally

instance : Zero Tally := ⟨⟨0, 0, 0, 0⟩⟩

instance : Add Tally :=
  ⟨fun s t => ⟨s.keyed + t.keyed, s.invoked + t.invoked, s.returned + t.returned,
    s.undecided + t.undecided⟩⟩

variable (s t : Tally)

@[simp] theorem keyed_zero : (0 : Tally).keyed = 0 := rfl

@[simp] theorem invoked_zero : (0 : Tally).invoked = 0 := rfl

@[simp] theorem returned_zero : (0 : Tally).returned = 0 := rfl

@[simp] theorem undecided_zero : (0 : Tally).undecided = 0 := rfl

@[simp] theorem keyed_add : (s + t).keyed = s.keyed + t.keyed := rfl

@[simp] theorem invoked_add : (s + t).invoked = s.invoked + t.invoked := rfl

@[simp] theorem returned_add : (s + t).returned = s.returned + t.returned := rfl

@[simp] theorem undecided_add : (s + t).undecided = s.undecided + t.undecided := rfl

theorem add_assoc (r s t : Tally) : r + s + t = r + (s + t) := by
  ext <;> exact Nat.add_assoc _ _ _

/-- A call that runs the function. -/
def invocation : Tally := ⟨1, 1, 0, 0⟩

/-- A run after a miss that ends with a value. -/
def value : Tally := ⟨0, 0, 1, 0⟩

/-- A call that looks for a result. -/
def ofLookup {ε ν : Type} : Except ε (Option ν) → Tally
  | .ok (some _) => ⟨1, 0, 0, 0⟩
  | .ok none => invocation
  | .error _ => ⟨1, 0, 0, 1⟩

end Tally

variable {τ κ ν ε : Type}

/-- From one cache to the other the counters have grown by what an account says. -/
structure Accounts (c d : MemoCache τ κ ν) (t : Tally) : Prop where
  keyed : d.counters.hits + d.counters.misses + d.counters.skips + t.undecided =
    c.counters.hits + c.counters.misses + c.counters.skips + t.keyed
  invoked : d.counters.misses + d.counters.skips = c.counters.misses + c.counters.skips + t.invoked
  returned : d.counters.stores = c.counters.stores + t.returned

/-- The entries are in order, they are no more than the limit, and they and the expired ones are no
more than have been stored. -/
structure Orderly (limit : Nat) (c : MemoCache τ κ ν) : Prop where
  arranged : ∃ order, c.Arranged order
  fits : c.size ≤ limit
  stocked : c.counters.expired + c.size ≤ c.counters.stores

variable {b c d : MemoCache τ κ ν} {s t : Tally} {limit : Nat}

theorem Accounts.trans (first : Accounts b c s) (second : Accounts c d t) :
    Accounts b d (s + t) := by
  obtain ⟨keyed, invoked, returned⟩ := first
  obtain ⟨keyed', invoked', returned'⟩ := second
  constructor
  · simp only [Tally.keyed_add, Tally.undecided_add]
    omega
  · simp only [Tally.invoked_add]
    omega
  · simp only [Tally.returned_add]
    omega

/-- What leaves the counters of calls and stores as they are has no entry in the account. -/
theorem Accounts.of_counters (expired : Nat)
    (same : d.counters = { c.counters with expired := expired }) : Accounts c d 0 := by
  constructor <;> simp [same]

theorem orderly_empty (limit : Nat) : Orderly limit (empty : MemoCache τ κ ν) :=
  ⟨⟨[], .empty⟩, Nat.zero_le _, Nat.le_refl 0⟩

theorem counters_foldl_remove (serials : List Nat) (c : MemoCache τ κ ν) :
    (serials.foldl (fun c serial => c.remove serial) c).counters = c.counters := by
  rw [foldl_remove]

theorem counters_touchAll (c : MemoCache τ κ ν) : c.touchAll.counters = c.counters := by
  have kept (es : List (CacheEntry τ κ ν)) (c : MemoCache τ κ ν) :
      (es.foldl (fun c e => c.touch e.serial) c).counters = c.counters := by
    induction es generalizing c with
    | nil => rfl
    | cons e es ih => exact ih (c.touch e.serial)
  exact kept c.entries c

/-! ### Skipping and clearing -/

theorem skip_accounts (c : MemoCache τ κ ν) : Accounts c c.skip .invocation := by
  constructor <;> simp [skip, count, Tally.invocation] <;> omega

theorem Orderly.skip (orderly : c.Orderly limit) : c.skip.Orderly limit := by
  obtain ⟨⟨order, arranged⟩, fits, stocked⟩ := orderly
  exact ⟨⟨order, arranged.count _⟩, fits, stocked⟩

theorem Orderly.clear (orderly : c.Orderly limit) : c.clear.Orderly limit where
  arranged := ⟨[], .clear c⟩
  fits := Nat.zero_le _
  stocked := Nat.le_trans (Nat.le_add_right _ c.size) orderly.stocked

/-! ### Sweeping -/

theorem sweep_accounts (isStale : τ → Except ε Bool) (c : MemoCache τ κ ν) :
    Accounts c (c.sweep isStale).2 0 := by
  cases filtered : c.entries.filterM fun e => isStale e.insertedAt with
  | error f =>
    rw [sweep_of_failed filtered]
    exact .of_counters c.counters.expired (counters_touchAll c)
  | ok stale =>
    rw [sweep_of_filterM filtered]
    refine .of_counters (c.counters.expired + stale.length) ?_
    simp only [count, counters_foldl_remove, counters_touchAll]

theorem Orderly.sweep (orderly : c.Orderly limit) (isStale : τ → Except ε Bool) :
    (c.sweep isStale).2.Orderly limit := by
  obtain ⟨⟨order, arranged⟩, fits, stocked⟩ := orderly
  rcases judged_or_failed isStale c.entries with ⟨p, judged⟩ | ⟨e, he, f, fails⟩
  · obtain ⟨_, entries, swept⟩ := arranged.sweep judged
    have expired : (c.sweep isStale).2.counters.expired =
        c.counters.expired + (c.entries.filter p).length := by
      rw [sweep_of_filterM (filterM_judged judged)]
      simp only [count, counters_foldl_remove, counters_touchAll]
    have stores : (c.sweep isStale).2.counters.stores = c.counters.stores := by
      simpa using (sweep_accounts isStale c).returned
    have parts : c.size = (c.entries.filter p).length + (c.sweep isStale).2.size := by
      rw [size, size, entries]
      exact List.length_eq_length_filter_add p
    refine ⟨⟨_, swept⟩, ?_, ?_⟩
    · omega
    · omega
  · obtain ⟨f', failed⟩ :=
      filterM_failed (f := fun e : CacheEntry τ κ ν => isStale e.insertedAt) he fails
    rw [sweep_of_failed failed]
    refine ⟨⟨_, arranged.touchAll⟩, ?_, ?_⟩
    · rwa [size, entries_touchAll]
    · rwa [size, entries_touchAll, counters_touchAll]

section Keyed

variable [BEq κ]

/-! ### Reading -/

theorem lookup_accounts (isStale : τ → Except ε Bool) (key : κ) (c : MemoCache τ κ ν) :
    Accounts c (c.lookup isStale key).2 (.ofLookup (c.lookup isStale key).1) := by
  unfold lookup
  cases c.find? key with
  | none => constructor <;> simp [count, Tally.ofLookup, Tally.invocation] <;> omega
  | some e =>
    dsimp only
    cases isStale e.insertedAt with
    | error f => constructor <;> simp [touch, Tally.ofLookup]
    | ok stale =>
      cases stale <;>
        constructor <;> simp [touch, remove, count, Tally.ofLookup, Tally.invocation] <;> omega

theorem Orderly.lookup (orderly : c.Orderly limit) (isStale : τ → Except ε Bool) (key : κ) :
    (c.lookup isStale key).2.Orderly limit := by
  obtain ⟨⟨order, arranged⟩, fits, stocked⟩ := orderly
  unfold MemoCache.lookup
  cases found : c.find? key with
  | none =>
    dsimp only
    exact ⟨⟨order, arranged.count _⟩, fits, stocked⟩
  | some e =>
    have he := (key_of_find? found).1
    have touched := arranged.touch he
    dsimp only
    cases isStale e.insertedAt with
    | error f => exact ⟨⟨_, touched⟩, fits, stocked⟩
    | ok stale =>
      cases stale with
      | false =>
        dsimp only
        exact ⟨⟨_, touched.count _⟩, fits, stocked⟩
      | true =>
        dsimp only
        have fewer : ((c.touch e.serial).remove e.serial).size < c.size :=
          List.length_filter_lt_length_iff_exists.mpr ⟨e, he, by simp⟩
        refine ⟨⟨_, (touched.remove e.serial).count _⟩, ?_, ?_⟩
        · exact Nat.le_trans (Nat.le_of_lt fewer) fits
        · have expired : c.counters.expired + 1 +
              ((c.touch e.serial).remove e.serial).size ≤ c.counters.stores := by
            omega
          exact expired

/-- A membership test changes no counter. -/
theorem counters_contains (isStale : τ → Except ε Bool) (key : κ) (c : MemoCache τ κ ν) :
    (c.contains isStale key).2.counters = c.counters := by
  unfold contains
  cases c.find? key <;> rfl

/-! ### Storing -/

theorem counters_put (limit : Nat) (now : τ) (key : κ) (value : ν) (c : MemoCache τ κ ν) :
    (c.put limit now key value).counters = c.counters := by
  unfold put
  cases c.find? key with
  | none => exact counters_foldl_remove _ c
  | some e => rfl

theorem store_accounts (limit : Nat) (now : Except Fault τ) (key : κ) (value : ν)
    (c : MemoCache τ κ ν) : Accounts c (c.store limit now key value).2 .value := by
  have counters : (c.store limit now key value).2.counters =
      { c.counters with stores := c.counters.stores + 1 } := by
    unfold store
    cases now with
    | error f => rfl
    | ok now =>
      dsimp only
      split
      · rfl
      · exact counters_put limit now key value _
  constructor <;> simp [counters, Tally.value]

theorem Orderly.put (arranged : ∃ order, c.Arranged order) (fits : c.size ≤ limit)
    (room : 0 < limit) (stocked : c.counters.expired + c.size + 1 ≤ c.counters.stores) (now : τ)
    (key : κ) (value : ν) : (c.put limit now key value).Orderly limit := by
  obtain ⟨order, arranged⟩ := arranged
  unfold MemoCache.put
  cases found : c.find? key with
  | some e =>
    have he := (key_of_find? found).1
    have size : ((c.replace e.serial now value).touch e.serial).size = c.size :=
      List.length_map _
    refine ⟨⟨_, arranged.replace_touch he now value⟩, ?_, ?_⟩
    · rwa [size]
    · rw [size]
      exact Nat.le_of_succ_le stocked
  | none =>
    have appended := (arranged.makeRoom limit).append now key value
    have size : ((c.makeRoom limit).append now key value).size =
        c.size - (c.size + 1 - limit) + 1 := by
      rw [MemoCache.size, ← appended.entries.length_eq, List.length_append, List.length_drop,
        arranged.entries.length_eq]
      rfl
    have counters : ((c.makeRoom limit).append now key value).counters = c.counters :=
      counters_foldl_remove _ c
    refine ⟨⟨_, appended⟩, ?_, ?_⟩
    · rw [size]
      omega
    · rw [counters, size]
      omega

theorem Orderly.store (orderly : c.Orderly limit) (now : Except Fault τ) (key : κ) (value : ν) :
    (c.store limit now key value).2.Orderly limit := by
  obtain ⟨⟨order, arranged⟩, fits, stocked⟩ := orderly
  have counted : (c.count fun n => { n with stores := n.stores + 1 }).Orderly limit :=
    ⟨⟨order, arranged.count _⟩, fits, Nat.le_succ_of_le stocked⟩
  unfold MemoCache.store
  cases now with
  | error f => exact counted
  | ok now =>
    dsimp only
    by_cases full : limit = 0
    · rw [if_pos full]
      exact counted
    · rw [if_neg full]
      exact .put counted.arranged fits (Nat.pos_of_ne_zero full) (Nat.succ_le_succ stocked) now key
        value

end Keyed

end MemoCache

end MorphEngine
