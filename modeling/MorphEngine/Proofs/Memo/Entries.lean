import MorphEngine.MemoCache

/-!
# What the operations of a cache do to its entries

Looking up, making room, sweeping and clearing only ever drop entries. Storing drops entries too,
and gives one entry, new or found under the key, the time and the value that are stored. So what
holds of every entry goes on to hold as long as it holds of what is stored. The serial numbers tell
the entries apart throughout.
-/

namespace MorphEngine

namespace MemoCache

variable {τ κ ν : Type}

/-- Entries are told apart by their serial numbers, and the next number is still free. -/
structure IsNumbered (c : MemoCache τ κ ν) : Prop where
  distinct : ∀ e ∈ c.entries, ∀ f ∈ c.entries, e.serial = f.serial → e = f
  fresh : ∀ e ∈ c.entries, e.serial < c.nextSerial

/-- A condition on key, time and value holds of every entry. -/
structure Keeps (P : κ → τ → ν → Prop) (c : MemoCache τ κ ν) : Prop where
  numbered : c.IsNumbered
  entries : ∀ e ∈ c.entries, P e.key e.insertedAt e.value

/-- The first cache comes from the second by dropping entries. -/
structure Within (c d : MemoCache τ κ ν) : Prop where
  number : c.nextSerial = d.nextSerial
  entries : ∀ e ∈ c.entries, e ∈ d.entries

variable {P : κ → τ → ν → Prop} {b c d : MemoCache τ κ ν}

theorem Within.refl (c : MemoCache τ κ ν) : c.Within c := ⟨rfl, fun _ he => he⟩

theorem Within.trans (first : b.Within c) (second : c.Within d) : b.Within d :=
  ⟨first.number.trans second.number, fun e he => second.entries e (first.entries e he)⟩

theorem Keeps.within (keeps : d.Keeps P) (within : c.Within d) : c.Keeps P where
  numbered :=
    { distinct := fun e he f hf =>
        keeps.numbered.distinct e (within.entries e he) f (within.entries f hf)
      fresh := fun e he => within.number ▸ keeps.numbered.fresh e (within.entries e he) }
  entries e he := keeps.entries e (within.entries e he)

theorem keeps_of_empty (none : c.entries = []) : c.Keeps P := by
  have absent (e : CacheEntry τ κ ν) (he : e ∈ c.entries) : False := by
    rw [none] at he
    exact absurd he List.not_mem_nil
  exact ⟨⟨fun e he => (absent e he).elim, fun e he => (absent e he).elim⟩,
    fun e he => (absent e he).elim⟩

theorem count_within (f : CacheCounters → CacheCounters) (c : MemoCache τ κ ν) :
    (c.count f).Within c := ⟨rfl, fun _ he => he⟩

theorem touch_within (serial : Nat) (c : MemoCache τ κ ν) : (c.touch serial).Within c :=
  ⟨rfl, fun _ he => he⟩

theorem remove_within (serial : Nat) (c : MemoCache τ κ ν) : (c.remove serial).Within c :=
  ⟨rfl, fun _ he => (List.mem_filter.mp he).1⟩

theorem clear_within (c : MemoCache τ κ ν) : c.clear.Within c :=
  ⟨rfl, fun _ he => absurd he List.not_mem_nil⟩

/-- Steps that only drop entries, one for each element of a list, only drop entries together. -/
theorem foldl_within {α : Type} {step : MemoCache τ κ ν → α → MemoCache τ κ ν}
    (drops : ∀ c a, (step c a).Within c) (as : List α) (c : MemoCache τ κ ν) :
    (as.foldl step c).Within c := by
  induction as generalizing c with
  | nil => exact .refl c
  | cons a as ih => exact (ih (step c a)).trans (drops c a)

theorem makeRoom_within (limit : Nat) (c : MemoCache τ κ ν) : (c.makeRoom limit).Within c :=
  foldl_within (fun c serial => remove_within serial c) _ c

theorem touchAll_within (c : MemoCache τ κ ν) : c.touchAll.Within c :=
  foldl_within (fun c (e : CacheEntry τ κ ν) => touch_within e.serial c) _ c

theorem sweep_within {ε : Type} (isStale : τ → Except ε Bool) (c : MemoCache τ κ ν) :
    (c.sweep isStale).2.Within c := by
  unfold sweep
  dsimp only
  split
  · exact touchAll_within c
  · dsimp only
    exact ((count_within _ _).trans
      (foldl_within (fun c (e : CacheEntry τ κ ν) => remove_within e.serial c) _ _)).trans
        (touchAll_within c)

/-- A sweep ends well when every entry can be judged. -/
theorem sweep_isOk {ε : Type} {isStale : τ → Except ε Bool} {c : MemoCache τ κ ν}
    (judged : ∀ e ∈ c.entries, ∃ b, isStale e.insertedAt = .ok b) :
    ∃ n, (c.sweep isStale).1 = .ok n := by
  have goes (es kept : List (CacheEntry τ κ ν))
      (judged : ∀ e ∈ es, ∃ b, isStale e.insertedAt = .ok b) :
      ∃ out, List.filterAuxM (fun e => isStale e.insertedAt) es kept = .ok out := by
    induction es generalizing kept with
    | nil => exact ⟨kept, rfl⟩
    | cons e es ih =>
      rw [List.forall_mem_cons] at judged
      obtain ⟨b, judges⟩ := judged.1
      obtain ⟨out, ran⟩ := ih (cond b (e :: kept) kept) judged.2
      refine ⟨out, ?_⟩
      rw [List.filterAuxM, judges]
      exact ran
  obtain ⟨out, ran⟩ := goes c.touchAll.entries []
    fun e he => judged e ((touchAll_within c).entries e he)
  have filtered : c.touchAll.entries.filterM (fun e => isStale e.insertedAt) =
      .ok out.reverse := by
    rw [List.filterM, ran]
    rfl
  refine ⟨out.reverse.length, ?_⟩
  simp only [sweep, filtered]

theorem Keeps.replace (keeps : c.Keeps P) {e : CacheEntry τ κ ν} (held : e ∈ c.entries) {now : τ}
    {value : ν} (stored : P e.key now value) : (c.replace e.serial now value).Keeps P := by
  have traced : ∀ f ∈ (c.replace e.serial now value).entries, ∃ f₀ ∈ c.entries,
      f.serial = f₀.serial ∧ f = if f₀.serial = e.serial then
        { f₀ with insertedAt := now, value := value } else f₀ := by
    intro f hf
    obtain ⟨f₀, hf₀, rfl⟩ := List.mem_map.mp hf
    refine ⟨f₀, hf₀, ?_, rfl⟩
    split <;> rfl
  refine ⟨⟨?_, ?_⟩, ?_⟩
  · intro f hf g hg same
    obtain ⟨f₀, hf₀, fSerial, rfl⟩ := traced f hf
    obtain ⟨g₀, hg₀, gSerial, rfl⟩ := traced g hg
    have one : f₀ = g₀ :=
      keeps.numbered.distinct f₀ hf₀ g₀ hg₀ (fSerial.symm.trans (same.trans gSerial))
    rw [one]
  · intro f hf
    obtain ⟨f₀, hf₀, fSerial, _⟩ := traced f hf
    rw [fSerial]
    exact keeps.numbered.fresh f₀ hf₀
  · intro f hf
    obtain ⟨f₀, hf₀, _, rfl⟩ := traced f hf
    by_cases same : f₀.serial = e.serial
    · have one : f₀ = e := keeps.numbered.distinct f₀ hf₀ e held same
      rw [if_pos same, one]
      exact stored
    · rw [if_neg same]
      exact keeps.entries f₀ hf₀

theorem Keeps.append (keeps : c.Keeps P) {key : κ} {now : τ} {value : ν}
    (stored : P key now value) : (c.append now key value).Keeps P := by
  refine ⟨⟨?_, ?_⟩, ?_⟩
  · intro e he f hf same
    simp only [MemoCache.append, List.mem_append, List.mem_singleton] at he hf
    rcases he with he | rfl <;> rcases hf with hf | rfl
    · exact keeps.numbered.distinct e he f hf same
    · exact absurd same (Nat.ne_of_lt (keeps.numbered.fresh e he))
    · exact absurd same.symm (Nat.ne_of_lt (keeps.numbered.fresh f hf))
    · rfl
  · intro e he
    simp only [MemoCache.append, List.mem_append, List.mem_singleton] at he
    rcases he with he | rfl
    · exact Nat.lt_succ_of_lt (keeps.numbered.fresh e he)
    · exact Nat.lt_succ_self _
  · intro e he
    simp only [MemoCache.append, List.mem_append, List.mem_singleton] at he
    rcases he with he | rfl
    · exact keeps.entries e he
    · exact stored

section Keyed

variable [BEq κ] [LawfulBEq κ] {key : κ}

omit [LawfulBEq κ] in
theorem lookup_within {ε : Type} (isStale : τ → Except ε Bool) (key : κ) (c : MemoCache τ κ ν) :
    (c.lookup isStale key).2.Within c := by
  unfold lookup
  split
  · dsimp only
    exact count_within _ c
  · next e _ =>
    have touched := touch_within e.serial c
    dsimp only
    split
    · exact touched
    · dsimp only
      exact ((count_within _ _).trans (remove_within e.serial _)).trans touched
    · dsimp only
      exact (count_within _ _).trans touched

theorem find?_mem {e : CacheEntry τ κ ν} (found : c.find? key = some e) :
    e ∈ c.entries ∧ e.key = key :=
  have under : (e.key == key) = true :=
    List.find?_some (p := fun e : CacheEntry τ κ ν => e.key == key) found
  ⟨List.mem_of_find?_eq_some found, eq_of_beq under⟩

/-- A lookup ends well when every entry can be judged, and what it finds is the value of an entry
under the key. -/
theorem lookup_isOk {ε : Type} {isStale : τ → Except ε Bool}
    (judged : ∀ e ∈ c.entries, ∃ b, isStale e.insertedAt = .ok b) (key : κ) :
    (c.lookup isStale key).1 = .ok none ∨
      ∃ e ∈ c.entries, e.key = key ∧ (c.lookup isStale key).1 = .ok (some e.value) := by
  unfold lookup
  cases found : c.find? key with
  | none => exact Or.inl rfl
  | some e =>
    obtain ⟨held, under⟩ := find?_mem found
    obtain ⟨b, judges⟩ := judged e held
    dsimp only
    rw [judges]
    cases b with
    | true => exact Or.inl rfl
    | false => exact Or.inr ⟨e, held, under, rfl⟩

/-- Storing keeps up what holds of all entries and of what is stored. -/
theorem Keeps.put (keeps : c.Keeps P) {now : τ} {value : ν} (stored : P key now value)
    (limit : Nat) : (c.put limit now key value).Keeps P := by
  unfold MemoCache.put
  cases found : c.find? key with
  | none => exact (keeps.within (makeRoom_within limit c)).append stored
  | some e =>
    obtain ⟨held, rfl⟩ := find?_mem found
    exact (keeps.replace held stored).within (touch_within _ _)

/-- What a lookup finds is the value of an entry. -/
theorem exists_of_lookup {ε : Type} {isStale : τ → Except ε Bool} {v : ν}
    (found : (c.lookup isStale key).1 = .ok (some v)) : ∃ e ∈ c.entries, e.value = v := by
  unfold lookup at found
  cases there : c.find? key with
  | none =>
    rw [there] at found
    cases found
  | some e =>
    rw [there] at found
    dsimp only at found
    split at found
    · cases found
    · cases found
    · cases found
      exact ⟨e, (find?_mem there).1, rfl⟩

theorem Keeps.store (keeps : c.Keeps P) (limit : Nat) {now : Except Fault τ} {value : ν}
    (stored : ∀ t, now = .ok t → P key t value) : (c.store limit now key value).2.Keeps P := by
  have counted : (c.count fun n => { n with stores := n.stores + 1 }).Keeps P :=
    keeps.within (count_within _ c)
  unfold MemoCache.store
  cases now with
  | error f => exact counted
  | ok t =>
    dsimp only
    split
    · exact counted
    · exact counted.put (stored t rfl) limit

end Keyed

end MemoCache

end MorphEngine
