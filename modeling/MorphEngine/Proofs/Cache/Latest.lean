import MorphEngine.Proofs.Cache.Effects

/-!
# A cache finds what was stored last

What a lookup finds has been stored under its key. Since then nothing else has been stored there, the
cache has not been emptied, and no request has found the entry stale; it is not stale now either.
Nothing is assumed about the clock. When its readings are numbers, the entry is no older than the
time to live, unless its age is not a number.
-/

namespace MorphEngine

namespace MemoCache

variable {κ ν : Type} [BEq κ]

/-- What has happened does not put an end to an entry that was stored under a key at some time. -/
def Record.Spares (b : Bounds) (key : κ) (storedAt : Value) (i : Record κ ν) : Prop :=
  match i.request with
  | .store key' _ => i.answer = .ok .done → (key' == key) = false
  | .lookup key' => (key' == key) = true → i.reading.judge b.ttl storedAt ≠ .ok true
  | .contains _ => True
  | .expire => (∃ n, i.answer = .ok (.dropped n)) → i.reading.judge b.ttl storedAt ≠ .ok true
  | .clear => False

/-- The last store under a key has put a value there at some time, and nothing has put an end to it
since. -/
def IsLatest (b : Bounds) (history : List (Record κ ν)) (key : κ) (storedAt : Value) (value : ν) :
    Prop :=
  ∃ before reading key' since,
    history = before ++ ⟨⟨reading, .store key' value⟩, .ok .done⟩ :: since ∧
      (key' == key) = true ∧ reading.now = storedAt ∧ ∀ i ∈ since, i.Spares b key storedAt

/-- An entry of some age is fresh: without a time to live, or because its age is known and does not
exceed that. -/
def Reading.IsFresh (r : Reading) (ttl storedAt : Value) : Prop :=
  ttl = .none ∨ ∃ age, Value.minus r.now storedAt = .ok age ∧
    Value.greater r.cells age ttl = .ok false

variable {b : Bounds} {h : List (Record κ ν)} {key : κ} {storedAt : Value} {value : ν}

theorem IsLatest.snoc (latest : IsLatest b h key storedAt value) {i : Record κ ν}
    (spares : i.Spares b key storedAt) : IsLatest b (h ++ [i]) key storedAt value := by
  obtain ⟨before, reading, key', since, rfl, same, at_, spared⟩ := latest
  refine ⟨before, reading, key', since ++ [i], by simp, same, at_, ?_⟩
  intro j hj
  rcases List.mem_append.mp hj with hj | hj
  · exact spared j hj
  · rw [List.mem_singleton.mp hj]
    exact spares

theorem IsLatest.store (r : Reading) {key' : κ} (same : (key' == key) = true) (value : ν) :
    IsLatest b (h ++ [⟨⟨r, .store key' value⟩, .ok .done⟩]) key r.now value :=
  ⟨h, r, key', [], rfl, same, rfl, by simp⟩

theorem isFresh_of_judge {r : Reading} {ttl : Value} (fresh : r.judge ttl storedAt = .ok false) :
    r.IsFresh ttl storedAt := by
  by_cases never : ttl = .none
  · exact Or.inl never
  · have judged : r.judge ttl storedAt = (do
        let age ← Value.minus r.now storedAt
        Value.greater r.cells age ttl) := by
      simp only [Reading.judge, CacheRule.isStale]
    cases age : Value.minus r.now storedAt with
    | error f =>
      rw [judged, age] at fresh
      cases fresh
    | ok age' =>
      rw [judged, age] at fresh
      exact Or.inr ⟨age', age, fresh⟩

section Keyed

variable [EquivBEq κ] {c : MemoCache Value κ ν} {order : List (CacheEntry Value κ ν)}
  {e f : CacheEntry Value κ ν}

/-- What a request leaves in a tidy cache is still the latest under its key. -/
theorem Effect.latest {order' : List (CacheEntry Value κ ν)} {r : Reading} {request : Request κ ν}
    {answer : Except Fault (Answer ν)} (tidy : c.Tidy order)
    (effect : Effect b r c order request answer order')
    (latest : ∀ f ∈ order, IsLatest b h f.key f.insertedAt f.value) :
    ∀ f ∈ order', IsLatest b (h ++ [⟨⟨r, request⟩, answer⟩]) f.key f.insertedAt f.value := by
  intro f hf
  have held : ∀ e ∈ c.entries, e ∈ order := fun e he => tidy.arranged.entries.mem_iff.mpr he
  cases effect with
  | refuse full => exact (latest f hf).snoc (by simp [Record.Spares])
  | @renew key value e room found =>
    rcases tidy.mem_without_append found hf with ⟨hf, differs⟩ | rfl
    · exact (latest f hf).snoc fun _ => differs
    · exact .store r (BEq.symm (key_of_find? found).2) value
  | @add key value room absent =>
    rcases List.mem_append.mp hf with hf | hf
    · have hf := List.mem_of_mem_drop hf
      exact (latest f hf).snoc fun _ => tidy.absent_key absent hf
    · rw [List.mem_singleton.mp hf]
      exact .store r BEq.rfl value
  | miss absent =>
    exact (latest f hf).snoc fun same => by simp [tidy.absent_key absent hf] at same
  | hit found fresh =>
    rcases tidy.mem_without_append found hf with ⟨hf, differs⟩ | rfl
    · exact (latest f hf).snoc fun same => by simp [differs] at same
    · exact (latest f (held f (key_of_find? found).1)).snoc fun _ => by simp [fresh]
  | outlive found stale =>
    obtain ⟨hf, differs⟩ := tidy.other_key found hf
    exact (latest f hf).snoc fun same => by simp [differs] at same
  | doubt found fails =>
    rcases tidy.mem_without_append found hf with ⟨hf, differs⟩ | rfl
    · exact (latest f hf).snoc fun same => by simp [differs] at same
    · exact (latest f (held f (key_of_find? found).1)).snoc fun _ => by simp [fails]
  | absent absent => exact (latest f hf).snoc trivial
  | present found =>
    rcases tidy.mem_without_append found hf with ⟨hf, _⟩ | rfl
    · exact (latest f hf).snoc trivial
    · exact (latest f (held f (key_of_find? found).1)).snoc trivial
  | endure never =>
    exact (latest f hf).snoc fun _ => by simp [r.judge_of_none never]
  | sweep ages judged =>
    -- A sweep that went through has judged the entries that stay, and found them fresh.
    obtain ⟨hf, kept⟩ := List.mem_filter.mp hf
    rw [Bool.not_eq_true'] at kept
    have young : r.judge b.ttl f.insertedAt = .ok false := by rw [judged f hf, kept]
    exact (latest f (held f hf)).snoc fun _ => by simp [young]
  | stumble ages he fails => exact (latest f (held f hf)).snoc fun ⟨n, answered⟩ => nomatch answered
  | clear => cases hf

theorem course_latest (b : Bounds) (es : List (Event κ ν)) :
    ∀ f ∈ (course b es).cache.entries,
      IsLatest b (course b es).history f.key f.insertedAt f.value := by
  obtain ⟨tidy, latest⟩ := course_effects (b := b)
    (P := fun h order => ∀ f ∈ order, IsLatest b h f.key f.insertedAt f.value) (by simp)
    (fun h c order e order' tidy latest effect => effect.latest tidy latest) es
  exact fun f hf => latest f (tidy.arranged.entries.mem_iff.mpr hf)

theorem Record.Spares.congr {key' : κ} {i : Record κ ν} (spares : i.Spares b key storedAt)
    (same : (key == key') = true) : i.Spares b key' storedAt := by
  obtain ⟨⟨r, request⟩, answer⟩ := i
  cases request with
  | store key'' value =>
    intro stored
    rw [← BEq.congr_right same]
    exact spares stored
  | lookup key'' =>
    intro found
    rw [← BEq.congr_right same] at found
    exact spares found
  | contains key'' => trivial
  | expire => exact spares
  | clear => exact spares

theorem IsLatest.congr {key' : κ} (latest : IsLatest b h key storedAt value)
    (same : (key == key') = true) : IsLatest b h key' storedAt value := by
  obtain ⟨before, reading, key'', since, split, under, at_, spared⟩ := latest
  exact ⟨before, reading, key'', since, split, BEq.trans under same, at_,
    fun i hi => (spared i hi).congr same⟩

end Keyed

/-! ### Numbers as readings -/

theorem minus_ofNumber (x y : Number) :
    Value.minus (.ofNumber x) (.ofNumber y) =
      match x.sub? y with
      | some age => .ok (.ofNumber age)
      | none => .error .overflowingInt := by
  cases x <;> cases y <;> rfl

theorem relates_ofNumber (cells : Cells) (relation : Relation) (x y : Number) :
    Value.relates cells relation (.ofNumber x) (.ofNumber y) =
      .ok (relation.admits (x.order? y)) := by
  cases x <;> cases y <;> rfl

/-- A fresh entry is no older than the time to live, unless its age cannot be compared with that. -/
theorem age_of_isFresh {r : Reading} {x y l : Number}
    (fresh : r.IsFresh (.ofNumber l) (.ofNumber y)) (now : r.now = .ofNumber x) :
    ∃ age, x.sub? y = some age ∧ (age.le l = true ∨ age.order? l = none) := by
  rcases fresh with never | ⟨age, aged, young⟩
  · cases l <;> cases never
  · rw [now, minus_ofNumber] at aged
    cases differs : x.sub? y with
    | none =>
      rw [differs] at aged
      cases aged
    | some d =>
      rw [differs] at aged
      cases aged
      rw [Value.greater, relates_ofNumber] at young
      refine ⟨d, rfl, ?_⟩
      cases compared : d.order? l with
      | none => exact Or.inr rfl
      | some o =>
        rw [compared] at young
        cases o with
        | lt => exact Or.inl (by simp [Number.le, Number.lt, compared])
        | eq => exact Or.inl (by simp [Number.le, compared])
        | gt => cases young

/-! ### Lookups -/

variable [EquivBEq κ]

/-- What a lookup finds is the value of the last store under the key, which has been spared since and
is fresh. A key is said to be there exactly when a lookup would find it. -/
theorem lookup_finds_latest (b : Bounds) (es : List (Event κ ν)) (r : Reading) (key : κ) :
    (∀ value, ((course b es).cache.serve b ⟨r, .lookup key⟩).1 = .ok (.found (some value)) →
      ∃ storedAt, IsLatest b (course b es).history key storedAt value ∧ r.IsFresh b.ttl storedAt ∧
        ∀ x y l : Number, r.now = .ofNumber x → storedAt = .ofNumber y → b.ttl = .ofNumber l →
          ∃ age, x.sub? y = some age ∧ (age.le l = true ∨ age.order? l = none)) ∧
      (((course b es).cache.serve b ⟨r, .contains key⟩).1 = .ok (.isFresh true) ↔
        ∃ value,
          ((course b es).cache.serve b ⟨r, .lookup key⟩).1 = .ok (.found (some value))) := by
  constructor
  · intro value hit
    obtain ⟨e, found, fresh, rfl⟩ := found_iff.mp hit
    obtain ⟨he, under⟩ := key_of_find? found
    refine ⟨e.insertedAt, (course_latest b es e he).congr under, isFresh_of_judge fresh, ?_⟩
    intro x y l now stored ttl
    have young := isFresh_of_judge fresh
    rw [stored, ttl] at young
    exact age_of_isFresh young now
  · rw [isFresh_iff]
    constructor
    · rintro ⟨e, found, fresh⟩
      exact ⟨e.value, found_iff.mpr ⟨e, found, fresh, rfl⟩⟩
    · rintro ⟨value, hit⟩
      obtain ⟨e, found, fresh, _⟩ := found_iff.mp hit
      exact ⟨e, found, fresh⟩

/-- A value that is stored twice, and once more under another key. -/
def storedTwice : List (Event Nat Text) :=
  [⟨⟨.int 0, []⟩, .store 1 "old"⟩, ⟨⟨.int 5, []⟩, .store 1 "new"⟩, ⟨⟨.int 6, []⟩, .store 2 "other"⟩]

/-- At exactly the time to live the last value is still found. -/
theorem storedTwice_found :
    ∃ storedAt, IsLatest ⟨.int 60, 2⟩ (course ⟨.int 60, 2⟩ storedTwice).history 1 storedAt "new" ∧
      Reading.IsFresh ⟨.int 65, []⟩ (.int 60) storedAt := by
  have hit : ((course ⟨.int 60, 2⟩ storedTwice).cache.serve ⟨.int 60, 2⟩
      ⟨⟨.int 65, []⟩, .lookup 1⟩).1 = .ok (.found (some "new")) := rfl
  obtain ⟨storedAt, latest, fresh, _⟩ :=
    (lookup_finds_latest ⟨.int 60, 2⟩ storedTwice ⟨.int 65, []⟩ 1).1 "new" hit
  exact ⟨storedAt, latest, fresh⟩

/-- At an infinite reading an entry is found whose age is not a number, and so is not at most the
time to live. -/
theorem found_at_infinity :
    (course ⟨.int 60, 2⟩ [⟨⟨.real (1 / 0), []⟩, .store 1 ()⟩]).history =
        [⟨⟨⟨.real (1 / 0), []⟩, .store 1 ()⟩, .ok .done⟩] ∧
      ((course ⟨.int 60, 2⟩ [⟨⟨.real (1 / 0), []⟩, .store 1 ()⟩]).cache.serve ⟨.int 60, 2⟩
        ⟨⟨.real (1 / 0), []⟩, .lookup 1⟩).1 = .ok (.found (some ())) ∧
      ∃ age, Value.minus (.real (1 / 0)) (.real (1 / 0)) = .ok age ∧
        Value.relates [] .atMost age (.int 60) = .ok false :=
  ⟨rfl, rfl, _, rfl, rfl⟩

end MemoCache

end MorphEngine
