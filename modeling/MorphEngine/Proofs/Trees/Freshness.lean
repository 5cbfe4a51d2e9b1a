import MorphEngine.Proofs.Cache.Latest
import MorphEngine.Proofs.Trees.Purity
import MorphEngine.Proofs.NumberOrder

/-!
# How long sequences stay fresh

A morph in sequence after another declares the shorter of the times to live that the two declare.
Over a tree of sequences the root goes by the shortest that any leaf declares. A leaf that declares
none goes by the default of its own settings, which no sequence looks at: the root lasts no longer
than such a leaf just when some leaf declares a time to live that does not exceed the default.
-/

namespace MorphEngine

open Fusion

/-! ### Times to live -/

/-- No time to live, or a number other than not-a-number. -/
def IsDuration (t : Value) : Prop :=
  t = .none ∨ ∃ x : Number, t = .ofNumber x ∧ x.toExact?.isSome = true

/-- One time to live is at most another; one that is missing is above all others. -/
def LastsAtMost (s t : Value) : Prop :=
  t = .none ∨ s ≠ .none ∧ Value.relates [] .atMost s t = .ok true

theorem Value.ofNumber_ne_none (x : Number) : Value.ofNumber x ≠ .none := by
  cases x <;> nofun

theorem lastsAtMost_ofNumber {x y : Number} :
    LastsAtMost (.ofNumber x) (.ofNumber y) ↔ x.le y = true := by
  have compared : Value.relates [] .atMost (.ofNumber x) (.ofNumber y) = .ok (x.le y) :=
    MemoCache.relates_ofNumber [] .atMost x y
  simp [LastsAtMost, compared, Value.ofNumber_ne_none]

/-- What lasts no longer than a number is a number. -/
theorem LastsAtMost.exists_number {s : Value} {y : Number} (duration : IsDuration s)
    (short : LastsAtMost s (.ofNumber y)) : ∃ x, s = .ofNumber x ∧ x.le y = true := by
  rcases duration with rfl | ⟨x, rfl, _⟩
  · rcases short with none | ⟨some, _⟩
    · exact absurd none (Value.ofNumber_ne_none y)
    · exact absurd rfl some
  · exact ⟨x, rfl, lastsAtMost_ofNumber.mp short⟩

theorem LastsAtMost.refl {t : Value} (duration : IsDuration t) : LastsAtMost t t := by
  rcases duration with rfl | ⟨x, rfl, exact⟩
  · exact Or.inl rfl
  · exact lastsAtMost_ofNumber.mpr (Number.le_refl exact)

theorem LastsAtMost.trans {r s t : Value} (first : LastsAtMost r s) (second : LastsAtMost s t)
    (duration : IsDuration r) (duration' : IsDuration s) (duration'' : IsDuration t) :
    LastsAtMost r t := by
  rcases duration'' with rfl | ⟨z, rfl, _⟩
  · exact Or.inl rfl
  · obtain ⟨y, rfl, yz⟩ := second.exists_number duration'
    obtain ⟨x, rfl, xy⟩ := first.exists_number duration
    exact lastsAtMost_ofNumber.mpr (Number.le_trans xy yz)

/-- At an age at which a result is stale under one time to live, it is stale under each that lasts
no longer. -/
theorem LastsAtMost.isStale {s t now storedAt : Value} {age : Number} {cells : Cells}
    (short : LastsAtMost s t) (duration : IsDuration s) (duration' : IsDuration t)
    (aged : Value.minus now storedAt = .ok (.ofNumber age))
    (stale : CacheRule.isStale cells t now storedAt = .ok true) :
    CacheRule.isStale cells s now storedAt = .ok true := by
  have judged : ∀ x : Number, CacheRule.isStale cells (.ofNumber x) now storedAt =
      .ok (Relation.greater.admits (age.order? x)) := by
    intro x
    have compared : CacheRule.isStale cells (.ofNumber x) now storedAt = (do
        Value.greater cells (← Value.minus now storedAt) (.ofNumber x)) := by
      cases x <;> rfl
    rw [compared, aged]
    exact MemoCache.relates_ofNumber cells .greater age x
  rcases duration' with rfl | ⟨y, rfl, _⟩
  · cases stale
  · obtain ⟨x, rfl, xy⟩ := short.exists_number duration
    have older : age.order? y = some .gt := by simpa [judged, Relation.admits] using stale
    simp [judged, Relation.admits, Number.order?_gt_of_le xy older]

namespace Quantity

/-- A quantity that is a number, and counts as true. -/
def IsLifetime (q : Quantity) : Prop := IsDuration q.given ∧ q.given.truthy = true

theorem exists_number {q : Quantity} (duration : IsDuration q.given) :
    ∃ x : Number, q.given = .ofNumber x ∧ x.toExact?.isSome = true := by
  rcases duration with none | number
  · have measures := q.measures
    rw [none] at measures
    cases measures
  · exact number

/-- A number that is zero meets zero as a quantity too. -/
theorem meetsZero_of_isZero {q : Quantity} {x : Number} (given : q.given = .ofNumber x)
    (zero : x.isZero = true) : q.meetsZero .atMost = true := by
  obtain ⟨v, measures⟩ := q
  cases given
  rw [Number.isZero, Number.eq, beq_iff_eq] at zero
  cases x with
  | int n =>
    have none : n = 0 := by
      simpa [Number.order?, Number.toExact?, Number.zero, Number.Exact.order] using zero
    subst none
    rfl
  | real x =>
    have judged : Quantity.meetsZero .atMost ⟨.real x, measures⟩ =
        Relation.atMost.admits ((Amount.real (Real.parts x)).order? (.whole 0)) := rfl
    refine judged.trans ?_
    cases shape : Real.parts x with
    | nan => simp [Number.order?, Number.toExact?, Number.zero, shape] at zero
    | infinite negative =>
      cases negative <;>
        simp [Number.order?, Number.toExact?, Number.zero, shape, Number.Exact.order] at zero
    | finite negative m e =>
      have none : m = 0 := by
        cases negative <;> by_cases whole : 0 ≤ e <;>
          simpa [Number.order?, Number.toExact?, Number.zero, shape, Number.Exact.order,
            Real.fraction, whole] using zero
      subst none
      simp [Amount.order?, Amount.realPart, Amount.imaginaryPart, Real.Parts.ofInt,
        Real.Parts.zero, Real.Parts.order?, Real.Parts.counted, Relation.admits]

theorem isLifetime {q : Quantity} (duration : IsDuration q.given)
    (positive : q.meetsZero .atMost = false) : q.IsLifetime := by
  refine ⟨duration, ?_⟩
  obtain ⟨x, given, _⟩ := exists_number duration
  have truth : q.given.truthy = !x.isZero := by
    rw [given]
    cases x <;> rfl
  cases zero : x.isZero with
  | false => rw [truth, zero, Bool.not_false]
  | true =>
    rw [meetsZero_of_isZero given zero] at positive
    cases positive

end Quantity

/-! ### The shortest time to live -/

/-- A quantity is one of the given ones and lasts no longer than any; there is none without them. -/
def IsShortest (least : Option Quantity) (qs : List Quantity) : Prop :=
  (∀ q, least = some q → q ∈ qs) ∧ ∀ p ∈ qs, ∃ q, least = some q ∧ LastsAtMost q.given p.given

theorem IsShortest.eq_nil {qs : List Quantity} (shortest : IsShortest none qs) : qs = [] := by
  refine List.eq_nil_iff_forall_not_mem.mpr fun p hp => ?_
  obtain ⟨q, none, _⟩ := shortest.2 p hp
  cases none

section Shortest

variable {least : Option Quantity} {qs : List Quantity} (shortest : IsShortest least qs)
  (lifetimes : ∀ q ∈ qs, q.IsLifetime)

include shortest lifetimes

theorem IsShortest.isDuration : IsDuration (least.elim .none (·.given)) := by
  cases least with
  | none => exact Or.inl rfl
  | some q => exact (lifetimes q (shortest.1 q rfl)).1

/-- The shortest of some times to live lasts no longer than another just when that lasts forever, or
one of them lasts no longer. -/
theorem IsShortest.lastsAtMost_iff {t : Value} (duration : IsDuration t) :
    LastsAtMost (least.elim .none (·.given)) t ↔
      t = .none ∨ ∃ q ∈ qs, LastsAtMost q.given t := by
  constructor
  · intro short
    cases least with
    | none =>
      rcases short with endless | ⟨some, _⟩
      · exact Or.inl endless
      · exact absurd rfl some
    | some q => exact Or.inr ⟨q, shortest.1 q rfl, short⟩
  · rintro (endless | ⟨q, hq, short⟩)
    · exact Or.inl endless
    · obtain ⟨r, rfl, below⟩ := shortest.2 q hq
      exact below.trans short (lifetimes r (shortest.1 r rfl)).1 (lifetimes q hq).1 duration

end Shortest

namespace Morph

/-- Of two times to live that are numbers a sequence declares the shorter one. -/
theorem exists_shorter {p q : Quantity} {shorter : Option Quantity} (lifetime : p.IsLifetime)
    (lifetime' : q.IsLifetime) (shared : sharedTtl (some p) (some q) = .ok shorter) :
    ∃ r, shorter = some r ∧ (r = p ∨ r = q) ∧ LastsAtMost r.given p.given ∧
      LastsAtMost r.given q.given := by
  obtain ⟨x, given, exact⟩ := Quantity.exists_number lifetime.1
  obtain ⟨y, given', exact'⟩ := Quantity.exists_number lifetime'.1
  have compared : sharedTtl (some p) (some q) =
      (do return some (if ← Value.less [] q.given p.given then q else p)) := by
    simp [sharedTtl, lifetime.2, lifetime'.2]
  have less : Value.less [] q.given p.given = .ok (y.lt x) := by
    rw [given, given']
    exact MemoCache.relates_ofNumber [] .less y x
  rw [compared, less] at shared
  cases shared
  cases order : y.lt x with
  | true =>
    refine ⟨q, rfl, Or.inr rfl, ?_, .refl lifetime'.1⟩
    rw [given, given', lastsAtMost_ofNumber]
    exact Number.le_of_lt order
  | false =>
    refine ⟨p, rfl, Or.inl rfl, .refl lifetime.1, ?_⟩
    rw [given, given', lastsAtMost_ofNumber]
    exact Number.le_of_not_lt exact' exact order

theorem sharedTtl_isShortest {a b c : Option Quantity} {ps qs : List Quantity}
    (lifetimes : ∀ q ∈ ps ++ qs, q.IsLifetime) (first : IsShortest a ps) (second : IsShortest b qs)
    (shared : sharedTtl a b = .ok c) : IsShortest c (ps ++ qs) := by
  cases a with
  | none =>
    rw [first.eq_nil] at lifetimes ⊢
    cases b with
    | none =>
      cases shared
      exact second
    | some q =>
      have counts := (lifetimes q (second.1 q rfl)).2
      have same : c = some q := by simpa [sharedTtl, counts, eq_comm] using shared
      rw [same]
      exact second
  | some p =>
    have lifetime := lifetimes p (List.mem_append_left _ (first.1 p rfl))
    cases b with
    | none =>
      have same : c = some p := by simpa [sharedTtl, lifetime.2, eq_comm] using shared
      rw [same, second.eq_nil, List.append_nil]
      exact first
    | some q =>
      have lifetime' := lifetimes q (List.mem_append_right _ (second.1 q rfl))
      obtain ⟨r, rfl, chosen, short, short'⟩ := exists_shorter lifetime lifetime' shared
      have duration : IsDuration r.given := by
        rcases chosen with rfl | rfl
        · exact lifetime.1
        · exact lifetime'.1
      constructor
      · rintro r' ⟨⟩
        rcases chosen with rfl | rfl
        · exact List.mem_append_left _ (first.1 r rfl)
        · exact List.mem_append_right _ (second.1 r rfl)
      · intro t ht
        have lasts := (lifetimes t ht).1
        rcases List.mem_append.mp ht with ht | ht
        · obtain ⟨p', same, below⟩ := first.2 t ht
          cases same
          exact ⟨r, rfl, short.trans below duration lifetime.1 lasts⟩
        · obtain ⟨q', same, below⟩ := second.2 t ht
          cases same
          exact ⟨r, rfl, short'.trans below duration lifetime'.1 lasts⟩

end Morph

/-! ### What is declared -/

namespace MorphMetadata

theorem read_of_ofValue? {v : Value} {m : MorphMetadata} (shown : ofValue? v = some m) :
    ∃ fs, read fs = .ok m := by
  unfold ofValue? at shown
  split at shown
  · next c fs =>
    split at shown
    · refine ⟨fs, ?_⟩
      cases made : read fs with
      | error f =>
        rw [made] at shown
        cases shown
      | ok m' =>
        rw [made] at shown
        cases shown
        rfl
    · cases shown
  · cases shown

/-- Metadata are read from fields, wherever they come from. -/
theorem read_of_coerce {v : Value} {overrides : Fields} {m : MorphMetadata}
    (coerced : coerce v overrides = .ok m) : ∃ fs, read fs = .ok m := by
  unfold coerce Schema.coerceCall at coerced
  split at coerced
  · cases coerced
  · obtain ⟨base, based, coerced⟩ := bind_eq_ok coerced
    split at coerced
    · cases coerced
      unfold Schema.base at based
      split at based
      · exact ⟨_, based⟩
      · next shown =>
        cases based
        exact read_of_ofValue? shown
      · split at based
        · obtain ⟨fs, _, made⟩ := bind_eq_ok based
          exact ⟨_, made⟩
        · obtain ⟨_, _, refused⟩ := bind_eq_ok based
          cases refused
    · obtain ⟨fs, _, made⟩ := bind_eq_ok coerced
      exact ⟨_, made⟩

/-- A time to live is read as it is given, and is neither zero nor less. -/
theorem readTtl_eq_ok {v : Value} {ttl : Option Quantity} (reads : readTtl v = .ok ttl) :
    ttlValue ttl = v ∧ ∀ q, ttl = some q → q.meetsZero .atMost = false := by
  unfold readTtl at reads
  split at reads
  · cases reads
    exact ⟨rfl, nofun⟩
  · split at reads
    · next q measured =>
      by_cases atMost : q.meetsZero .atMost = true
      · rw [if_pos atMost] at reads
        obtain ⟨_, _, refused⟩ := bind_eq_ok reads
        cases refused
      · rw [if_neg atMost] at reads
        cases reads
        rw [Quantity.ofValue?] at measured
        split at measured
        · cases measured
          refine ⟨rfl, fun q same => ?_⟩
          cases same
          exact Bool.eq_false_iff.mpr atMost
        · cases measured
    · obtain ⟨_, _, refused⟩ := bind_eq_ok reads
      cases refused

/-- The measures among metadata are read each from its own field. -/
theorem measures_of_read {fs : Fields} {m : MorphMetadata} (made : read fs = .ok m) :
    readCost (fs.get "cost") = .ok m.cost ∧ readTtl (fs.get "cache_ttl") = .ok m.cacheTtl := by
  obtain ⟨pure, _, made⟩ := bind_eq_ok made
  obtain ⟨fusible, _, made⟩ := bind_eq_ok made
  obtain ⟨memoizable, _, made⟩ := bind_eq_ok made
  obtain ⟨cost, costs, made⟩ := bind_eq_ok made
  obtain ⟨ttl, lasts, made⟩ := bind_eq_ok made
  obtain ⟨async, _, made⟩ := bind_eq_ok made
  obtain ⟨context, _, made⟩ := bind_eq_ok made
  cases made
  exact ⟨costs, lasts⟩

/-- A time to live that is declared is neither zero nor less. -/
theorem ttl_of_coerce {v : Value} {overrides : Fields} {m : MorphMetadata}
    (coerced : coerce v overrides = .ok m) {q : Quantity} (declared : m.cacheTtl = some q) :
    q.meetsZero .atMost = false := by
  obtain ⟨fs, made⟩ := read_of_coerce coerced
  exact (readTtl_eq_ok (measures_of_read made).2).2 q declared

end MorphMetadata

namespace Morph

theorem create_declares {id : Nat} {name fn metadata : Value} {settings : CacheSettings}
    {options : Fields} {m : Morph} (made : create id name fn metadata settings options = .ok m)
    {q : Quantity} (declared : m.metadata.cacheTtl = some q) :
    q.meetsZero .atMost = false ∧
      ∀ slot, m.head.cache = some slot → slot.rule.ttl = q.given := by
  obtain ⟨d, head, coerced, rfl, header⟩ := create_eq_ok made
  obtain ⟨_, _, holds⟩ := makeHeader_eq_ok header
  have given : d.cacheTtl = some q := by rw [← holds]; exact declared
  refine ⟨MorphMetadata.ttl_of_coerce coerced given, fun slot cached => ?_⟩
  obtain ⟨goes, _⟩ := slot_of_makeHeader header cached
  rw [given] at goes
  exact (Except.ok.inj goes).symm

/-- A sequence of two cacheable morphs is cacheable. It declares the shorter time to live of the two,
and its cache goes by that alone. -/
theorem sequence_declares {id : Nat} {a b : Morph} {name : Value} {m : Morph}
    (cacheable : a.metadata.isCacheable = true) (cacheable' : b.metadata.isCacheable = true)
    (made : sequence id a b name = .ok m) :
    m.metadata.isCacheable = true ∧
      sharedTtl a.metadata.cacheTtl b.metadata.cacheTtl = .ok m.metadata.cacheTtl ∧
      ∀ slot, m.head.cache = some slot →
        slot.rule.ttl = m.metadata.cacheTtl.elim .none (·.given) := by
  rw [MorphMetadata.isCacheable, Bool.and_eq_true] at cacheable cacheable'
  have pures : (a.isPure && b.isPure) = true := by
    rw [isPure, isPure, cacheable.1, cacheable'.1, Bool.and_self]
  have memoizables : (a.isMemoizable && b.isMemoizable) = true := by
    rw [isMemoizable, isMemoizable, cacheable.2, cacheable'.2, Bool.and_self]
  obtain ⟨title, _, made⟩ := bind_eq_ok made
  obtain ⟨cost, _, made⟩ := bind_eq_ok made
  rw [if_pos memoizables] at made
  obtain ⟨ttl, shared, made⟩ := bind_eq_ok made
  obtain ⟨total, _, made⟩ := bind_eq_ok made
  obtain ⟨head, header, made⟩ := bind_eq_ok made
  cases made
  obtain ⟨_, _, declared⟩ := makeHeader_eq_ok header
  have lasts : head.metadata.cacheTtl = ttl := by rw [declared]
  refine ⟨?_, ?_, fun slot cached => ?_⟩
  · show head.metadata.isCacheable = true
    rw [declared, MorphMetadata.isCacheable, pures, memoizables, Bool.and_self]
  · show _ = Except.ok head.metadata.cacheTtl
    rw [lasts]
    exact shared
  · show _ = head.metadata.cacheTtl.elim .none (·.given)
    obtain ⟨goes, _⟩ := slot_of_makeHeader header cached
    rw [lasts]
    cases ttl with
    | none => exact (Except.ok.inj goes).symm
    | some q => exact (Except.ok.inj goes).symm

/-! ### Trees of sequences -/

/-- A tree of sequences over leaves that are backed by functions, each pure and memoizable, whatever
their settings. -/
inductive SequenceOf : Morph → List Morph → Prop
  | leaf {id : Nat} {name fn metadata : Value} {settings : CacheSettings} {options : Fields}
      {m : Morph} (made : create id name fn metadata settings options = .ok m)
      (cacheable : m.metadata.isCacheable = true) : SequenceOf m [m]
  | sequence {id : Nat} {a b : Morph} {name : Value} {m : Morph} {xs ys : List Morph}
      (first : SequenceOf a xs) (second : SequenceOf b ys) (made : sequence id a b name = .ok m) :
      SequenceOf m (xs ++ ys)

theorem SequenceOf.made {m : Morph} {leaves : List Morph} (tree : SequenceOf m leaves) : m.Made := by
  induction tree with
  | leaf made cacheable => exact .function made
  | sequence first second made ih ih' => exact .succession ih ih' made

/-- Every leaf has a cache, goes by the time to live that it declares, and declares none that is zero
or less. -/
theorem SequenceOf.leaf_cached {m : Morph} {leaves : List Morph} (tree : SequenceOf m leaves) :
    ∀ leaf ∈ leaves, ∃ slot, leaf.head.cache = some slot ∧
      ∀ q, leaf.metadata.cacheTtl = some q →
        slot.rule.ttl = q.given ∧ q.meetsZero .atMost = false := by
  induction tree with
  | leaf made cacheable =>
    intro leaf among
    rw [List.mem_singleton.mp among]
    obtain ⟨slot, cached, _⟩ := (Made.function made).cachesAsDeclared cacheable
    refine ⟨slot, cached, fun q declared => ?_⟩
    obtain ⟨positive, goes⟩ := create_declares made declared
    exact ⟨goes slot cached, positive⟩
  | sequence first second made ih ih' =>
    intro leaf among
    rcases List.mem_append.mp among with among | among
    · exact ih leaf among
    · exact ih' leaf among

theorem SequenceOf.isCacheable {m : Morph} {leaves : List Morph} (tree : SequenceOf m leaves) :
    m.metadata.isCacheable = true := by
  induction tree with
  | leaf made cacheable => exact cacheable
  | sequence first second made ih ih' => exact (sequence_declares ih ih' made).1

/-- What the leaves declare. -/
def declaredTtls (leaves : List Morph) : List Quantity := leaves.filterMap (·.metadata.cacheTtl)

theorem mem_declaredTtls {leaves : List Morph} {q : Quantity} :
    q ∈ declaredTtls leaves ↔ ∃ leaf ∈ leaves, leaf.metadata.cacheTtl = some q := by
  simp [declaredTtls]

/-- What the leaves declare are lifetimes when their caches go by numbers or forever. -/
theorem SequenceOf.declares_lifetimes {m : Morph} {leaves : List Morph}
    (tree : SequenceOf m leaves)
    (durations : ∀ leaf ∈ leaves, ∀ slot, leaf.head.cache = some slot → IsDuration slot.rule.ttl) :
    ∀ q ∈ declaredTtls leaves, q.IsLifetime := by
  intro q hq
  obtain ⟨leaf, among, declared⟩ := mem_declaredTtls.mp hq
  obtain ⟨slot, cached, goes⟩ := tree.leaf_cached leaf among
  obtain ⟨same, positive⟩ := goes q declared
  exact Quantity.isLifetime (same ▸ durations leaf among slot cached) positive

/-- The root of a tree of sequences declares the shortest time to live that a leaf declares. -/
theorem SequenceOf.isShortest {m : Morph} {leaves : List Morph} (tree : SequenceOf m leaves)
    (lifetimes : ∀ q ∈ declaredTtls leaves, q.IsLifetime) :
    IsShortest m.metadata.cacheTtl (declaredTtls leaves) := by
  induction tree with
  | @leaf id name fn metadata settings options m made cacheable =>
    cases declared : m.metadata.cacheTtl with
    | none => simp [declaredTtls, declared, IsShortest]
    | some q =>
      have only : declaredTtls [m] = [q] := by simp [declaredTtls, declared]
      rw [only] at lifetimes ⊢
      have lifetime := lifetimes q List.mem_cons_self
      simp [IsShortest, LastsAtMost.refl lifetime.1]
  | @sequence id a b name m xs ys first second made ih ih' =>
    have both : declaredTtls (xs ++ ys) = declaredTtls xs ++ declaredTtls ys :=
      List.filterMap_append
    rw [both] at lifetimes ⊢
    have shortest := ih fun q hq => lifetimes q (List.mem_append_left _ hq)
    have shortest' := ih' fun q hq => lifetimes q (List.mem_append_right _ hq)
    obtain ⟨_, shared, _⟩ := sequence_declares first.isCacheable second.isCacheable made
    exact sharedTtl_isShortest lifetimes shortest shortest' shared

/-- The cache of a tree of sequences lasts no longer than the cache of a leaf just when the leaf's
lasts forever, or some leaf declares a time to live that is at most the leaf's, be that declared or
the default of its settings. Then a result that is stale for the leaf at some age is stale for the
tree at that age. -/
theorem sequence_lastsAtMost_iff {id : Nat} {a b : Morph} {name : Value} {m : Morph}
    {xs ys : List Morph} (first : SequenceOf a xs) (second : SequenceOf b ys)
    (made : sequence id a b name = .ok m)
    (durations : ∀ leaf ∈ xs ++ ys, ∀ slot, leaf.head.cache = some slot →
      IsDuration slot.rule.ttl) :
    ∃ root, m.head.cache = some root ∧ ∀ leaf ∈ xs ++ ys, ∃ part,
      leaf.head.cache = some part ∧
      (LastsAtMost root.rule.ttl part.rule.ttl ↔
        part.rule.ttl = .none ∨ ∃ other ∈ xs ++ ys, ∃ q, other.metadata.cacheTtl = some q ∧
          LastsAtMost q.given part.rule.ttl) ∧
      (LastsAtMost root.rule.ttl part.rule.ttl →
        ∀ cells now storedAt age, Value.minus now storedAt = .ok (.ofNumber age) →
          CacheRule.isStale cells part.rule.ttl now storedAt = .ok true →
          CacheRule.isStale cells root.rule.ttl now storedAt = .ok true) := by
  have tree : SequenceOf m (xs ++ ys) := .sequence first second made
  have lifetimes := tree.declares_lifetimes durations
  have shortest := tree.isShortest lifetimes
  obtain ⟨cacheable, _, goes⟩ := sequence_declares first.isCacheable second.isCacheable made
  obtain ⟨root, cached, _⟩ := tree.made.cachesAsDeclared cacheable
  have duration : IsDuration root.rule.ttl := by
    rw [goes root cached]
    exact shortest.isDuration lifetimes
  refine ⟨root, cached, fun leaf among => ?_⟩
  obtain ⟨part, partCached, _⟩ := tree.leaf_cached leaf among
  have duration' := durations leaf among part partCached
  refine ⟨part, partCached, ?_, fun short cells now storedAt age aged stale =>
    short.isStale duration duration' aged stale⟩
  rw [goes root cached, shortest.lastsAtMost_iff lifetimes duration']
  constructor
  · rintro (endless | ⟨q, hq, short⟩)
    · exact Or.inl endless
    · obtain ⟨other, among', declared⟩ := mem_declaredTtls.mp hq
      exact Or.inr ⟨other, among', q, declared, short⟩
  · rintro (endless | ⟨other, among', q, declared, short⟩)
    · exact Or.inl endless
    · exact Or.inr ⟨q, mem_declaredTtls.mpr ⟨other, among', declared⟩, short⟩

/-- What is declared about a morph that is pure and memoizable. -/
def memoized (declared : Option Quantity) : MorphMetadata :=
  { MorphMetadata.default with memoizable := true, cacheTtl := declared }

def memoizedSlot (name : Text) (ttl : Value) : CacheSlot :=
  ⟨⟨.text name, ttl, 1024, .whole⟩, .int 1024, .still⟩

/-- A leaf that declares to stay fresh for a minute. -/
def declaringMorph : Morph :=
  .simple ⟨0, "declaring", memoized (some (.ofInt 60)), some (memoizedSlot "declaring" (.int 60)),
    fun _ => rfl⟩ (.function 0 false)

/-- A leaf that goes by a default of five seconds. -/
def defaultingMorph : Morph :=
  .simple ⟨1, "defaulting", memoized none, some (memoizedSlot "defaulting" (.int 5)), fun _ => rfl⟩
    (.function 1 false)

def timedSequence : Morph :=
  .composed ⟨2, "both", { memoized (some (.ofInt 60)) with cost := .ofInt 2 },
    some (memoizedSlot "both" (.int 60)), fun _ => rfl⟩ [declaringMorph, defaultingMorph] none

/-- The sequence of the two leaves keeps results for a minute. That is no longer than the first, but
longer than the second. -/
theorem timedSequence_lastsAtMost :
    sequence 2 declaringMorph defaultingMorph (.text "both") = .ok timedSequence ∧
      timedSequence.head.cache.map (·.rule.ttl) = some (.int 60) ∧
      declaringMorph.head.cache.map (·.rule.ttl) = some (.int 60) ∧
      defaultingMorph.head.cache.map (·.rule.ttl) = some (.int 5) ∧
      LastsAtMost (.int 60) (.int 60) ∧ ¬ LastsAtMost (.int 60) (.int 5) := by
  have declaring : create 0 (.text "declaring") (.function 0 false) .none EngineSettings.default
      [("memoizable", .bool true), ("cache_ttl", .int 60)] = .ok declaringMorph := rfl
  have defaulting : create 1 (.text "defaulting") (.function 1 false) .none
      (EngineSettings.mk (.bool true) (.int 1024) (.int 5) .still)
      [("memoizable", .bool true)] = .ok defaultingMorph := rfl
  have made : sequence 2 declaringMorph defaultingMorph (.text "both") = .ok timedSequence := rfl
  have durations : ∀ leaf ∈ [declaringMorph] ++ [defaultingMorph], ∀ slot,
      leaf.head.cache = some slot → IsDuration slot.rule.ttl := by
    intro leaf among slot cached
    rcases List.mem_pair.mp among with rfl | rfl
    · cases cached
      exact Or.inr ⟨.int 60, rfl, rfl⟩
    · cases cached
      exact Or.inr ⟨.int 5, rfl, rfl⟩
  obtain ⟨root, cached, leaves⟩ :=
    sequence_lastsAtMost_iff (.leaf declaring rfl) (.leaf defaulting rfl) made durations
  cases cached
  obtain ⟨long, cached, covered, _⟩ := leaves declaringMorph (by simp)
  cases cached
  obtain ⟨brief, cached, outlived, _⟩ := leaves defaultingMorph (by simp)
  cases cached
  have within : LastsAtMost (.int 60) (.int 60) := Or.inr ⟨nofun, rfl⟩
  have longer : LastsAtMost (.int 60) (.int 60) :=
    covered.mpr (Or.inr ⟨declaringMorph, by simp, _, rfl, within⟩)
  refine ⟨made, rfl, rfl, rfl, longer, fun short => ?_⟩
  rcases outlived.mp short with none | ⟨other, among, q, declared, below⟩
  · cases none
  · rcases List.mem_pair.mp among with rfl | rfl
    · cases declared
      rcases below with none | ⟨_, below⟩
      · cases none
      · cases below
    · cases declared

end Morph

end MorphEngine
