import MorphEngine.Proofs.Trees.Freshness

/-!
# What sequences of sequences declare

A sequence of two morphs goes by both their names, is pure, fusible and memoizable when both are, and
costs what both cost. It declares the shorter of the times to live, and of two that are alike the
first. So in a sequence of three it makes no difference which two are put together first, as long as
costs are whole numbers and the times to live compare as numbers do.
-/

namespace MorphEngine

open Fusion

/-! ### Times to live in an order -/

/-- Any two of some times to live can be compared, and they do so as in a linear order with ties. -/
structure AreOrdered (qs : List Quantity) : Prop where
  compares : ∀ p ∈ qs, ∀ q ∈ qs, ∃ b, Value.less [] p.given q.given = .ok b
  trans : ∀ p ∈ qs, ∀ q ∈ qs, ∀ r ∈ qs, Value.less [] p.given q.given = .ok true →
    Value.less [] q.given r.given = .ok true → Value.less [] p.given r.given = .ok true
  not_trans : ∀ p ∈ qs, ∀ q ∈ qs, ∀ r ∈ qs, Value.less [] p.given q.given = .ok false →
    Value.less [] q.given r.given = .ok false → Value.less [] p.given r.given = .ok false

theorem AreOrdered.mono {ps qs : List Quantity} (ordered : AreOrdered qs) (sub : ps ⊆ qs) :
    AreOrdered ps where
  compares p hp q hq := ordered.compares p (sub hp) q (sub hq)
  trans p hp q hq r hr := ordered.trans p (sub hp) q (sub hq) r (sub hr)
  not_trans p hp q hq r hr := ordered.not_trans p (sub hp) q (sub hq) r (sub hr)

/-- Numbers other than not-a-number are ordered. -/
theorem areOrdered_of_isDuration {qs : List Quantity} (durations : ∀ q ∈ qs, IsDuration q.given) :
    AreOrdered qs := by
  have number : ∀ q ∈ qs, ∃ x : Number, q.given = .ofNumber x ∧ x.toExact?.isSome = true :=
    fun q hq => Quantity.exists_number (durations q hq)
  have less (x y : Number) : Value.less [] (.ofNumber x) (.ofNumber y) = .ok (x.lt y) :=
    MemoCache.relates_ofNumber [] .less x y
  refine ⟨fun p hp q hq => ?_, fun p hp q hq r hr => ?_, fun p hp q hq r hr => ?_⟩
  · obtain ⟨x, px, _⟩ := number p hp
    obtain ⟨y, qy, _⟩ := number q hq
    exact ⟨x.lt y, by rw [px, qy, less]⟩
  · obtain ⟨x, px, _⟩ := number p hp
    obtain ⟨y, qy, _⟩ := number q hq
    obtain ⟨z, rz, _⟩ := number r hr
    rw [px, qy, rz, less, less, less, Except.ok.injEq, Except.ok.injEq, Except.ok.injEq]
    exact Number.lt_trans
  · obtain ⟨x, px, exact⟩ := number p hp
    obtain ⟨y, qy, exact'⟩ := number q hq
    obtain ⟨z, rz, exact''⟩ := number r hr
    rw [px, qy, rz, less, less, less, Except.ok.injEq, Except.ok.injEq, Except.ok.injEq]
    intro first second
    have yx : y.le x = true := Number.le_of_not_lt exact exact' first
    have zy : z.le y = true := Number.le_of_not_lt exact' exact'' second
    exact Number.not_lt_of_le (Number.le_trans zy yx)

namespace Morph

/-- A time to live that counts, if it is there. -/
def Counts (t : Option Quantity) : Prop := ∀ q, t = some q → q.given.truthy = true

theorem counts_filter (t : Option Quantity) : Counts (t.filter (·.given.truthy)) :=
  fun _ kept => (Option.filter_eq_some_iff.mp kept).2

theorem sharedTtl_filter_left (a b : Option Quantity) :
    sharedTtl (a.filter (·.given.truthy)) b = sharedTtl a b := by
  simp only [sharedTtl, List.filter_append, Option.toList_filter, List.filter_filter, Bool.and_self]

theorem sharedTtl_filter_right (a b : Option Quantity) :
    sharedTtl a (b.filter (·.given.truthy)) = sharedTtl a b := by
  simp only [sharedTtl, List.filter_append, Option.toList_filter, List.filter_filter, Bool.and_self]

section Counting

variable {t : Option Quantity} {p q : Quantity}

theorem sharedTtl_none_left (counts : Counts t) : sharedTtl none t = .ok t := by
  cases t with
  | none => rfl
  | some q => simp [sharedTtl, counts q rfl]

theorem sharedTtl_none_right (counts : Counts t) : sharedTtl t none = .ok t := by
  cases t with
  | none => rfl
  | some q => simp [sharedTtl, counts q rfl]

/-- Of two times to live that count the second is taken if it comes before the first. -/
theorem sharedTtl_some (counts : Counts (some p)) (counts' : Counts (some q)) {b : Bool}
    (compared : Value.less [] q.given p.given = .ok b) :
    sharedTtl (some p) (some q) = .ok (some (if b then q else p)) := by
  have shared : sharedTtl (some p) (some q) =
      (do return some (if ← Value.less [] q.given p.given then q else p)) := by
    simp [sharedTtl, counts p rfl, counts' q rfl]
  rw [shared, compared]
  rfl

end Counting

/-- Times to live in an order have a shorter one, which is one of them. -/
theorem exists_sharedTtl_of_counts {a b : Option Quantity} (counts : Counts a)
    (counts' : Counts b) (ordered : AreOrdered (a.toList ++ b.toList)) :
    ∃ t, sharedTtl a b = .ok t ∧ (t = a ∨ t = b) := by
  cases a with
  | none => exact ⟨b, sharedTtl_none_left counts', Or.inr rfl⟩
  | some p =>
    cases b with
    | none => exact ⟨some p, sharedTtl_none_right counts, Or.inl rfl⟩
    | some q =>
      obtain ⟨less, compared⟩ := ordered.compares q (by simp) p (by simp)
      refine ⟨_, sharedTtl_some counts counts' compared, ?_⟩
      cases less
      · exact Or.inl rfl
      · exact Or.inr rfl

theorem sharedTtl_assoc_of_counts {a b c : Option Quantity} (counts : Counts a)
    (counts' : Counts b) (counts'' : Counts c)
    (ordered : AreOrdered (a.toList ++ b.toList ++ c.toList)) :
    (sharedTtl a b >>= fun t => sharedTtl t c) = (sharedTtl b c >>= fun t => sharedTtl a t) := by
  cases b with
  | none => rw [sharedTtl_none_right counts, sharedTtl_none_left counts'']; rfl
  | some q =>
    cases a with
    | none =>
      obtain ⟨t, shared, chosen⟩ := exists_sharedTtl_of_counts counts' counts'' ordered
      have counting : Counts t := by rcases chosen with rfl | rfl <;> assumption
      rw [sharedTtl_none_left counts', shared]
      exact shared.trans (sharedTtl_none_left counting).symm
    | some p =>
      cases c with
      | none =>
        obtain ⟨t, shared, chosen⟩ := exists_sharedTtl_of_counts counts counts' ordered
        have counting : Counts t := by rcases chosen with rfl | rfl <;> assumption
        rw [sharedTtl_none_right counts', shared]
        exact (sharedTtl_none_right counting).trans shared.symm
      | some r =>
        obtain ⟨qp, second⟩ := ordered.compares q (by simp) p (by simp)
        obtain ⟨rq, third⟩ := ordered.compares r (by simp) q (by simp)
        obtain ⟨rp, last⟩ := ordered.compares r (by simp) p (by simp)
        have first := sharedTtl_some counts counts' second
        have other := sharedTtl_some counts' counts'' third
        have outer := sharedTtl_some counts counts'' last
        rw [first, other]
        cases qp with
        | true =>
          cases rq with
          | true =>
            have above := ordered.trans r (by simp) q (by simp) p (by simp) third second
            rw [last] at above
            cases above
            exact other.trans outer.symm
          | false => exact other.trans first.symm
        | false =>
          cases rq with
          | true => rfl
          | false =>
            have below := ordered.not_trans r (by simp) q (by simp) p (by simp) third second
            rw [last] at below
            cases below
            exact outer.trans first.symm

theorem toList_filter_subset (t : Option Quantity) :
    (t.filter (·.given.truthy)).toList ⊆ t.toList := by
  rw [Option.toList_filter]
  exact List.filter_subset_self _

/-- Times to live in an order have a shorter one, which is one of them. -/
theorem exists_sharedTtl {a b : Option Quantity} (ordered : AreOrdered (a.toList ++ b.toList)) :
    ∃ t, sharedTtl a b = .ok t ∧ t.toList ⊆ a.toList ++ b.toList := by
  rw [← sharedTtl_filter_left, ← sharedTtl_filter_right]
  have first := toList_filter_subset a
  have second := toList_filter_subset b
  have smaller := ordered.mono (List.append_subset.mpr
    ⟨fun _ h => List.mem_append_left _ (first h), fun _ h => List.mem_append_right _ (second h)⟩)
  obtain ⟨t, shared, chosen⟩ :=
    exists_sharedTtl_of_counts (counts_filter a) (counts_filter b) smaller
  refine ⟨t, shared, fun q hq => ?_⟩
  rcases chosen with rfl | rfl
  · exact List.mem_append_left _ (first hq)
  · exact List.mem_append_right _ (second hq)

/-- Of three times to live in an order the first of the shortest is found, whichever two are compared
first. -/
theorem sharedTtl_assoc {a b c : Option Quantity}
    (ordered : AreOrdered (a.toList ++ b.toList ++ c.toList)) :
    (sharedTtl a b >>= fun t => sharedTtl t c) = (sharedTtl b c >>= fun t => sharedTtl a t) := by
  have counted := sharedTtl_assoc_of_counts (counts_filter a) (counts_filter b) (counts_filter c)
    (ordered.mono ?_)
  · simpa only [sharedTtl_filter_left, sharedTtl_filter_right] using counted
  · intro q hq
    simp only [List.mem_append] at hq ⊢
    exact hq.imp (Or.imp (toList_filter_subset a ·) (toList_filter_subset b ·))
      (toList_filter_subset c ·)

end Morph

/-! ### Costs that are whole numbers -/

theorem Quantity.order?_of_int {q : Quantity} {n : Int} (whole : q.given.int? = some n) :
    q.order? = some (compare n 0) := by
  obtain ⟨v, measures⟩ := q
  dsimp only at whole
  unfold Value.int? at whole
  split at whole
  all_goals cases whole
  all_goals rfl

namespace Morph

/-- A morph that costs a whole number. -/
def HasWholeCost (m : Morph) : Prop := ∃ n, m.cost.given.int? = some n

theorem plus_int {v w : Value} {m n : Int} (first : v.int? = some m) (second : w.int? = some n) :
    v.plus w = .ok (.int (m + n)) := by
  unfold Value.int? at first second
  split at first
  all_goals cases first <;> split at second <;> cases second <;> rfl

end Morph

namespace MorphMetadata

theorem readCost_eq_ok {v : Value} {q : Quantity} (read : readCost v = .ok q) :
    q.given = v ∧ q.meetsZero .less = false := by
  unfold readCost at read
  split at read
  · next q' measured =>
    by_cases less : q'.meetsZero .less = true
    · rw [if_pos less] at read
      obtain ⟨_, _, refused⟩ := bind_eq_ok read
      cases refused
    · rw [if_neg less] at read
      cases read
      rw [Quantity.ofValue?] at measured
      split at measured
      · cases measured
        exact ⟨rfl, Bool.eq_false_iff.mpr less⟩
      · cases measured
  · obtain ⟨_, _, refused⟩ := bind_eq_ok read
    cases refused

/-- What is not negative is a cost as it stands. -/
theorem readCost_given {q : Quantity} (above : q.meetsZero .less = false) :
    readCost q.given = .ok q := by
  rw [readCost, Quantity.ofValue?, dif_pos q.measures]
  exact if_neg (Bool.eq_false_iff.mp above)

theorem cost_of_coerce {v : Value} {overrides : Fields} {m : MorphMetadata}
    (coerced : coerce v overrides = .ok m) : m.cost.meetsZero .less = false := by
  obtain ⟨fs, made⟩ := read_of_coerce coerced
  exact (readCost_eq_ok (measures_of_read made).1).2

end MorphMetadata

namespace Morph

theorem composedMetadata_coerced {steps : List Morph} {finish : Option Value} {metadata : Value}
    {d : MorphMetadata} (derived : composedMetadata steps finish metadata = .ok (.ok d)) :
    ∃ v overrides, MorphMetadata.coerce v overrides = .ok d := by
  obtain ⟨total, _, derived⟩ := bind_eq_ok derived
  obtain ⟨cost, _, derived⟩ := bind_eq_ok derived
  dsimp only at derived
  split at derived
  · obtain ⟨d', coerced, derived⟩ := bind_eq_ok derived
    cases derived
    exact ⟨_, _, coerced⟩
  · obtain ⟨d', coerced, derived⟩ := bind_eq_ok derived
    cases derived
    exact ⟨_, _, coerced⟩
  · cases derived

/-- What is declared about a sequence with a finish was read from somewhere. -/
theorem compose_coerced {id : Nat} {name : Value} {steps : List (Value × Option Morph)}
    {finish metadata : Value} {settings : CacheSettings} {m : Morph}
    (made : compose id name steps finish metadata settings = .ok m) :
    ∃ v overrides, MorphMetadata.coerce v overrides = .ok m.metadata := by
  obtain ⟨parts, last, read, d, head, _, derived, given, header, rfl⟩ := compose_reads made
  obtain ⟨_, _, declared⟩ := makeHeader_eq_ok header
  have same : (composed head parts last).metadata = d := declared
  rw [same]
  rcases given with rfl | ⟨v, _, coerced⟩
  · exact composedMetadata_coerced derived
  · exact ⟨v, [], coerced⟩

/-! ### What a sequence declares -/

/-- The time to live that a sequence of two morphs declares. -/
def lifetimeOfBoth (a b : Morph) : Except Fault (Option Quantity) :=
  if a.isMemoizable && b.isMemoizable then sharedTtl a.metadata.cacheTtl b.metadata.cacheTtl
  else .ok none

/-- What is declared about a sequence of two morphs. -/
def metadataOfBoth (a b : Morph) (cost : Quantity) (ttl : Option Quantity) : MorphMetadata :=
  { MorphMetadata.default with
    pure := a.isPure && b.isPure
    fusible := a.isFusible && b.isFusible
    cost := cost
    memoizable := a.isMemoizable && b.isMemoizable
    cacheTtl := ttl }

/-- The name of a sequence that is given none. -/
def titleOfBoth (a b : Morph) : Text := a.name.plain ++ "➝" ++ b.name.plain

theorem sequence_eq (id : Nat) (a b : Morph) (name : Value) :
    sequence id a b name = do
      let title ← name.orElse (.text (titleOfBoth a b))
      let total ← a.cost.given.plus b.cost.given
      let ttl ← lifetimeOfBoth a b
      let cost ← MorphMetadata.readCost total
      let head ← makeHeader id title (metadataOfBoth a b cost ttl) EngineSettings.default
      return composed head [a, b] none := by
  refine bind_congr fun title => bind_congr fun total => ?_
  unfold lifetimeOfBoth
  split
  · rfl
  · rfl

/-- What two morphs have to do with their sequence by what is declared about it. -/
structure DeclaresBoth (a b m : Morph) : Prop where
  isPure : m.isPure = (a.isPure && b.isPure)
  isFusible : m.isFusible = (a.isFusible && b.isFusible)
  isMemoizable : m.isMemoizable = (a.isMemoizable && b.isMemoizable)
  isAsync : m.isAsync = (a.isAsync || b.isAsync)
  cost : a.cost.given.plus b.cost.given = .ok m.cost.given
  positive : m.cost.meetsZero .less = false
  lifetime : lifetimeOfBoth a b = .ok m.metadata.cacheTtl

theorem sequence_declaresBoth {id : Nat} {a b : Morph} {name : Value} {m : Morph}
    (made : sequence id a b name = .ok m) : DeclaresBoth a b m := by
  rw [sequence_eq] at made
  obtain ⟨title, _, made⟩ := bind_eq_ok made
  obtain ⟨total, summed, made⟩ := bind_eq_ok made
  obtain ⟨ttl, shared, made⟩ := bind_eq_ok made
  obtain ⟨cost, costs, made⟩ := bind_eq_ok made
  obtain ⟨head, header, made⟩ := bind_eq_ok made
  cases made
  obtain ⟨_, _, declared⟩ := makeHeader_eq_ok header
  obtain ⟨given, positive⟩ := MorphMetadata.readCost_eq_ok costs
  have holds : (composed head [a, b] none).metadata = metadataOfBoth a b cost ttl := declared
  refine ⟨?_, ?_, ?_, ?_, ?_, ?_, ?_⟩
  · rw [Morph.isPure, holds]
    rfl
  · rw [Morph.isFusible, holds]
    rfl
  · rw [Morph.isMemoizable, holds]
    rfl
  · have open' : head.metadata.isAsync = none := by
      rw [declared]
      rfl
    simp [Morph.isAsync, open', anyAsync]
  · rw [summed, Morph.cost, holds, metadataOfBoth, given]
  · rw [Morph.cost, holds]
    exact positive
  · rw [shared, holds]
    rfl

/-- A sequence that is given no name goes by those of both morphs. -/
theorem sequence_name {id : Nat} {a b m : Morph} (made : sequence id a b .none = .ok m) :
    m.name = .ofText (titleOfBoth a b) := by
  rw [sequence_eq] at made
  obtain ⟨title, titled, made⟩ := bind_eq_ok made
  obtain ⟨total, _, made⟩ := bind_eq_ok made
  obtain ⟨ttl, _, made⟩ := bind_eq_ok made
  obtain ⟨cost, _, made⟩ := bind_eq_ok made
  obtain ⟨head, header, made⟩ := bind_eq_ok made
  cases made
  cases titled
  obtain ⟨_, named, _⟩ := makeHeader_eq_ok header
  exact readName_given (n := .ofText (titleOfBoth a b)) named

/-- No morph costs less than nothing. -/
theorem Made.cost_not_negative {m : Morph} (made : m.Made) : m.cost.meetsZero .less = false := by
  cases made with
  | function made =>
    obtain ⟨d, head, coerced, rfl, header⟩ := create_eq_ok made
    obtain ⟨_, _, declared⟩ := makeHeader_eq_ok header
    have costs := MorphMetadata.cost_of_coerce coerced
    rwa [← declared] at costs
  | composition parts made =>
    obtain ⟨v, overrides, coerced⟩ := compose_coerced made
    exact MorphMetadata.cost_of_coerce coerced
  | condition part made =>
    unfold conditionalOn at made
    dsimp only at made
    split at made
    · obtain ⟨total, _, made⟩ := bind_eq_ok made
      obtain ⟨cost, costs, made⟩ := bind_eq_ok made
      obtain ⟨head, header, made⟩ := bind_eq_ok made
      cases made
      obtain ⟨_, _, declared⟩ := makeHeader_eq_ok header
      rw [Morph.cost, Morph.metadata, Morph.head, declared]
      exact (MorphMetadata.readCost_eq_ok costs).2
    · obtain ⟨_, _, made⟩ := bind_eq_ok made
      obtain ⟨_, refused, _⟩ := bind_eq_ok made
      cases refused
  | sameness made =>
    obtain ⟨head, header, made⟩ := bind_eq_ok made
    cases made
    obtain ⟨_, _, declared⟩ := makeHeader_eq_ok header
    rw [cost, Morph.metadata, Morph.head, declared]
    rfl
  | succession first second made => exact (sequence_declaresBoth made).positive
  | fusion parts made =>
    obtain ⟨total, _, made⟩ := bind_eq_ok made
    obtain ⟨cost, costs, made⟩ := bind_eq_ok made
    obtain ⟨head, header, made⟩ := bind_eq_ok made
    cases made
    obtain ⟨_, _, declared⟩ := makeHeader_eq_ok header
    rw [Morph.cost, Morph.metadata, Morph.head, declared]
    exact (MorphMetadata.readCost_eq_ok costs).2
  | build parts built =>
    obtain ⟨total, _, costs⟩ := bind_eq_ok built.cost_eq
    exact (MorphMetadata.readCost_eq_ok costs).2

/-! ### Three in a row -/

theorem declaredTtls_cons (m : Morph) (rest : List Morph) :
    declaredTtls (m :: rest) = m.metadata.cacheTtl.toList ++ declaredTtls rest := by
  cases declared : m.metadata.cacheTtl <;> simp [declaredTtls, declared]

theorem declaredTtls_singleton (m : Morph) :
    declaredTtls [m] = m.metadata.cacheTtl.toList := by
  rw [declaredTtls_cons]
  exact List.append_nil _

section Both

variable {a b m : Morph} (both : DeclaresBoth a b m)

include both

theorem DeclaresBoth.hasWholeCost (whole : a.HasWholeCost) (whole' : b.HasWholeCost) :
    m.HasWholeCost := by
  obtain ⟨k, ak⟩ := whole
  obtain ⟨n, bn⟩ := whole'
  have total : m.cost.given = .int (k + n) := Except.ok.inj (both.cost.symm.trans (plus_int ak bn))
  exact ⟨k + n, by rw [total]; rfl⟩

theorem DeclaresBoth.declaredTtls_subset (ordered : AreOrdered (declaredTtls [a, b])) :
    declaredTtls [m] ⊆ declaredTtls [a, b] := by
  have listed : declaredTtls [a, b] = a.metadata.cacheTtl.toList ++ b.metadata.cacheTtl.toList := by
    rw [declaredTtls_cons, declaredTtls_singleton]
  rw [listed] at ordered ⊢
  rw [declaredTtls_singleton]
  have shared := both.lifetime
  unfold lifetimeOfBoth at shared
  split at shared
  · obtain ⟨t, chosen, among⟩ := exists_sharedTtl ordered
    rwa [Except.ok.inj (chosen.symm.trans shared)] at among
  · rw [← Except.ok.inj shared]
    exact List.nil_subset _

end Both

section Three

variable {a b c ab bc l r : Morph} (first : DeclaresBoth a b ab) (left : DeclaresBoth ab c l)
  (second : DeclaresBoth b c bc) (right : DeclaresBoth a bc r)

include first left second right

theorem DeclaresBoth.flags_assoc :
    l.isPure = r.isPure ∧ l.isFusible = r.isFusible ∧ l.isMemoizable = r.isMemoizable ∧
      l.isAsync = r.isAsync := by
  refine ⟨?_, ?_, ?_, ?_⟩
  · rw [left.isPure, first.isPure, right.isPure, second.isPure, Bool.and_assoc]
  · rw [left.isFusible, first.isFusible, right.isFusible, second.isFusible, Bool.and_assoc]
  · rw [left.isMemoizable, first.isMemoizable, right.isMemoizable, second.isMemoizable,
      Bool.and_assoc]
  · rw [left.isAsync, first.isAsync, right.isAsync, second.isAsync, Bool.or_assoc]

theorem DeclaresBoth.cost_assoc (whole : ∀ m ∈ [a, b, c], m.HasWholeCost) : l.cost = r.cost := by
  obtain ⟨i, ai⟩ := whole a (by simp)
  obtain ⟨j, bj⟩ := whole b (by simp)
  obtain ⟨k, ck⟩ := whole c (by simp)
  have costs : ab.cost.given = .int (i + j) := Except.ok.inj (first.cost.symm.trans (plus_int ai bj))
  have costs' : bc.cost.given = .int (j + k) := Except.ok.inj (second.cost.symm.trans (plus_int bj ck))
  have total : l.cost.given = .int (i + j + k) := by
    refine Except.ok.inj (left.cost.symm.trans (plus_int ?_ ck))
    rw [costs]
    rfl
  have total' : r.cost.given = .int (i + (j + k)) := by
    refine Except.ok.inj (right.cost.symm.trans (plus_int ai ?_))
    rw [costs']
    rfl
  have same : l.cost.given = r.cost.given := by rw [total, total', Int.add_assoc]
  cases hl : l.cost
  cases hr : r.cost
  simp_all

theorem DeclaresBoth.cacheTtl_assoc (ordered : AreOrdered (declaredTtls [a, b, c])) :
    l.metadata.cacheTtl = r.metadata.cacheTtl := by
  have shared := first.lifetime
  have shared' := second.lifetime
  have outer := left.lifetime
  have outer' := right.lifetime
  unfold lifetimeOfBoth at shared shared' outer outer'
  rw [first.isMemoizable] at outer
  rw [second.isMemoizable] at outer'
  -- Unless all three are memoizable, no sequence of them is, and none declares a time to live.
  cases hc : c.isMemoizable <;> cases hb : b.isMemoizable <;> cases ha : a.isMemoizable <;>
    simp only [ha, hb, hc, Bool.and_true, Bool.and_false, Bool.and_self, if_true, if_false,
      Bool.false_eq_true] at shared shared' outer outer'
  case true.true.true =>
    rw [declaredTtls_cons, declaredTtls_cons, declaredTtls_singleton, ← List.append_assoc]
      at ordered
    have assoc := sharedTtl_assoc ordered
    rw [shared, shared'] at assoc
    exact Except.ok.inj (outer.symm.trans (assoc.trans outer'))
  all_goals exact (Except.ok.inj outer).symm.trans (Except.ok.inj outer')

end Three

/-! ### Sequences that can be made -/

theorem exists_header (id : Nat) {title : Text} (filled : title.isEmpty = false)
    (d : MorphMetadata) :
    ∃ head, makeHeader id (.text title) d EngineSettings.default = .ok head := by
  have named : readName (Name.ofText title).given = .ok (.ofText title) := by
    have filled' : (Name.ofText title).isEmpty = false := filled
    simp only [readName, Name.ofValue?_given, filled', if_false, Bool.false_eq_true]
  have slotted : ∃ slot, cacheSlot (.ofText title) d EngineSettings.default = .ok slot := by
    unfold cacheSlot
    split
    · cases d.cacheTtl <;> exact ⟨_, rfl⟩
    · exact ⟨_, rfl⟩
  obtain ⟨slot, slotted⟩ := slotted
  refine ⟨⟨id, .ofText title, d, slot.val, slot.property⟩, ?_⟩
  change (readName (Name.ofText title).given >>= _) = _
  rw [named]
  change (cacheSlot (.ofText title) d EngineSettings.default >>= _) = _
  rw [slotted]
  rfl

theorem titleOfBoth_isEmpty (a b : Morph) : (titleOfBoth a b).isEmpty = false := by
  rw [titleOfBoth, Text.isEmpty, Text.points_append, Text.points_append, List.isEmpty_eq_false_iff]
  refine List.append_ne_nil_of_left_ne_nil (List.append_ne_nil_of_right_ne_nil _ ?_) _
  show [_] ≠ []
  exact List.cons_ne_nil _ _

/-- A cost that is whole and a cost at all is zero or more. -/
theorem whole_cost_not_negative {m : Morph} {n : Int} (whole : m.cost.given.int? = some n)
    (positive : m.cost.meetsZero .less = false) : 0 ≤ n := by
  rw [Quantity.meetsZero, Quantity.order?_of_int whole] at positive
  refine Int.not_lt.mp fun less => ?_
  rw [compare_lt_iff_lt.mpr less] at positive
  cases positive

theorem readCost_int {n : Int} (atLeast : 0 ≤ n) :
    MorphMetadata.readCost (.int n) = .ok (.ofInt n) := by
  have positive : (Quantity.ofInt n).meetsZero .less = false := by
    rw [Quantity.meetsZero, Quantity.order?_of_int (n := n) rfl]
    refine Bool.eq_false_iff.mpr fun less => ?_
    have below : compare n 0 = .lt := by simpa [Relation.admits] using less
    exact absurd (compare_lt_iff_lt.mp below) (Int.not_lt.mpr atLeast)
  exact if_neg (Bool.eq_false_iff.mp positive)

/-- Two morphs that cost whole numbers and declare times to live in an order can be put in sequence. -/
theorem exists_sequence {a b : Morph} (whole : a.HasWholeCost) (whole' : b.HasWholeCost)
    (positive : a.cost.meetsZero .less = false) (positive' : b.cost.meetsZero .less = false)
    (ordered : AreOrdered (declaredTtls [a, b])) (id : Nat) :
    ∃ m, sequence id a b .none = .ok m := by
  obtain ⟨i, ai⟩ := whole
  obtain ⟨j, bj⟩ := whole'
  have total := plus_int ai bj
  have costs := readCost_int
    (Int.add_nonneg (whole_cost_not_negative ai positive) (whole_cost_not_negative bj positive'))
  have shared : ∃ ttl, lifetimeOfBoth a b = .ok ttl := by
    unfold lifetimeOfBoth
    split
    · rw [declaredTtls_cons, declaredTtls_singleton] at ordered
      obtain ⟨t, shared, _⟩ := exists_sharedTtl ordered
      exact ⟨t, shared⟩
    · exact ⟨none, rfl⟩
  obtain ⟨ttl, shared⟩ := shared
  obtain ⟨head, header⟩ := exists_header id (titleOfBoth_isEmpty a b)
    (metadataOfBoth a b (.ofInt (i + j)) ttl)
  refine ⟨composed head [a, b] none, ?_⟩
  rw [sequence_eq]
  change (a.cost.given.plus b.cost.given >>= _) = _
  rw [total]
  change (lifetimeOfBoth a b >>= _) = _
  rw [shared]
  change (MorphMetadata.readCost (.int (i + j)) >>= _) = _
  rw [costs]
  change (makeHeader id (.text (titleOfBoth a b)) _ EngineSettings.default >>= _) = _
  rw [header]
  rfl

end Morph

end MorphEngine
