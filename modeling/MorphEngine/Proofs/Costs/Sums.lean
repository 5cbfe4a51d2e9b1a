import MorphEngine.Proofs.Costs.Doubles
import MorphEngine.Proofs.Trees.Sequences

/-!
# Sums of costs

Costs are whole numbers of any size, and doubles. They are added from the left, starting at the
whole number zero: the sum is exact until it meets the first double and a double from there on. So
it is missing just when a whole number beyond all doubles meets a double; otherwise it is not
negative, like what it is made from.
-/

namespace MorphEngine

namespace Number

/-- A whole number that no double is close to. -/
def IsBeyond (n : Int) : Prop := (int n).toFloat? = none

/-- Numbers whose sum from the left takes a whole number beyond all doubles for a double: what was
added up before the first double, or one that comes after it. -/
def Overflows (xs : List Number) : Prop :=
  ∃ (ints : List Int) (x : Float) (rest : List Number), xs = ints.map int ++ real x :: rest ∧
    (IsBeyond ints.sum ∨ ∃ n, int n ∈ rest ∧ IsBeyond n)

/-- The sum from the left, starting at a number. -/
def addAll? (start : Number) (xs : List Number) : Option Number :=
  xs.foldlM (fun total x => total.add? x) start

variable {a b c : Number} {xs : List Number}

/-! ### Numbers that are not negative -/

theorem zero_le_int {n : Int} : zero.le (int n) = true ↔ 0 ≤ n := by
  simp [zero, le, lt, order?, toExact?, Exact.order, Int.compare_eq_lt, Int.le_iff_lt_or_eq]

theorem zero_le_real {x : Float} : zero.le (real x) = true ↔ (Real.parts x).IsNonneg := by
  cases shape : Real.parts x with
  | nan => simp [le, lt, order?, toExact?, zero, shape, Real.Parts.IsNonneg]
  | infinite negative =>
    cases negative <;>
      simp [le, lt, order?, toExact?, zero, shape, Exact.order, Real.Parts.IsNonneg]
  | finite negative m e =>
    have sign : (Real.fraction m e).1 = 0 ↔ m = 0 := by
      unfold Real.fraction
      split <;> simp
    cases negative <;>
      simp [le, lt, order?, toExact?, zero, shape, Exact.order, Real.Parts.IsNonneg,
        Int.compare_eq_lt] <;>
      omega

theorem zero_le_toFloat? (nonneg : zero.le a = true) {x : Float} (close : a.toFloat? = some x) :
    (Real.parts x).IsNonneg := by
  cases a with
  | int n =>
    unfold toFloat? at close
    dsimp only at close
    split at close
    · next finite =>
      cases close
      exact Real.Parts.isNonneg_ofInt (zero_le_int.mp nonneg) finite
    · cases close
  | real y =>
    cases close
    exact zero_le_real.mp nonneg

theorem zero_le_add? (ha : zero.le a = true) (hb : zero.le b = true) (sum : a.add? b = some c) :
    zero.le c = true := by
  have lifted {x y : Float} (hx : a.toFloat? = some x) (hy : b.toFloat? = some y) :
      zero.le (real (x + y)) = true :=
    zero_le_real.mpr (Real.Parts.isNonneg_add (zero_le_toFloat? ha hx) (zero_le_toFloat? hb hy))
  unfold add? lift? at sum
  split at sum
  · next m n =>
    cases sum
    exact zero_le_int.mpr (Int.add_nonneg (zero_le_int.mp ha) (zero_le_int.mp hb))
  · obtain ⟨x, hx, sum⟩ := Option.bind_eq_some_iff.mp sum
    obtain ⟨y, hy, sum⟩ := Option.bind_eq_some_iff.mp sum
    cases sum
    exact lifted hx hy

theorem zero_le_mul? (ha : zero.le a = true) (product : a.mul? (real 0.8) = some c) :
    zero.le c = true := by
  have lifted {x : Float} (hx : a.toFloat? = some x) : zero.le (real (x * 0.8)) = true :=
    zero_le_real.mpr (Real.Parts.isNonneg_mul (zero_le_toFloat? ha hx))
  cases a with
  | int n =>
    obtain ⟨x, hx, product⟩ := Option.bind_eq_some_iff.mp product
    cases product
    exact lifted hx
  | real x =>
    cases product
    exact lifted rfl

/-- Four fifths are missing of a whole number beyond all doubles. -/
theorem mul?_eq_none : a.mul? (real 0.8) = none ↔ ∃ n, a = int n ∧ IsBeyond n := by
  cases a <;> simp [mul?, lift?, IsBeyond, toFloat?]

/-! ### Sums from the left -/

theorem add?_real_int (x : Float) (n : Int) :
    (real x).add? (int n) = (int n).toFloat?.map fun y => real (x + y) := by
  show ((int n).toFloat?.bind fun y => some (real (x + y))) = _
  cases (int n).toFloat? <;> rfl

theorem add?_int_real (n : Int) (y : Float) :
    (int n).add? (real y) = (int n).toFloat?.map fun x => real (x + y) := by
  show ((int n).toFloat?.bind fun x => some (real (x + y))) = _
  cases (int n).toFloat? <;> rfl

theorem addAll?_cons (a x : Number) (xs : List Number) :
    addAll? a (x :: xs) = (a.add? x).bind fun b => addAll? b xs := List.foldlM_cons

/-- A sum that is a double already is missing once it meets a whole number beyond all doubles. -/
theorem addAll?_real {x : Float} : addAll? (real x) xs = none ↔ ∃ n, int n ∈ xs ∧ IsBeyond n := by
  induction xs generalizing x with
  | nil => simp [addAll?]
  | cons y ys ih =>
    rw [addAll?_cons]
    cases y with
    | int n =>
      rw [add?_real_int]
      cases close : (int n).toFloat? with
      | none => exact iff_of_true rfl ⟨n, List.mem_cons_self, close⟩
      | some z =>
        have near : ¬IsBeyond n := by simp [IsBeyond, close]
        simp [ih, or_and_right, exists_or, near]
    | real y =>
      have goes : (real x).add? (real y) = some (real (x + y)) := rfl
      simp [goes, ih]

/-- A sum that is whole so far also is missing when it meets a double beyond which it has got. -/
theorem addAll?_int {k : Int} : addAll? (int k) xs = none ↔
    ∃ (ints : List Int) (x : Float) (rest : List Number), xs = ints.map int ++ real x :: rest ∧
      (IsBeyond (k + ints.sum) ∨ ∃ n, int n ∈ rest ∧ IsBeyond n) := by
  induction xs generalizing k with
  | nil => simp [addAll?]
  | cons y ys ih =>
    rw [addAll?_cons]
    cases y with
    | int n =>
      have goes : (int k).add? (int n) = some (int (k + n)) := rfl
      rw [goes, Option.bind_some, ih]
      constructor
      · rintro ⟨ints, x, rest, rfl, beyond⟩
        exact ⟨n :: ints, x, rest, rfl, by simpa [Int.add_assoc] using beyond⟩
      · rintro ⟨ints, x, rest, parted, beyond⟩
        cases ints with
        | nil => cases parted
        | cons m ints =>
          cases parted
          exact ⟨ints, x, rest, rfl, by simpa [Int.add_assoc] using beyond⟩
    | real y =>
      rw [add?_int_real]
      have first : ∀ (ints : List Int) (x : Float) (rest : List Number),
          real y :: ys = ints.map int ++ real x :: rest ↔ ints = [] ∧ x = y ∧ rest = ys := by
        intro ints x rest
        cases ints <;> simp [eq_comm]
      simp only [first]
      cases close : (int k).toFloat? with
      | none =>
        have beyond : IsBeyond (k + 0) := by simpa [IsBeyond] using close
        exact iff_of_true rfl ⟨[], y, ys, ⟨rfl, rfl, rfl⟩, Or.inl beyond⟩
      | some x =>
        have near : ¬IsBeyond k := by simp [IsBeyond, close]
        simp [addAll?_real, near]

/-- The sum from the left is missing just when it overflows. -/
theorem addAll?_eq_none : addAll? zero xs = none ↔ Overflows xs := by
  rw [zero, addAll?_int, Overflows]
  simp only [Int.zero_add]

theorem not_isBeyond_zero : ¬IsBeyond 0 := by
  unfold IsBeyond toFloat?
  decide +kernel

theorem not_isBeyond_one : ¬IsBeyond 1 := by
  unfold IsBeyond toFloat?
  decide +kernel

/-- A sum is missing when one of two numbers is a double and the other beyond all doubles. -/
theorem add?_eq_none : a.add? b = none ↔
    (∃ n x, a = int n ∧ b = real x ∧ IsBeyond n) ∨ ∃ n x, a = real x ∧ b = int n ∧ IsBeyond n := by
  cases a <;> cases b <;> simp [add?, lift?, IsBeyond, toFloat?]

/-- Two numbers have no sum just when they overflow. -/
theorem add?_eq_none_iff : a.add? b = none ↔ Overflows [a, b] := by
  rw [add?_eq_none]
  constructor
  · rintro (⟨n, x, rfl, rfl, beyond⟩ | ⟨n, x, rfl, rfl, beyond⟩)
    · exact ⟨[n], x, [], rfl, Or.inl (by simpa using beyond)⟩
    · exact ⟨[], x, [int n], rfl, Or.inr ⟨n, List.mem_cons_self, beyond⟩⟩
  · rintro ⟨ints, x, rest, parted, beyond⟩
    match ints with
    | [] =>
      cases parted
      rcases beyond with beyond | ⟨n, among, beyond⟩
      · exact absurd beyond not_isBeyond_zero
      · exact Or.inr ⟨n, x, rfl, (List.mem_singleton.mp among).symm, beyond⟩
    | [n] =>
      cases parted
      rcases beyond with beyond | ⟨_, among, _⟩
      · exact Or.inl ⟨n, x, rfl, rfl, by simpa using beyond⟩
      · cases among
    | _ :: _ :: _ => simp at parted

/-- What is added up from numbers that are not negative is not negative. -/
theorem zero_le_addAll? (ha : zero.le a = true) (nonneg : ∀ x ∈ xs, zero.le x = true)
    (sum : addAll? a xs = some c) : zero.le c = true := by
  induction xs generalizing a with
  | nil =>
    cases sum
    exact ha
  | cons x xs ih =>
    obtain ⟨hx, others⟩ := List.forall_mem_cons.mp nonneg
    rw [addAll?_cons] at sum
    obtain ⟨b, first, rest⟩ := Option.bind_eq_some_iff.mp sum
    exact ih (zero_le_add? ha hx first) others rest

end Number

/-! ### Values that are numbers -/

/-- A value that is a number as such: a whole one, or a double. -/
def Value.Counts (v : Value) : Number → Prop
  | .int n => v.int? = some n
  | .real x => v = .real x

namespace Value.Counts

variable {v w : Value} {a b : Number}

theorem ofNumber (a : Number) : (Value.ofNumber a).Counts a := by
  cases a <;> rfl

theorem number? (counts : v.Counts a) : v.number? = some a := by
  cases a with
  | int n =>
    have whole : v.int? = some n := counts
    unfold int? at whole
    split at whole <;> cases whole <;> rfl
  | real x =>
    cases counts
    rfl

/-- Numbers are added as such. -/
theorem plus (first : v.Counts a) (second : w.Counts b) :
    v.plus w = match a.add? b with
      | some c => .ok (.ofNumber c)
      | Option.none => .error .overflowingInt := by
  cases a with
  | int m =>
    have whole : v.int? = some m := first
    cases b with
    | int n => exact Morph.plus_int whole second
    | real y =>
      cases second
      unfold int? at whole
      split at whole <;> cases whole <;> rfl
  | real x =>
    cases first
    cases b with
    | int n =>
      have whole : w.int? = some n := second
      unfold int? at whole
      split at whole <;> cases whole <;> rfl
    | real y =>
      cases second
      rfl

theorem times (counts : v.Counts a) :
    v.times (.real 0.8) = match a.mul? (.real 0.8) with
      | some c => .ok (.ofNumber c)
      | Option.none => .error .overflowingInt := by
  cases a with
  | int m =>
    have whole : v.int? = some m := counts
    unfold int? at whole
    split at whole <;> cases whole <;> rfl
  | real x =>
    cases counts
    rfl

end Value.Counts

namespace Quantity

/-- A quantity that is a number, which is not negative. -/
def IsPrice (q : Quantity) : Prop := ∃ x, q.given.Counts x ∧ Number.zero.le x = true

def ofNumber (x : Number) : Quantity := ⟨.ofNumber x, by cases x <;> rfl⟩

/-- A number that is not negative is a cost. -/
theorem exists_readCost {x : Number} (nonneg : Number.zero.le x = true) :
    ∃ q : Quantity, MorphMetadata.readCost (.ofNumber x) = .ok q ∧ q.IsPrice := by
  refine ⟨ofNumber x, ?_, x, .ofNumber x, nonneg⟩
  have above : (ofNumber x).meetsZero .less = false := by
    cases x with
    | int n =>
      rw [meetsZero, order?_of_int (n := n) rfl]
      simpa [Relation.admits, Int.compare_eq_lt] using Number.zero_le_int.mp nonneg
    | real y =>
      have judged : (ofNumber (.real y)).meetsZero .less =
          Relation.less.admits ((Amount.real (Real.parts y)).order? (.whole 0)) := rfl
      have sign := Number.zero_le_real.mp nonneg
      rw [judged]
      cases shape : Real.parts y with
      | nan => rfl
      | infinite negative =>
        rw [shape] at sign
        obtain rfl : negative = false := sign
        rfl
      | finite negative m e =>
        rw [shape] at sign
        obtain rfl | rfl : negative = false ∨ m = 0 := sign
        all_goals
          simp [Amount.order?, Amount.realPart, Amount.imaginaryPart, Real.Parts.ofInt,
            Real.Parts.zero, Real.Parts.order?, Real.Parts.counted, Relation.admits,
            Int.compare_eq_lt]
  exact MorphMetadata.readCost_given above

end Quantity

namespace Morph

/-- The morph costs a number that is not negative. -/
def IsPriced (m : Morph) : Prop := m.cost.IsPrice

/-- What the morphs cost that cost numbers. -/
def prices (ms : List Morph) : List Number := ms.filterMap fun m => m.cost.given.number?

variable {m : Morph} {ms : List Morph} {a : Number}

theorem prices_cons (counts : m.cost.given.Counts a) : prices (m :: ms) = a :: prices ms :=
  List.filterMap_cons_some counts.number?

theorem zero_le_prices (priced : ∀ m ∈ ms, m.IsPriced) :
    ∀ x ∈ prices ms, Number.zero.le x = true := by
  intro x among
  obtain ⟨m, hm, number⟩ := List.mem_filterMap.mp among
  obtain ⟨y, counts, nonneg⟩ := priced m hm
  rw [counts.number?] at number
  cases number
  exact nonneg

/-- Costs are added to a number as the prices are. -/
theorem foldlM_cost (priced : ∀ m ∈ ms, m.IsPriced) (a : Number) :
    ms.foldlM (fun (total : Value) m => total.plus m.cost.given) (Value.ofNumber a) =
      match Number.addAll? a (prices ms) with
      | some c => Except.ok (Value.ofNumber c)
      | none => .error .overflowingInt := by
  induction ms generalizing a with
  | nil => rfl
  | cons m ms ih =>
    obtain ⟨⟨x, counts, _⟩, others⟩ := List.forall_mem_cons.mp priced
    rw [List.foldlM_cons, (Value.Counts.ofNumber a).plus counts, prices_cons counts,
      Number.addAll?_cons]
    cases sum : a.add? x with
    | none => rfl
    | some b => exact ih others b

/-- What is worked out from costs: a number that is not negative, unless they overflow. -/
def Derives (overflows : Prop) (r : Except Fault Value) : Prop :=
  (overflows ∧ r = .error .overflowingInt) ∨
    ¬overflows ∧ ∃ c, r = .ok (.ofNumber c) ∧ Number.zero.le c = true

/-- What is worked out as a number is missing just when the costs overflow. -/
theorem derives_of_number {overflows : Prop} {r : Except Fault Value} {x? : Option Number}
    (worked : r = match x? with
      | some c => .ok (.ofNumber c)
      | none => .error .overflowingInt)
    (missing : x? = none ↔ overflows) (nonneg : ∀ c, x? = some c → Number.zero.le c = true) :
    Derives overflows r := by
  cases x? with
  | none => exact Or.inl ⟨missing.mp rfl, worked⟩
  | some c =>
    refine Or.inr ⟨?_, c, worked, nonneg c rfl⟩
    intro exceeds
    cases missing.mpr exceeds

/-- What morphs cost together is derived from all of their costs. -/
theorem costSum_derives (priced : ∀ m ∈ ms, m.IsPriced) :
    Derives (Number.Overflows (prices ms)) (costSum ms) :=
  derives_of_number (foldlM_cost priced .zero) Number.addAll?_eq_none fun _ sum =>
    Number.zero_le_addAll? (by decide) (zero_le_prices priced) sum

variable {m' : Morph}

theorem plus_derives (priced : m.IsPriced) (priced' : m'.IsPriced) :
    Derives (Number.Overflows (prices [m, m'])) (m.cost.given.plus m'.cost.given) := by
  obtain ⟨x, counts, nonneg⟩ := priced
  obtain ⟨y, counts', nonneg'⟩ := priced'
  have listed : prices [m, m'] = [x, y] := by rw [prices_cons counts, prices_cons counts']; rfl
  rw [listed]
  exact derives_of_number (counts.plus counts') Number.add?_eq_none_iff fun _ sum =>
    Number.zero_le_add? nonneg nonneg' sum

/-- Whether the morph costs a whole number beyond all doubles. -/
def CostsBeyond (m : Morph) : Prop := ∃ n, m.cost.given.int? = some n ∧ Number.IsBeyond n

theorem times_derives (priced : m.IsPriced) :
    Derives m.CostsBeyond (m.cost.given.times (.real 0.8)) := by
  obtain ⟨x, counts, nonneg⟩ := priced
  refine derives_of_number counts.times (Number.mul?_eq_none.trans ?_) fun _ product =>
    Number.zero_le_mul? nonneg product
  constructor
  · rintro ⟨n, rfl, beyond⟩
    exact ⟨n, counts, beyond⟩
  · rintro ⟨n, whole, beyond⟩
    cases x with
    | int k =>
      have same : m.cost.given.int? = some k := counts
      rw [same] at whole
      cases whole
      exact ⟨n, rfl, beyond⟩
    | real y =>
      have double : m.cost.given = .real y := counts
      rw [double] at whole
      cases whole

end Morph

end MorphEngine
