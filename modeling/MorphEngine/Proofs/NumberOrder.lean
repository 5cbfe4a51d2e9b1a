import Mathlib.Algebra.Order.Field.Basic
import Mathlib.Algebra.Order.Ring.Rat
import Mathlib.Order.WithBot
import MorphEngine.Number

/-!
# The order of numbers

A number that is not not-a-number has its place among the rational numbers with an infinity at
either end, and numbers compare as their places do. So their order is a linear one, also where whole
numbers meet doubles; what is not a number compares with nothing.
-/

namespace MorphEngine

/-- Pairs that are ordered alike compare alike. -/
theorem compare_eq_compare {α β : Type} [LinearOrder α] [LinearOrder β] {a b : α} {c d : β}
    (below : a < b ↔ c < d) (above : b < a ↔ d < c) : compare a b = compare c d := by
  rcases lt_trichotomy a b with less | rfl | greater
  · rw [compare_lt_iff_lt.mpr less, compare_lt_iff_lt.mpr (below.mp less)]
  · have atLeast : d ≤ c := not_lt.mp (below.not.mp (lt_irrefl a))
    have atMost : c ≤ d := not_lt.mp (above.not.mp (lt_irrefl a))
    rw [compare_eq_iff_eq.mpr rfl, compare_eq_iff_eq.mpr (le_antisymm atMost atLeast)]
  · rw [compare_gt_iff_gt.mpr greater, compare_gt_iff_gt.mpr (above.mp greater)]

namespace Number

namespace Exact

/-- A fraction has a positive denominator. -/
def IsProper : Exact → Prop
  | fraction _ den => 0 < den
  | infinite _ => True

/-- Where an exact value lies among the rational numbers and the two infinities. -/
def place : Exact → WithBot (WithTop ℚ)
  | fraction num den => ((num / den : ℚ) : WithTop ℚ)
  | infinite true => ⊥
  | infinite false => (⊤ : WithTop ℚ)

theorem fraction_lt_iff (a c : Int) {b d : Nat} (proper : 0 < b) (proper' : 0 < d) :
    a * d < c * b ↔ (fraction a b).place < (fraction c d).place := by
  have positive : (0 : ℚ) < b := Nat.cast_pos.mpr proper
  have positive' : (0 : ℚ) < d := Nat.cast_pos.mpr proper'
  rw [place, place, WithBot.coe_lt_coe, WithTop.coe_lt_coe, div_lt_div_iff₀ positive positive']
  norm_cast

theorem fraction_lt_top (a : Int) (b : Nat) : (fraction a b).place < (infinite false).place :=
  WithBot.coe_lt_coe.mpr (WithTop.coe_lt_top _)

theorem order_eq_compare {e f : Exact} (proper : e.IsProper) (proper' : f.IsProper) :
    e.order f = compare e.place f.place := by
  cases e with
  | fraction a b =>
    cases f with
    | fraction c d =>
      exact compare_eq_compare (fraction_lt_iff a c proper proper')
        (fraction_lt_iff c a proper' proper)
    | infinite negative =>
      cases negative with
      | true => exact (compare_gt_iff_gt.mpr (WithBot.bot_lt_coe _)).symm
      | false => exact (compare_lt_iff_lt.mpr (fraction_lt_top a b)).symm
  | infinite negative =>
    cases f with
    | fraction c d =>
      cases negative with
      | true => exact (compare_lt_iff_lt.mpr (WithBot.bot_lt_coe _)).symm
      | false => exact (compare_gt_iff_gt.mpr (fraction_lt_top c d)).symm
    | infinite negative' =>
      cases negative <;> cases negative'
      · exact (compare_eq_iff_eq.mpr rfl).symm
      · exact (compare_gt_iff_gt.mpr (WithBot.bot_lt_coe _)).symm
      · exact (compare_lt_iff_lt.mpr (WithBot.bot_lt_coe _)).symm
      · exact (compare_eq_iff_eq.mpr rfl).symm

end Exact

theorem isProper_of_toExact? {x : Number} {e : Exact} (exact : x.toExact? = some e) :
    e.IsProper := by
  cases x with
  | int n =>
    cases exact
    exact Nat.one_pos
  | real x =>
    unfold toExact? at exact
    dsimp only at exact
    split at exact
    · cases exact
    · cases exact
      trivial
    · next negative m exponent _ =>
      cases exact
      show 0 < (Real.fraction m exponent).2
      unfold Real.fraction
      split
      · exact Nat.one_pos
      · exact Nat.two_pow_pos _

/-- Where a number lies; nowhere when it is not-a-number. -/
def place? (x : Number) : Option (WithBot (WithTop ℚ)) := x.toExact?.map Exact.place

variable {x y z : Number}

theorem exists_place (exact : x.toExact?.isSome = true) : ∃ p, x.place? = some p := by
  obtain ⟨e, found⟩ := Option.isSome_iff_exists.mp exact
  exact ⟨e.place, by rw [place?, found, Option.map_some]⟩

theorem order?_eq : x.order? y = x.place?.bind fun p => y.place?.map (compare p) := by
  unfold order? place?
  cases first : x.toExact? with
  | none => rfl
  | some e =>
    cases second : y.toExact? with
    | none => rfl
    | some f =>
      exact congrArg some
        (Exact.order_eq_compare (isProper_of_toExact? first) (isProper_of_toExact? second))

theorem order?_eq_some {o : Ordering} :
    x.order? y = some o ↔
      ∃ p q, x.place? = some p ∧ y.place? = some q ∧ compare p q = o := by
  rw [order?_eq]
  cases x.place? <;> cases y.place? <;> simp

theorem le_iff : x.le y = true ↔ ∃ p q, x.place? = some p ∧ y.place? = some q ∧ p ≤ q := by
  rw [le, lt, Bool.or_eq_true, beq_iff_eq, beq_iff_eq, order?_eq_some, order?_eq_some]
  constructor
  · rintro (⟨p, q, first, second, less⟩ | ⟨p, q, first, second, same⟩)
    · exact ⟨p, q, first, second, (compare_lt_iff_lt.mp less).le⟩
    · exact ⟨p, q, first, second, (compare_eq_iff_eq.mp same).le⟩
  · rintro ⟨p, q, first, second, atMost⟩
    rcases atMost.lt_or_eq with less | same
    · exact Or.inl ⟨p, q, first, second, compare_lt_iff_lt.mpr less⟩
    · exact Or.inr ⟨p, q, first, second, compare_eq_iff_eq.mpr same⟩

theorem le_trans (first : x.le y = true) (second : y.le z = true) : x.le z = true := by
  obtain ⟨p, q, px, qy, pq⟩ := le_iff.mp first
  obtain ⟨q', r, qy', rz, qr⟩ := le_iff.mp second
  cases qy.symm.trans qy'
  exact le_iff.mpr ⟨p, r, px, rz, pq.trans qr⟩

theorem le_refl (exact : x.toExact?.isSome = true) : x.le x = true := by
  obtain ⟨p, px⟩ := exists_place exact
  exact le_iff.mpr ⟨p, p, px, px, le_rfl⟩

/-- Of two numbers the second is at most the first unless the first is less, not-a-number apart. -/
theorem le_of_not_lt (exact : x.toExact?.isSome = true) (exact' : y.toExact?.isSome = true)
    (not : x.lt y = false) : y.le x = true := by
  obtain ⟨p, px⟩ := exists_place exact
  obtain ⟨q, qy⟩ := exists_place exact'
  refine le_iff.mpr ⟨q, p, qy, px, not_lt.mp fun less => ?_⟩
  have below : x.order? y = some .lt :=
    order?_eq_some.mpr ⟨p, q, px, qy, compare_lt_iff_lt.mpr less⟩
  rw [lt, below] at not
  cases not

theorem lt_iff : x.lt y = true ↔ ∃ p q, x.place? = some p ∧ y.place? = some q ∧ p < q := by
  simp only [lt, beq_iff_eq, order?_eq_some, compare_lt_iff_lt]

theorem lt_trans (first : x.lt y = true) (second : y.lt z = true) : x.lt z = true := by
  obtain ⟨p, q, px, qy, pq⟩ := lt_iff.mp first
  obtain ⟨q', r, qy', rz, qr⟩ := lt_iff.mp second
  cases qy.symm.trans qy'
  exact lt_iff.mpr ⟨p, r, px, rz, pq.trans qr⟩

theorem not_lt_of_le (atMost : x.le y = true) : y.lt x = false := by
  obtain ⟨p, q, px, qy, pq⟩ := le_iff.mp atMost
  refine Bool.eq_false_iff.mpr fun less => ?_
  obtain ⟨q', p', qy', px', qp⟩ := lt_iff.mp less
  cases qy.symm.trans qy'
  cases px.symm.trans px'
  exact absurd qp (not_lt.mpr pq)

theorem le_of_lt (less : x.lt y = true) : x.le y = true := by
  rw [le, less, Bool.true_or]

/-- What is greater than a number is greater than what that is at least. -/
theorem order?_gt_of_le (atMost : x.le y = true) (greater : z.order? y = some .gt) :
    z.order? x = some .gt := by
  obtain ⟨p, q, px, qy, pq⟩ := le_iff.mp atMost
  obtain ⟨r, q', rz, qy', above⟩ := order?_eq_some.mp greater
  cases qy.symm.trans qy'
  exact order?_eq_some.mpr
    ⟨r, p, rz, px, compare_gt_iff_gt.mpr (pq.trans_lt (compare_gt_iff_gt.mp above))⟩

end Number

end MorphEngine
