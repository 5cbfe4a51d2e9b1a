import Mathlib
import MorphEngine.Number

/-!
# Doubles that are not negative

Sums and products of doubles that are not negative are not negative either, and never fail to be a
number: only infinities of two signs cancel out, and only an infinite factor meets a zero one badly.
The sign survives rounding and packing. Nothing is said about how close a result is.
-/

namespace MorphEngine.Real

open Float.Model Float.Model.UnpackedFloat

/-- A number that is zero or lies on the positive side. -/
def Parts.IsNonneg : Parts → Prop
  | .nan => False
  | .infinite negative => negative = false
  | .finite negative m _ => negative = false ∨ m = 0

/-- The same of a double as arithmetic takes it apart. -/
def IsNonneg : UnpackedFloat → Prop
  | .notANumber => False
  | .infinity sign => sign = .positive
  | .zero _ => True
  | .finite sign _ _ _ => sign = .positive

/-! ### Rounded results -/

variable {spec : Format} {x y : UnpackedFloat}

theorem isNonneg_roundWithAccuracy (m : Nat) (e : Int) (accuracy : Accuracy) :
    IsNonneg (roundWithAccuracy spec .positive m e accuracy) := by
  unfold roundWithAccuracy
  dsimp only
  split
  · trivial
  · rfl

theorem isNonneg_normalize {m : Int} (nonneg : 0 ≤ m) (e : Int) (sign : Sign) :
    IsNonneg (UnpackedFloat.normalize spec m e sign) := by
  unfold UnpackedFloat.normalize
  split
  · next less => exact absurd (Int.compare_eq_lt.mp less) (Int.not_lt.mpr nonneg)
  · trivial
  · exact isNonneg_roundWithAccuracy _ _ _

theorem isNonneg_add (hx : IsNonneg x) (hy : IsNonneg y) : IsNonneg (add spec x y) := by
  cases x with
  | notANumber => cases hx
  | infinity s =>
    cases y with
    | notANumber => cases hy
    | infinity t =>
      cases hx
      cases hy
      rfl
    | zero t => exact hx
    | finite t n f hn => exact hx
  | zero s =>
    cases y with
    | notANumber => cases hy
    | infinity t => exact hy
    | zero t =>
      show IsNonneg (if (s == t) = true then .zero s else .zero .positive)
      split <;> trivial
    | finite t n f hn => exact hy
  | finite s m e hm =>
    cases y with
    | notANumber => cases hy
    | infinity t => exact hy
    | zero t => exact hx
    | finite t n f hn =>
      cases hx
      cases hy
      refine isNonneg_normalize ?_ _ _
      exact Int.add_nonneg (Int.natCast_nonneg _) (Int.natCast_nonneg _)

/-- A finite number that is greater than zero. -/
def isPositive : UnpackedFloat → Bool
  | .finite .positive _ _ _ => true
  | _ => false

/-- A finite factor that is positive keeps what is not negative so. -/
theorem isNonneg_mul (hx : IsNonneg x) (positive : isPositive y = true) :
    IsNonneg (mul spec x y) := by
  unfold isPositive at positive
  split at positive
  · cases x with
    | notANumber => cases hx
    | infinity s =>
      cases hx
      rfl
    | zero s => trivial
    | finite s m e hm =>
      cases hx
      exact isNonneg_roundWithAccuracy _ _ _
  · cases positive

/-! ### Packing -/

/-- What is packed with the exponent of a finite number, or with no mantissa, comes back with its
sign. -/
theorem isNonneg_packComponents {e : BitVec 11} {m : BitVec 52} (finite : e ≠ -1#11 ∨ m = 0#52) :
    IsNonneg (UnpackedFloat.unpack Format.binary64
      (packComponents Format.binary64 .positive e m)) := by
  unfold UnpackedFloat.unpack
  simp only [unpackMantissa_packComponents, unpackExponent_packComponents,
    unpackSign_packComponents, Sign.ofBitVec_toBitVec]
  split
  · next last =>
    rw [if_pos (finite.resolve_left fun other => other last)]
    rfl
  · split
    · split
      · trivial
      · rfl
    · rfl

/-- What is not negative can be packed and taken apart again. -/
theorem isNonneg_pack (hx : IsNonneg x) :
    IsNonneg (UnpackedFloat.unpack Format.binary64 (UnpackedFloat.pack Format.binary64 x)) := by
  cases x with
  | notANumber => cases hx
  | infinity s =>
    cases hx
    exact isNonneg_packComponents (Or.inr rfl)
  | zero s =>
    have zero : UnpackedFloat.unpack Format.binary64
        (UnpackedFloat.pack Format.binary64 (.zero s)) = .zero s := unpack_packedZero
    rw [zero]
    trivial
  | finite s m e hm =>
    cases hx
    unfold UnpackedFloat.pack
    dsimp only
    split
    · exact isNonneg_packComponents (Or.inr rfl)
    · next fits =>
      split
      · refine isNonneg_packComponents (Or.inl ?_)
        intro last
        have same := congrArg BitVec.toNat last
        simp at same
        omega
      · exact isNonneg_packComponents (Or.inl (by decide))

/-! ### Doubles taken apart -/

theorem toNat_exponent (b : BitVec 64) :
    (@unpackExponent Format.binary64 b).toNat = b.toNat / leastNormal % 2048 := by
  simp [unpackExponent_def, Nat.shiftRight_eq_div_pow, leastNormal]

theorem toNat_mantissa (b : BitVec 64) :
    (@unpackMantissa Format.binary64 b).toNat = b.toNat % leastNormal := by
  simp [unpackMantissa_def, leastNormal]

theorem sign_positive_iff (b : BitVec 64) :
    Sign.ofBitVec (@unpackSign Format.binary64 b) = .positive ↔ b.toNat < 0x8000000000000000 := by
  have bit : (@unpackSign Format.binary64 b).toNat = b.toNat / 0x8000000000000000 := by
    have := b.isLt
    simp [unpackSign_def, Nat.shiftRight_eq_div_pow]
    omega
  unfold Sign.ofBitVec
  by_cases zero : @unpackSign Format.binary64 b = 0#1
  · have none := congrArg BitVec.toNat zero
    simp [bit] at none
    simp [zero]
    omega
  · have one : b.toNat / 0x8000000000000000 ≠ 0 := fun none =>
      zero (BitVec.eq_of_toNat_eq (by simpa [bit] using none))
    simp [zero]
    omega

/-- Both ways of taking a double apart agree on what is not negative. -/
theorem isNonneg_parts (x : Float) : (parts x).IsNonneg ↔ IsNonneg x.toModel.unpack := by
  have bits : x.toBits.toNat = x.toModel.toBits.toBitVec.toNat := rfl
  unfold parts Float.Model.unpack UnpackedFloat.unpack
  rw [bits]
  generalize x.toModel.toBits.toBitVec = b
  have last : @unpackExponent Format.binary64 b = -1#11 ↔ b.toNat / leastNormal % 2048 = 2047 := by
    rw [← toNat_exponent, ← BitVec.toNat_inj]
    rfl
  have first : @unpackExponent Format.binary64 b = 0#11 ↔ b.toNat / leastNormal % 2048 = 0 := by
    rw [← toNat_exponent, ← BitVec.toNat_inj]
    rfl
  have empty : @unpackMantissa Format.binary64 b = 0#52 ↔ b.toNat % leastNormal = 0 := by
    rw [← toNat_mantissa, ← BitVec.toNat_inj]
    rfl
  have positive := sign_positive_iff b
  dsimp only
  by_cases special : b.toNat / leastNormal % 2048 = 2047
  · rw [if_pos special, if_pos (last.mpr special)]
    by_cases whole : b.toNat % leastNormal = 0
    · rw [if_pos whole, if_pos (empty.mpr whole)]
      simp [Parts.IsNonneg, IsNonneg, positive]
    · rw [if_neg whole, if_neg ((not_congr empty).mpr whole)]
      simp [Parts.IsNonneg, IsNonneg]
  · rw [if_neg special, if_neg ((not_congr last).mpr special)]
    by_cases small : b.toNat / leastNormal % 2048 = 0
    · rw [if_pos small, if_pos (first.mpr small)]
      by_cases zero : b.toNat % leastNormal = 0
      · rw [dif_pos (empty.mpr zero)]
        simp [Parts.IsNonneg, IsNonneg, zero]
      · rw [dif_neg ((not_congr empty).mpr zero)]
        simp [Parts.IsNonneg, IsNonneg, positive, zero]
    · rw [if_neg small, if_neg ((not_congr first).mpr small)]
      have full : leastNormal ≠ 0 := by decide
      simp [Parts.IsNonneg, IsNonneg, positive, full]

variable {p q : Float}

/-- Sums of doubles that are not negative are not negative. -/
theorem Parts.isNonneg_add (hp : (parts p).IsNonneg) (hq : (parts q).IsNonneg) :
    (parts (p + q)).IsNonneg := by
  rw [isNonneg_parts] at *
  have packed : (p + q).toModel.unpack = UnpackedFloat.unpack Format.binary64
      (UnpackedFloat.pack Format.binary64
        (UnpackedFloat.add Format.binary64 p.toModel.unpack q.toModel.unpack)) := rfl
  rw [packed]
  exact isNonneg_pack (Real.isNonneg_add hp hq)

/-- Four fifths of a double that is not negative are not negative. -/
theorem Parts.isNonneg_mul (hp : (parts p).IsNonneg) : (parts (p * 0.8)).IsNonneg := by
  rw [isNonneg_parts] at *
  have fifths : isPositive (0.8 : Float).toModel.unpack = true := by decide +kernel
  have packed : (p * 0.8).toModel.unpack = UnpackedFloat.unpack Format.binary64
      (UnpackedFloat.pack Format.binary64
        (UnpackedFloat.mul Format.binary64 p.toModel.unpack (0.8 : Float).toModel.unpack)) := rfl
  rw [packed]
  exact isNonneg_pack (Real.isNonneg_mul hp fifths)

/-! ### Whole numbers -/

theorem roundEven_le (num den : Nat) : roundEven num den ≤ num / den + 1 := by
  unfold roundEven
  dsimp only
  split
  · omega
  · split
    · omega
    · omega

theorem logTwo_one {k : Nat} (some : k ≠ 0) : logTwo k 1 = k.log2 := by
  have reached : 2 ^ k.log2 ≤ k := Nat.log2_self_le some
  have none : Nat.log2 1 = 0 := rfl
  unfold logTwo
  simp [none, reached]

/-- Rounding may carry into one bit more than a mantissa has, but not further. -/
theorem mantissa_le {k : Nat} {e : Int} (exponent : e = k.log2 - 52) :
    (if 0 ≤ e then roundEven k (1 * Nat.pow 2 e.toNat)
      else roundEven (k * Nat.pow 2 (-e).toNat) 1) ≤ 2 * leastNormal := by
  have top : k < 2 ^ (k.log2 + 1) := Nat.lt_log2_self
  have limit : 2 * leastNormal = 2 ^ 53 := rfl
  by_cases whole : 0 ≤ e
  · have few : k / 2 ^ e.toNat < 2 ^ 53 := by
      rw [Nat.div_lt_iff_lt_mul (Nat.two_pow_pos _), ← Nat.pow_add,
        show 53 + e.toNat = k.log2 + 1 by omega]
      exact top
    have rounded := roundEven_le k (1 * Nat.pow 2 e.toNat)
    have power : 1 * Nat.pow 2 e.toNat = 2 ^ e.toNat := Nat.one_mul _
    rw [power] at rounded
    rw [if_pos whole, power]
    omega
  · have few : k * 2 ^ (-e).toNat < 2 ^ 53 := by
      rw [show 53 = k.log2 + 1 + (-e).toNat by omega, Nat.pow_add]
      exact Nat.mul_lt_mul_of_pos_right top (Nat.two_pow_pos _)
    have rounded := roundEven_le (k * Nat.pow 2 (-e).toNat) 1
    have power : Nat.pow 2 (-e).toNat = 2 ^ (-e).toNat := rfl
    rw [power, Nat.div_one] at rounded
    rw [if_neg whole, power]
    omega

/-- The double closest to a count has no sign. -/
theorem exists_nearest (k : Nat) :
    ∃ magnitude, magnitude < 0x8000000000000000 ∧ nearest false k 1 = ofBits false magnitude := by
  by_cases none : k = 0
  · exact ⟨0, by decide, if_pos (Or.inl none)⟩
  have least : leastNormal = 0x10000000000000 := rfl
  have exponent : max (logTwo k 1 - 52) (-1074) = (k.log2 : Int) - 52 := by
    rw [logTwo_one none]
    omega
  unfold nearest
  rw [if_neg (by simp [none])]
  dsimp only
  rw [exponent]
  have few := mantissa_le (k := k) rfl
  generalize (if (0 : Int) ≤ k.log2 - 52 then roundEven k (1 * Nat.pow 2 ((k.log2 : Int) - 52).toNat)
    else roundEven (k * Nat.pow 2 (-((k.log2 : Int) - 52)).toNat) 1) = mantissa at few ⊢
  split
  · exact ⟨0x7ff0000000000000, by decide, rfl⟩
  · split
    · exact ⟨mantissa, by omega, rfl⟩
    · exact ⟨_, by rw [least] at *; omega, rfl⟩

/-- Bits without the sign stand for no number, or for one that is not negative. -/
theorem isNonneg_unpack {b : BitVec 64} (unsigned : b.toNat < 0x8000000000000000) :
    UnpackedFloat.unpack Format.binary64 b = .notANumber ∨
      IsNonneg (UnpackedFloat.unpack Format.binary64 b) := by
  have positive := (sign_positive_iff b).mpr unsigned
  unfold UnpackedFloat.unpack
  dsimp only
  split
  · split
    · exact Or.inr positive
    · exact Or.inl rfl
  · split
    · split
      · exact Or.inr trivial
      · exact Or.inr positive
    · exact Or.inr positive

/-- A whole number that is not negative and has a double close to it, has one that is not negative.
-/
theorem Parts.isNonneg_ofInt {n : Int} (nonneg : 0 ≤ n) (finite : isFinite (Real.ofInt n) = true) :
    (parts (Real.ofInt n)).IsNonneg := by
  have positive : decide (n < 0) = false := decide_eq_false (Int.not_lt.mpr nonneg)
  obtain ⟨magnitude, small, near⟩ := exists_nearest n.natAbs
  have bits : Real.ofInt n = ofBits false magnitude := by rw [Real.ofInt, positive, near]
  have unsigned : (UInt64.ofNat (magnitude + 0)).toBitVec.toNat < 0x8000000000000000 := by
    simp
    omega
  rw [bits] at finite ⊢
  have packed : (ofBits false magnitude).toModel.unpack = UnpackedFloat.unpack Format.binary64
      (UnpackedFloat.pack Format.binary64 (UnpackedFloat.unpack Format.binary64
        (UInt64.ofNat (magnitude + 0)).toBitVec)) := rfl
  rcases isNonneg_unpack unsigned with nan | fine
  · have undefined : ofBits false magnitude = .ofModel (Float.Model.pack .notANumber) :=
      congrArg (fun u => Float.ofModel (Float.Model.pack u)) nan
    have infinite : isFinite (.ofModel (Float.Model.pack .notANumber)) = false := by decide +kernel
    rw [undefined, infinite] at finite
    cases finite
  · rw [isNonneg_parts, packed]
    exact isNonneg_pack fine

end MorphEngine.Real
