import FunctionGraph.Number.Reading
import FunctionGraph.Proofs.Number.Arithmetic

/-!
# Digits as doubles

However many digits there are, the whole part and the fraction of a numeral are each converted to the
nearest double, and their sum is rounded once more. Few digits are converted by one operation on
doubles that are exact, many by exact arithmetic.
-/

namespace FunctionGraph.Number

open Float.Model (UnpackedFloat Format)
open Float.Model.UnpackedFloat

section Conversion

variable {n k : ℕ}

theorem rational?_toFloat (n : UInt64) : rational? n.toFloat = withinRange (toDouble n.toNat) := by
  have hparts : n.toFloat
      = .ofModel (.pack (UnpackedFloat.normalize Format.binary64 (n.toNat : ℤ) 0 .positive)) := rfl
  rw [hparts, rational?_normalize, zpow_zero, mul_one, Int.cast_natCast]

theorem rational?_toFloat_exact (hn : n < 2 ^ 53) : rational? n.toUInt64.toFloat = some (n : ℚ) := by
  have hnat : n.toUInt64.toNat = n := UInt64.toNat_ofNat_of_lt' (by
    have : UInt64.size = 2 ^ 64 := rfl
    omega)
  have hdouble : IsDouble n := by
    have := isDouble_intCast (k := n) (abs_le.mpr ⟨by omega, by omega⟩)
    exact_mod_cast this
  have hsmall : |(n : ℚ)| < 2 ^ (1024 : ℤ) := by
    rw [abs_of_nonneg (Nat.cast_nonneg n)]
    have hn' : (n : ℚ) < 2 ^ (53 : ℤ) := by exact_mod_cast hn
    exact hn'.trans (two_zpow_lt (by norm_num))
  rw [rational?_toFloat, hnat, toDouble_of_isDouble hdouble]
  exact if_pos hsmall

/-- The powers of ten that are doubles. -/
theorem rational?_powerOfTen :
    ∀ k : Fin Float.exactlyRepresentablePowersOfTen.size,
      rational? Float.exactlyRepresentablePowersOfTen[k] = some (10 ^ k.val) := by
  decide +kernel

theorem exponentBits_eq : (2 : ℤ) ^ Format.binary64.exponentBits = 2048 := by
  decide

/-- A mantissa widened by all the bits of a double is rounded as it is. -/
theorem rational?_mul_widened {bits unit : ℕ} {hn : 0 < n <<< bits} {hunit : 0 < unit}
    (hbits : bits = 53) (hone : unit = 1) :
    rational? (.ofModel (.pack (UnpackedFloat.mul Format.binary64
        (.finite .positive (n <<< bits) (-bits) hn) (.finite .positive unit 0 hunit))))
      = withinRange (toDouble n) := by
  subst hbits hone
  have hpos : n <<< 53 * 1 ≠ 0 := by omega
  have hlog : 53 ≤ (n <<< 53 * 1).log2 := by
    rw [Nat.le_log2 hpos]
    rw [Nat.shiftLeft_eq] at hn ⊢
    omega
  have hvalue : ((n <<< 53 : ℕ) : ℚ) * 2 ^ (-(53 : ℕ) : ℤ) = n := by
    rw [Nat.shiftLeft_eq, zpow_neg, zpow_natCast, Nat.cast_mul, Nat.cast_pow, Nat.cast_ofNat,
      mul_inv_cancel_right₀ (by positivity)]
  rw [rational?_mul_finite _ _ (by omega), signed_positive, signed_positive, hvalue, zpow_zero,
    Nat.cast_one, mul_one, mul_one]

theorem rational?_unpackedOfScientific_zero (n : ℕ) :
    rational? (.ofModel (.pack (UnpackedFloat.ofScientific Format.binary64 n 0)))
      = withinRange (toDouble n) := by
  rw [UnpackedFloat.ofScientific, exponentBits_eq]
  rcases Nat.eq_zero_or_pos n with hzero | hn
  · rw [dif_pos hzero, hzero, Nat.cast_zero, toDouble_zero, withinRange_zero]
    exact rational?_of_unpack (unpack_pack_zero _)
  · rw [dif_neg hn.ne', if_neg (by norm_num), if_neg (by omega), if_pos le_rfl]
    exact rational?_mul_widened (by decide) (by decide)

/-- A fraction with too many digits for its size is not computed, and rounds to zero. -/
theorem toDouble_eq_zero_of_digits (hn : 0 < n) (h : 2048 + n.log2 < k) :
    toDouble (n / 10 ^ k) = 0 := by
  refine toDouble_eq_zero ?_
  have hpower : (n : ℚ) < 2 ^ (n.log2 + 1) := by exact_mod_cast Nat.lt_log2_self
  have hten : (2 : ℚ) ^ k ≤ 10 ^ k := pow_le_pow_left₀ (by norm_num) (by norm_num) k
  have htwo : (0 : ℚ) < 2 ^ k := by positivity
  rw [abs_of_nonneg (by positivity)]
  calc (n : ℚ) / 10 ^ k ≤ 2 ^ (n.log2 + 1) / 2 ^ k :=
        div_le_div₀ (by positivity) hpower.le htwo hten
    _ = 2 ^ ((n.log2 + 1 : ℤ) - k) := by
        rw [zpow_sub₀ (by norm_num)]
        norm_cast
    _ ≤ 2 ^ (-1075 : ℤ) := two_zpow_le (by omega)
    _ = 2 ^ (-1074 : ℤ) / 2 := zpow_sub_one₀ (by norm_num) (-1074)

theorem rational?_unpackedOfScientific_neg (n : ℕ) (hk : 0 < k) :
    rational? (.ofModel (.pack (UnpackedFloat.ofScientific Format.binary64 n (-k))))
      = withinRange (toDouble (n / 10 ^ k)) := by
  rw [UnpackedFloat.ofScientific, exponentBits_eq]
  rcases Nat.eq_zero_or_pos n with hzero | hn
  · rw [dif_pos hzero, hzero, Nat.cast_zero, zero_div, toDouble_zero, withinRange_zero]
    exact rational?_of_unpack (unpack_pack_zero _)
  · rw [dif_neg hn.ne', if_neg (by omega)]
    by_cases hsmall : 2048 + n.log2 < k
    · rw [if_pos (by omega), toDouble_eq_zero_of_digits hn hsmall, withinRange_zero]
      exact rational?_of_unpack (unpack_pack_zero _)
    · rw [if_neg (by omega), if_neg (by omega)]
      refine (rational?_div_finite _ _).trans ?_
      rw [signed_positive, signed_positive, zpow_zero, mul_one, mul_one, neg_neg, Int.toNat_natCast]
      push_cast
      rfl

theorem rational?_ofScientific_whole (n : ℕ) :
    rational? (Float.ofScientific n false 0) = withinRange (toDouble n) := by
  rw [Float.ofScientific]
  split
  · next hfast =>
    have hone := rational?_powerOfTen ⟨0, by decide⟩
    have hexact := rational?_toFloat_exact hfast.1
    refine (rational?_mul hexact hone).trans ?_
    rw [pow_zero, mul_one]
  · exact rational?_unpackedOfScientific_zero n

theorem rational?_ofNat (hn : n ≤ 2 ^ 53) : rational? (Float.ofNat n) = some (n : ℚ) := by
  have hcast : |(n : ℤ)| ≤ 2 ^ 53 := by
    rw [Nat.abs_cast]
    exact_mod_cast hn
  exact_mod_cast (rational?_ofScientific_whole n).trans (withinRange_toDouble_intCast hcast)

theorem rational?_ofScientific_fraction (n k : ℕ) :
    rational? (Float.ofScientific n true k) = withinRange (toDouble (n / 10 ^ k)) := by
  rw [Float.ofScientific]
  split
  · next hfast =>
    have hsize : Float.exactlyRepresentablePowersOfTen.size = 23 := rfl
    have hpower := rational?_powerOfTen ⟨k, by omega⟩
    exact rational?_div (rational?_toFloat_exact hfast.1) hpower (by positivity)
  · rcases Nat.eq_zero_or_pos k with rfl | hk
    · rw [pow_zero, div_one]
      exact rational?_unpackedOfScientific_zero n
    · have hneg : Int.negOfNat k = -k := Int.negOfNat_eq
      rw [← rational?_unpackedOfScientific_neg n hk, ← hneg]
      rfl

end Conversion

end FunctionGraph.Number
