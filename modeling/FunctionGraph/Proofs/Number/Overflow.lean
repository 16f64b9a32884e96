import FunctionGraph.Proofs.Number.Comparison

/-!
# Results beyond the largest double

Where the nearest double would have to be larger than any, an operation gives the infinity of its sign
and not just anything that is no finite number. So a calculation that only grows does not turn back when
it leaves the range of doubles.
-/

namespace FunctionGraph.Number

open Float.Model (UnpackedFloat Format)
open Float.Model.UnpackedFloat

def IsInfinite (s : Sign) (x : Float) : Prop :=
  x.toModel.unpack = .infinity s

def IsPositiveInfinity (x : Float) : Prop :=
  x.toModel.unpack = .infinity .positive

section Overflow

variable {x y : Float} {p q : ℚ} {sign : Sign} {m : ℕ} {e : ℤ}

theorem unpack_pack_infinity (sign : Sign) :
    (Float.Model.pack (.infinity sign)).unpack = .infinity sign := by
  cases sign <;> rfl

theorem unpack_pack_ofMantissa_of_large (hcanonical : IsCanonical m e)
    (hlarge : 2 ^ (1024 : ℤ) ≤ (m : ℚ) * 2 ^ e) :
    (Float.Model.pack (ofMantissa sign m e)).unpack = .infinity sign := by
  have hm : m ≠ 0 := by
    rintro rfl
    rw [Nat.cast_zero, zero_mul] at hlarge
    exact (two_zpow_pos 1024).not_ge hlarge
  have he : 972 ≤ e := by
    by_contra hless
    have hm' : (m : ℚ) < 2 ^ 53 := by exact_mod_cast hcanonical.lt
    have hunit : (2 : ℚ) ^ e ≤ 2 ^ (971 : ℤ) := two_zpow_le (by omega)
    have : (m : ℚ) * 2 ^ e < 2 ^ (1024 : ℤ) := by
      rw [two_zpow_largest]
      exact mul_lt_mul hm' hunit (two_zpow_pos e) (by norm_num)
    exact this.not_ge hlarge
  rw [ofMantissa, dif_neg hm]
  exact unpack_pack_large _ he

theorem unpack_round_of_large {accuracy : Accuracy} (hq : IsResidue accuracy (q / 2 ^ e - m))
    (he : e ≤ max (m.log2 + e - 52) (-1074)) (hlarge : 2 ^ (1024 : ℤ) ≤ toDouble q) :
    (Float.Model.pack (roundWithAccuracy Format.binary64 sign m e accuracy)).unpack
      = .infinity sign := by
  obtain ⟨n, f, hround, hcanonical, hvalue⟩ := exists_roundWithAccuracy sign hq he
  rw [hround]
  exact unpack_pack_ofMantissa_of_large hcanonical (hvalue ▸ hlarge)

/-- Only the sign of a number takes it to the positive side. -/
theorem sign_eq_of_pos {s t : Sign} (hq : 0 ≤ q) (h : 0 < signed s (signed t q)) : s = t := by
  cases s <;> cases t
  · rfl
  · exact absurd h (neg_nonpos.mpr hq).not_gt
  · exact absurd h (neg_nonpos.mpr hq).not_gt
  · rfl

/-- What is large on the side of one sign is a large number with that sign. -/
theorem sign_eq_of_large {s t : Sign} (hq : 0 ≤ q)
    (hlarge : 2 ^ (1024 : ℤ) ≤ signed s (toDouble (signed t q))) :
    s = t ∧ 2 ^ (1024 : ℤ) ≤ toDouble q := by
  rw [toDouble_signed] at hlarge
  have hdouble : 0 ≤ toDouble q := le_toDouble isDouble_zero hq
  obtain rfl := sign_eq_of_pos hdouble ((two_zpow_pos 1024).trans_le hlarge)
  rw [signed_signed] at hlarge
  exact ⟨rfl, hlarge⟩

theorem unpack_normalize_of_large {s : Sign} {k : ℤ}
    (hlarge : 2 ^ (1024 : ℤ) ≤ signed s (toDouble (k * 2 ^ e))) :
    (Float.Model.pack (UnpackedFloat.normalize Format.binary64 k e sign)).unpack = .infinity s := by
  have hround : ∀ {n : ℕ}, 0 < n → 2 ^ (1024 : ℤ) ≤ toDouble (n * 2 ^ e) →
      (Float.Model.pack (UnpackedFloat.round Format.binary64 s n e)).unpack = .infinity s := by
    intro n hn hlarge
    obtain ⟨m, f, hround, hcanonical, hvalue⟩ := exists_round s (e := e) hn
    rw [hround]
    exact unpack_pack_ofMantissa_of_large hcanonical (hvalue ▸ hlarge)
  rw [UnpackedFloat.normalize]
  rcases lt_trichotomy k 0 with hneg | rfl | hpos
  · obtain ⟨n, rfl⟩ : ∃ n : ℕ, k = -n := ⟨(-k).toNat, by omega⟩
    have hvalue : ((-n : ℤ) : ℚ) * 2 ^ e = signed .negative (n * 2 ^ e) := by
      rw [signed_negative, Int.cast_neg, Int.cast_natCast, neg_mul]
    rw [hvalue] at hlarge
    obtain ⟨rfl, hsize⟩ := sign_eq_of_large (mul_two_zpow_nonneg n e) hlarge
    rw [compare_lt_iff_lt.mpr hneg]
    simp only [neg_neg, Int.toNat_natCast]
    exact hround (by omega) hsize
  · rw [Int.cast_zero, zero_mul, toDouble_zero, signed_zero] at hlarge
    exact absurd hlarge (two_zpow_pos 1024).not_ge
  · lift k to ℕ using hpos.le
    rw [Int.cast_natCast, ← signed_positive (k * 2 ^ e)] at hlarge
    obtain ⟨rfl, hsize⟩ := sign_eq_of_large (mul_two_zpow_nonneg k e) hlarge
    rw [compare_gt_iff_gt.mpr hpos]
    simp only [Int.toNat_natCast]
    exact hround (by omega) hsize

section Operations

variable {s : Sign} (hx : rational? x = some p) (hy : rational? y = some q)

include hx hy

theorem isInfinite_add (hlarge : 2 ^ (1024 : ℤ) ≤ signed s (toDouble (p + q))) :
    IsInfinite s (x + y) := by
  have hsmall : ∀ {z : Float} {r : ℚ}, rational? z = some r → ¬2 ^ (1024 : ℤ) ≤ signed s (toDouble r) :=
    fun hz => by
      rw [toDouble_rational? hz, not_le]
      exact (le_abs_self _).trans_lt (by rw [abs_signed]; exact abs_rational?_lt hz)
  change (Float.Model.pack
    (UnpackedFloat.add Format.binary64 x.toModel.unpack y.toModel.unpack)).unpack = _
  obtain ⟨t, hunpackx, rfl⟩ | ⟨t, m, e, hm, hunpackx, -, -, rfl⟩ := rational?_cases hx
  · rw [zero_add] at hlarge
    exact absurd hlarge (hsmall hy)
  obtain ⟨u, hunpacky, rfl⟩ | ⟨u, n, f, hn, hunpacky, -, -, rfl⟩ := rational?_cases hy
  · rw [add_zero] at hlarge
    exact absurd hlarge (hsmall hx)
  rw [signed_add_signed] at hlarge
  rw [hunpackx, hunpacky]
  exact unpack_normalize_of_large hlarge

theorem isInfinite_mul (hlarge : 2 ^ (1024 : ℤ) ≤ signed s (toDouble (p * q))) :
    IsInfinite s (x * y) := by
  have hzero : ¬2 ^ (1024 : ℤ) ≤ signed s (toDouble 0) := by
    rw [toDouble_zero, signed_zero]
    exact (two_zpow_pos 1024).not_ge
  change (Float.Model.pack
    (UnpackedFloat.mul Format.binary64 x.toModel.unpack y.toModel.unpack)).unpack = _
  obtain ⟨t, hunpackx, rfl⟩ | ⟨t, m, e, hm, hunpackx, hcx, -, rfl⟩ := rational?_cases hx
  · rw [zero_mul] at hlarge
    exact absurd hlarge hzero
  obtain ⟨u, hunpacky, rfl⟩ | ⟨u, n, f, hn, hunpacky, hcy, -, rfl⟩ := rational?_cases hy
  · rw [mul_zero] at hlarge
    exact absurd hlarge hzero
  rw [signed_mul_signed] at hlarge
  obtain ⟨rfl, hsize⟩ := sign_eq_of_large (mul_two_zpow_nonneg _ _) hlarge
  rw [hunpackx, hunpacky]
  refine unpack_round_of_large ?_ (hcx.mul_le hcy hm hn) hsize
  rw [IsResidue, mul_div_cancel_right₀ _ (two_zpow_pos _).ne', sub_self]

theorem isInfinite_div (hq : q ≠ 0) (hlarge : 2 ^ (1024 : ℤ) ≤ signed s (toDouble (p / q))) :
    IsInfinite s (x / y) := by
  change (Float.Model.pack
    (UnpackedFloat.div Format.binary64 x.toModel.unpack y.toModel.unpack)).unpack = _
  obtain ⟨u, -, rfl⟩ | ⟨u, n, f, hn, hunpacky, -, -, rfl⟩ := rational?_cases hy
  · exact absurd rfl hq
  obtain ⟨t, -, rfl⟩ | ⟨t, m, e, hm, hunpackx, -, -, rfl⟩ := rational?_cases hx
  · rw [zero_div, toDouble_zero, signed_zero] at hlarge
    exact absurd hlarge (two_zpow_pos 1024).not_ge
  obtain ⟨k, v, accuracy, hdiv, hresidue, hbits⟩ := exists_div_finite (s := t) (t := u) hm hn
  rw [← signed_div] at hlarge
  obtain ⟨rfl, hsize⟩ :=
    sign_eq_of_large (div_nonneg (mul_two_zpow_nonneg m e) (mul_two_zpow_nonneg n f)) hlarge
  rw [hunpackx, hunpacky, hdiv]
  exact unpack_round_of_large hresidue hbits hsize

theorem isPositiveInfinity_add (hlarge : 2 ^ (1024 : ℤ) ≤ toDouble (p + q)) :
    IsPositiveInfinity (x + y) :=
  isInfinite_add (s := .positive) hx hy hlarge

theorem isPositiveInfinity_mul (hlarge : 2 ^ (1024 : ℤ) ≤ toDouble (p * q)) :
    IsPositiveInfinity (x * y) :=
  isInfinite_mul (s := .positive) hx hy hlarge

end Operations

section Infinite

variable {s : Sign}

theorem IsInfinite.add (hx : rational? x = some p) (hy : IsInfinite s y) : IsInfinite s (x + y) := by
  change (Float.Model.pack
    (UnpackedFloat.add Format.binary64 x.toModel.unpack y.toModel.unpack)).unpack = _
  rw [hy]
  obtain ⟨t, hunpackx, -⟩ | ⟨t, m, e, hm, hunpackx, -⟩ := rational?_cases hx <;> rw [hunpackx] <;>
    exact unpack_pack_infinity s

theorem IsInfinite.sub (hx : rational? x = some p) (hy : IsInfinite s y) :
    IsInfinite (-s) (x - y) := by
  change (Float.Model.pack
    (UnpackedFloat.sub Format.binary64 x.toModel.unpack y.toModel.unpack)).unpack = _
  rw [hy]
  obtain ⟨t, hunpackx, -⟩ | ⟨t, m, e, hm, hunpackx, -⟩ := rational?_cases hx <;> rw [hunpackx] <;>
    exact unpack_pack_infinity (-s)

/-- The parts of a positive number. -/
theorem exists_unpack_of_pos (hx : rational? x = some p) (hp : 0 < p) :
    ∃ m e hm, x.toModel.unpack = .finite .positive m e hm := by
  obtain ⟨t, -, rfl⟩ | ⟨t, m, e, hm, hunpack, -, -, rfl⟩ := rational?_cases hx
  · exact absurd hp (lt_irrefl 0)
  · obtain rfl : .positive = t := sign_eq_of_pos (mul_two_zpow_nonneg m e) hp
    exact ⟨m, e, hm, hunpack⟩

theorem IsInfinite.mul (hx : IsInfinite s x) (hy : rational? y = some q) (hq : 0 < q) :
    IsInfinite s (x * y) := by
  obtain ⟨m, e, hm, hunpack⟩ := exists_unpack_of_pos hy hq
  change (Float.Model.pack
    (UnpackedFloat.mul Format.binary64 x.toModel.unpack y.toModel.unpack)).unpack = _
  rw [hx, hunpack]
  cases s <;> exact unpack_pack_infinity _

theorem IsInfinite.div (hx : IsInfinite s x) (hy : rational? y = some q) (hq : 0 < q) :
    IsInfinite s (x / y) := by
  obtain ⟨m, e, hm, hunpack⟩ := exists_unpack_of_pos hy hq
  change (Float.Model.pack
    (UnpackedFloat.div Format.binary64 x.toModel.unpack y.toModel.unpack)).unpack = _
  rw [hx, hunpack]
  cases s <;> exact unpack_pack_infinity _

theorem IsPositiveInfinity.add (hx : rational? x = some p) (hy : IsPositiveInfinity y) :
    IsPositiveInfinity (x + y) :=
  IsInfinite.add (s := .positive) hx hy

theorem IsPositiveInfinity.mul (hx : IsPositiveInfinity x) (hy : rational? y = some q) (hq : 0 < q) :
    IsPositiveInfinity (x * y) :=
  IsInfinite.mul (s := .positive) hx hy hq

end Infinite

theorem IsPositiveInfinity.not_lt (hx : IsPositiveInfinity x) (y : Float) : ¬x < y := by
  rw [lt_iff_compare, hx]
  exact infinity_positive_compare _

theorem IsPositiveInfinity.isNaN_eq_false (hx : IsPositiveInfinity x) : x.isNaN = false := by
  change x.toModel.unpack.isNaN = false
  rw [hx]
  rfl

/-- What is no number is none after a division either. -/
theorem rational?_div_eq_none (hx : rational? x = none) (y : Float) : rational? (x / y) = none := by
  have hnan : ∀ {u : UnpackedFloat}, u = .notANumber → rational? (.ofModel (.pack u)) = none := by
    rintro u rfl
    exact rational?_of_unpack (u := .notANumber) rfl
  have hmodel : x / y
      = .ofModel (.pack (UnpackedFloat.div Format.binary64 x.toModel.unpack y.toModel.unpack)) := rfl
  rw [rational?] at hx
  rw [hmodel]
  cases hunpack : x.toModel.unpack with
  | finite s m e hm => rw [hunpack] at hx; cases hx
  | zero s => rw [hunpack] at hx; cases hx
  | notANumber => exact hnan rfl
  | infinity s =>
    cases y.toModel.unpack with
    | notANumber | infinity t => exact hnan rfl
    | zero t => exact rational?_of_unpack (unpack_pack_infinity (s / t))
    | finite t m e hm => exact rational?_of_unpack (unpack_pack_infinity (s / t))

end Overflow

end FunctionGraph.Number
