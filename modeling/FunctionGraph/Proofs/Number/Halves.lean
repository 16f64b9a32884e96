import FunctionGraph.Proofs.Number.Overflow

/-!
# Halving and doubling

Doubling a number moves it by one power of two and so is exact, unless it leaves the range of doubles.
Halving is exact as well, unless the number is so small that its last place is lost. Two finite doubles
whose difference is none are far from small, so their halves are exact, and the difference of these is
finite.
-/

namespace FunctionGraph.Number

section Halves

variable {x y : Float} {p q d : ℚ}

theorem rational?_two : rational? (2 : Float) = some 2 := by
  decide +kernel

theorem IsDouble.mul_two (h : IsDouble d) : IsDouble (d * 2) := by
  obtain ⟨k, e, hk, he, rfl⟩ := h
  refine ⟨k, e + 1, hk, by omega, ?_⟩
  rw [zpow_add_one₀ (by norm_num), mul_assoc]

theorem IsDouble.half (h : IsDouble d) (hlarge : 2 ^ 53 ≤ |d|) : IsDouble (d / 2) := by
  obtain ⟨k, e, hk, -, rfl⟩ := h
  have he : 0 < e := by
    by_contra hle
    have hk' : |(k : ℚ)| < 2 ^ 53 := by exact_mod_cast hk
    have hunit : (2 : ℚ) ^ e ≤ 1 := zpow_le_one_of_nonpos₀ (by norm_num) (not_lt.mp hle)
    have hsmall : |(k : ℚ) * 2 ^ e| < 2 ^ 53 := by
      rw [abs_mul, abs_of_pos (two_zpow_pos e)]
      exact (mul_le_of_le_one_right (abs_nonneg _) hunit).trans_lt hk'
    exact hsmall.not_ge hlarge
  refine ⟨k, e - 1, hk, by omega, ?_⟩
  rw [zpow_sub_one₀ (by norm_num), mul_div_assoc, div_eq_mul_inv]

theorem rational?_half (hx : rational? x = some p) (hlarge : 2 ^ 53 ≤ |p|) :
    rational? (x / 2) = some (p / 2) := by
  have hhalf := (isDouble_of_rational? hx).half hlarge
  rw [rational?_div hx rational?_two two_ne_zero, toDouble_of_isDouble hhalf]
  refine if_pos (lt_of_le_of_lt ?_ (abs_rational?_lt hx))
  rw [abs_div, abs_two]
  exact half_le_self (abs_nonneg p)

/-- Only large numbers are so far apart that their difference is not finite. -/
theorem large_of_sub_eq_none (hx : rational? x = some p) (hy : rational? y = some q)
    (h : rational? (x - y) = none) : 2 ^ 53 ≤ |p| ∧ 2 ^ 53 ≤ |q| := by
  have hfar : (2 ^ 53 - 1) * 2 ^ (971 : ℤ) + 2 ^ 53 < |p - q| := by
    by_contra hnear
    have hsome := isSome_withinRange_toDouble (not_lt.mp hnear)
    rw [← rational?_sub hx hy, h] at hsome
    cases hsome
  have htriangle := abs_sub p q
  have hp := abs_rational?_le hx
  have hq := abs_rational?_le hy
  constructor <;> linarith

theorem rational?_half_sub (hx : rational? x = some p) (hy : rational? y = some q)
    (h : rational? (x - y) = none) : rational? (x / 2 - y / 2) = some (toDouble (p / 2 - q / 2)) := by
  obtain ⟨hp, hq⟩ := large_of_sub_eq_none hx hy h
  have hlargest := isDouble_mul_zpow (k := 2 ^ 53 - 1) (e := 971) (by decide) (by norm_num)
  rw [Int.cast_sub, Int.cast_pow, Int.cast_ofNat, Int.cast_one] at hlargest
  rw [rational?_sub (rational?_half hx hp) (rational?_half hy hq)]
  refine withinRange_toDouble_of_le hlargest ?_ ?_
  · rw [two_zpow_largest]
    exact mul_lt_mul_of_pos_right (by norm_num) (two_zpow_pos 971)
  · have hx' := abs_le.mp (abs_rational?_le hx)
    have hy' := abs_le.mp (abs_rational?_le hy)
    rw [abs_le]
    constructor <;> linarith

end Halves

end FunctionGraph.Number
