import FunctionGraph.Proofs.Plot.OnScreen

/-!
# Where a grid ends

A grid begins at the left end of the domain. At the right end it is only kept from going too far: where
the rounded steps fall short of the domain, so does the last point. It misses the right end by no more
than a few roundings, and not at all where the step is a double. Where the step is rounded to zero the
grid never leaves the left end.
-/

namespace FunctionGraph

open Number (rational? toDouble IsDouble)

namespace Grid

section Short

variable {p q : ℚ} {n i : ℕ}

/-- A grid with the exact step ends at the right end. -/
theorem placed_last_of_exact (hq : IsDouble q) (hn : 0 < n) (hspan : IsDouble (q - p))
    (hstep : IsDouble ((q - p) / n)) : placed p q n n = q := by
  have hn' : (n : ℚ) ≠ 0 := Nat.cast_ne_zero.mpr hn.ne'
  rw [placed, stepWidth, Number.toDouble_of_isDouble hspan, Number.toDouble_of_isDouble hstep,
    mul_div_cancel₀ _ hn', Number.toDouble_of_isDouble hspan, add_sub_cancel,
    Number.toDouble_of_isDouble hq, min_self]

/-- A step of half the least double is none. -/
theorem placed_of_narrow (hp : IsDouble p) (hpq : p ≤ q) (hn : 0 < n)
    (hnarrow : toDouble (q - p) ≤ n * (2 ^ (-1074 : ℤ) / 2)) : placed p q n i = p := by
  have hn' : (0 : ℚ) < n := Nat.cast_pos.mpr hn
  have hspan : 0 ≤ toDouble (q - p) := Number.le_toDouble Number.isDouble_zero (sub_nonneg.mpr hpq)
  have hstep : stepWidth p q n = 0 := by
    refine Number.toDouble_eq_zero ?_
    rwa [abs_of_nonneg (div_nonneg hspan hn'.le), div_le_iff₀' hn']
  rw [placed, hstep, mul_zero, Number.toDouble_zero, add_zero, Number.toDouble_of_isDouble hp,
    min_eq_left hpq]

/-- What the roundings of the span, of the step and of its last multiple add up to. -/
theorem sub_offset_le (hpq : p ≤ q) (hn : 0 < n) :
    q - p - toDouble (n * stepWidth p q n) ≤ (q - p) / 2 ^ 51 + (2 * n + 3) * 2 ^ (-1075 : ℤ) := by
  have hn' : (0 : ℚ) < n := Nat.cast_pos.mpr hn
  have hleast := Number.two_zpow_pos (-1075)
  have hspan0 : 0 ≤ toDouble (q - p) := Number.le_toDouble Number.isDouble_zero (sub_nonneg.mpr hpq)
  have hspan := Number.abs_toDouble_sub_le_part (q - p)
  have hmultiple : |n * stepWidth p q n - toDouble (q - p)|
      ≤ toDouble (q - p) / 2 ^ 53 + n * 2 ^ (-1075 : ℤ) := by
    have hstep := Number.abs_toDouble_sub_le_part (toDouble (q - p) / n)
    rw [abs_of_nonneg (div_nonneg hspan0 hn'.le)] at hstep
    calc |n * stepWidth p q n - toDouble (q - p)|
        = |n * (stepWidth p q n - toDouble (q - p) / n)| := by
          rw [mul_sub, mul_div_cancel₀ _ hn'.ne']
      _ = n * |stepWidth p q n - toDouble (q - p) / n| := by rw [abs_mul, Nat.abs_cast]
      _ ≤ n * (toDouble (q - p) / n / 2 ^ 53 + 2 ^ (-1075 : ℤ)) :=
          mul_le_mul_of_nonneg_left hstep hn'.le
      _ = toDouble (q - p) / 2 ^ 53 + n * 2 ^ (-1075 : ℤ) := by
          rw [mul_add, ← mul_div_assoc, mul_div_cancel₀ _ hn'.ne']
  have hoffset := Number.abs_toDouble_sub_le_part (n * stepWidth p q n)
  rw [abs_of_nonneg (mul_nonneg hn'.le (stepWidth_nonneg hpq))] at hoffset
  rw [abs_of_nonneg (sub_nonneg.mpr hpq)] at hspan
  rw [abs_le] at hspan hmultiple hoffset
  have hcount : 0 ≤ n * (2 : ℚ) ^ (-1075 : ℤ) := mul_nonneg hn'.le hleast.le
  generalize (2 : ℚ) ^ (-1075 : ℤ) = least at *
  linarith

/-- The grid falls short of the right end by a few roundings at most. -/
theorem sub_placed_last_le (hq : IsDouble q) (hpq : p ≤ q) (hn : 0 < n) :
    q - placed p q n n ≤ (|p| + |q|) / 2 ^ 50 + (n + 2) * 2 ^ (-1074 : ℤ) := by
  have hoffset := sub_offset_le hpq hn
  have hunit : (2 : ℚ) ^ (-1074 : ℤ) = 2 ^ (-1075 : ℤ) * 2 := zpow_add_one₀ (by norm_num) (-1075)
  have hleast := Number.two_zpow_pos (-1075)
  have hcount : 0 ≤ n * (2 : ℚ) ^ (-1075 : ℤ) := mul_nonneg (Nat.cast_nonneg n) hleast.le
  have hp := neg_abs_le p
  have hp0 := abs_nonneg p
  have hqabs := le_abs_self q
  have hq0 := abs_nonneg q
  rw [hunit, placed]
  by_cases hpast : q ≤ toDouble (p + toDouble (n * stepWidth p q n))
  · rw [min_eq_right hpast, sub_self]
    positivity
  · have hshort := Number.lt_of_toDouble_lt hq (not_le.mp hpast)
    have hright : 0 ≤ toDouble (n * stepWidth p q n) :=
      Number.le_toDouble Number.isDouble_zero (mul_nonneg (Nat.cast_nonneg n) (stepWidth_nonneg hpq))
    have hsum := Number.abs_toDouble_sub_le_part (p + toDouble (n * stepWidth p q n))
    have hbetween : |p + toDouble (n * stepWidth p q n)| ≤ |p| + |q| :=
      abs_le.mpr ⟨by linarith, by linarith⟩
    rw [min_eq_left (not_le.mp hpast).le]
    rw [abs_le] at hsum
    generalize (2 : ℚ) ^ (-1075 : ℤ) = least at *
    linarith

end Short

end Grid

namespace Plot

variable {b : Bounds Float}

/-- **Where a grid ends.** The grid of a plot begins at the left end of the domain. Its last point is not
past the right end and misses it by a few roundings at most, or by nothing where the width of the domain
and the 800th part of it are doubles. A domain so narrow that the step is zero is not left at all. -/
theorem grid_ends (h : b.IsUsable) :
    ∃ first last p q r, (Grid.points b.xMin b.xMax intervals).head? = some first
      ∧ (Grid.points b.xMin b.xMax intervals).getLast? = some last
      ∧ rational? b.xMin = some p ∧ rational? b.xMax = some q ∧ rational? last = some r
      ∧ first == b.xMin ∧ last ≤ b.xMax
      ∧ q - r ≤ (|p| + |q|) / 2 ^ 50 + 802 * 2 ^ (-1074 : ℤ)
      ∧ (IsDouble (q - p) → IsDouble ((q - p) / 800) → last == b.xMax)
      ∧ (q - p ≤ 400 * 2 ^ (-1074 : ℤ) → last == b.xMin) := by
  obtain ⟨p, q, hp, hq, hpq⟩ := exists_domain h
  have hdouble := Number.isDouble_of_rational? hq
  have hpoint := fun {i} => Grid.rational?_point (n := intervals) (i := i) hp hq h.width (by decide)
    (by decide) hpq
  have hlast := hpoint le_rfl
  refine ⟨_, _, p, q, _, Grid.head?_points _ _ _, Grid.getLast?_points _ _ _, hp, hq, hlast, ?_, ?_, ?_,
    fun hspan hstep => ?_, fun hnarrow => ?_⟩
  · exact (Number.beq_iff_rational (hpoint (Nat.zero_le _)) hp).mpr (Grid.placed_zero hp hpq)
  · exact (Number.le_iff_rational hlast hq).mpr Grid.placed_le
  · refine (Grid.sub_placed_last_le hdouble hpq (by decide)).trans_eq ?_
    norm_num [intervals]
  · exact (Number.beq_iff_rational hlast hq).mpr
      (Grid.placed_last_of_exact hdouble (by decide) hspan hstep)
  · refine (Number.beq_iff_rational hlast hp).mpr
      (Grid.placed_of_narrow (Number.isDouble_of_rational? hp) hpq (by decide) ?_)
    have hunits := Number.isDouble_mul_zpow (k := 400) (e := -1074) (by decide) le_rfl
    rw [Int.cast_ofNat] at hunits
    refine (Number.toDouble_le hunits hnarrow).trans_eq ?_
    rw [intervals, Nat.cast_ofNat]
    ring

/-- The domain from -25 to 25 has a step that is a double. -/
theorem grid_ends_of_exact_step :
    (⟨-25, 25, -10, 10⟩ : Bounds Float).IsUsable ∧
      ∃ last, (Grid.points (-25) 25 intervals).getLast? = some last ∧ last == 25 := by
  have husable : (⟨-25, 25, -10, 10⟩ : Bounds Float).IsUsable := by decide +kernel
  obtain ⟨-, last, p, q, -, -, hlast, hp, hq, -, -, -, -, hexact, -⟩ := grid_ends husable
  have hp' : rational? (-25) = some (-25) := by decide +kernel
  have hq' : rational? 25 = some 25 := by decide +kernel
  obtain rfl := Option.some.inj (hp'.symm.trans hp)
  obtain rfl := Option.some.inj (hq'.symm.trans hq)
  have hspan : IsDouble (25 - -25) := by
    have := Number.isDouble_intCast (k := 50) (by decide)
    norm_num at this ⊢
    exact this
  have hstep : IsDouble ((25 - -25) / 800) := by
    have := Number.isDouble_two_zpow (e := -4) (by decide)
    norm_num at this ⊢
    exact this
  exact ⟨husable, last, hlast, hexact hspan hstep⟩

/-- The grid from -1000 to 3.3 ends at 3.2999999999999545. -/
theorem grid_ends_short :
    (⟨-1000, 3.3, -10, 10⟩ : Bounds Float).IsUsable ∧
      ∃ last, (Grid.points (-1000) 3.3 intervals).getLast? = some last ∧ (last == 3.3) = false :=
  ⟨by decide +kernel, _, Grid.getLast?_points _ _ _, by decide +kernel⟩

end Plot

end FunctionGraph
