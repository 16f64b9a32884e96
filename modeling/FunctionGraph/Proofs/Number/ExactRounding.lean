import FunctionGraph.Proofs.Number.FloorCeil
import FunctionGraph.Proofs.Number.Hundredths
import FunctionGraph.Proofs.Number.Overflow

/-!
# Rounding without rounding errors

Truncation, floor, ceiling and the nearest integer of a double are computed with operations on doubles,
and none of these rounds: a double with a fraction is small enough for its fraction and for the integers
on both sides of it to be doubles. So the results are those of the exact number. Only rounding to two
decimals rounds twice more, and keeps order and sign nevertheless.
-/

namespace FunctionGraph.Number

open Float.Model.UnpackedFloat (Sign)

/-- No integer is nearer, and of those equally near none is farther from zero. -/
structure IsNearestAway (q : ℚ) (n : ℤ) : Prop where
  near : ∀ m : ℤ, |q - n| ≤ |q - m|
  away : ∀ m : ℤ, |q - m| = |q - n| → |m| ≤ |n|

/-- What is computed of a double that stands for `q`, on the way and in the end. The number one is added
or subtracted only where truncation leaves something. -/
structure RoundsExactly (x : Float) (q : ℚ) : Prop where
  fract : rational? (fract x) = some (q - integerPart q)
  rest : rational? (x - Scalar.trunc x) = some (q - integerPart q)
  above : q ≠ integerPart q →
    rational? (Scalar.trunc x + Scalar.ofInt 1) = some (integerPart q + 1 : ℚ)
  below : q ≠ integerPart q →
    rational? (Scalar.trunc x - Scalar.ofInt 1) = some (integerPart q - 1 : ℚ)
  trunc : rational? (Scalar.trunc x) = some (if 0 ≤ q then ⌊q⌋ else ⌈q⌉ : ℤ)
  floor : rational? (Scalar.floor x) = some (⌊q⌋ : ℚ)
  ceil : rational? (Scalar.ceil x) = some (⌈q⌉ : ℚ)
  nearest : ∃ n : ℤ, IsNearestAway q n ∧ rational? (Scalar.nearest x) = some (n : ℚ)

structure RoundsToNaN (x : Float) : Prop where
  trunc : (Scalar.trunc x).isNaN = true
  floor : (Scalar.floor x).isNaN = true
  ceil : (Scalar.ceil x).isNaN = true
  nearest : (Scalar.nearest x).isNaN = true

/-- The function keeps the order of numbers, as far as they are finite, and their signs. -/
structure KeepsOrder (f : Float → Float) (domain : Float → Bool) : Prop where
  monotone : ∀ x y, domain x = true → domain y = true → x ≤ y → f x ≤ f y
  odd : ∀ x, domain x = true → (f (-x) == -f x) = true

section Nearest

variable {q : ℚ} {n : ℤ}

/-- A number is not near to two integers. -/
theorem one_le_abs_sub_add (q : ℚ) {m n : ℤ} (h : m ≠ n) : 1 ≤ |q - m| + |q - n| := by
  have hapart : (1 : ℚ) ≤ |(m : ℚ) - n| := by
    exact_mod_cast Int.one_le_abs (sub_ne_zero.mpr h)
  have htriangle := abs_sub_le (m : ℚ) q n
  rw [abs_sub_comm (m : ℚ) q] at htriangle
  exact hapart.trans htriangle

theorem isNearestAway_of_nonneg (hq : 0 ≤ q) : IsNearestAway q (nearestAway q) := by
  have hlow := Int.floor_le (q + 1 / 2)
  have hhigh := Int.lt_floor_add_one (q + 1 / 2)
  have hnonneg := nearestAway_nonneg hq
  rw [← nearestAway_of_nonneg hq] at hlow hhigh
  have hnear : |q - nearestAway q| ≤ 1 / 2 := by
    rw [abs_le]
    constructor <;> linarith
  refine ⟨fun m => ?_, fun m htie => ?_⟩
  · by_cases h : m = nearestAway q
    · rw [h]
    · linarith [one_le_abs_sub_add q h]
  · by_cases h : m = nearestAway q
    · rw [h]
    -- Both are half a unit away, so the other one is on the side of zero, but not beyond it.
    have hfar := one_le_abs_sub_add q h
    obtain ⟨habove, hbelow⟩ := abs_le.mp (show |q - m| ≤ 1 / 2 by linarith)
    have hupper : (nearestAway q : ℚ) = q + 1 / 2 := by
      rcases abs_choice (q - nearestAway q) with hside | hside <;> linarith
    have hle : m ≤ nearestAway q := by
      have : (m : ℚ) ≤ nearestAway q := by linarith
      exact_mod_cast this
    have hm : 0 ≤ m := by
      have : (-1 : ℚ) < m := by linarith
      have : -1 < m := by exact_mod_cast this
      omega
    rwa [abs_of_nonneg hm, abs_of_nonneg hnonneg]

theorem IsNearestAway.neg (h : IsNearestAway q n) : IsNearestAway (-q) (-n) := by
  have hflip : ∀ m : ℤ, |-q - m| = |q - (-m : ℤ)| := by
    intro m
    rw [← abs_neg, Int.cast_neg]
    ring_nf
  refine ⟨fun m => ?_, fun m htie => ?_⟩
  · rw [hflip, hflip, neg_neg]
    exact h.near (-m)
  · rw [hflip, hflip, neg_neg] at htie
    rw [abs_neg, ← abs_neg m]
    exact h.away (-m) htie

theorem isNearestAway_nearestAway (q : ℚ) : IsNearestAway q (nearestAway q) := by
  rcases le_total 0 q with hq | hq
  · exact isNearestAway_of_nonneg hq
  · have hneg := (isNearestAway_of_nonneg (neg_nonneg.mpr hq)).neg
    rwa [nearestAway_neg, neg_neg, neg_neg] at hneg

theorem integerPart_eq_ite (q : ℚ) : integerPart q = if 0 ≤ q then ⌊q⌋ else ⌈q⌉ := by
  split
  · next hq => exact integerPart_of_nonneg hq
  · next hq => exact integerPart_of_nonpos (not_le.mp hq).le

end Nearest

section Finite

variable {x y : Float} {p q : ℚ}

theorem trunc_bne_iff (hx : rational? x = some q) :
    (Scalar.trunc x != x) = true ↔ (integerPart q : ℚ) ≠ q := by
  rw [bne, Bool.not_eq_true', ← Bool.not_eq_true, beq_iff_rational (rational?_trunc hx) hx]

theorem rational?_floor (hx : rational? x = some q) :
    rational? (Scalar.floor x) = some (⌊q⌋ : ℚ) := by
  have hcorrects : (x < Scalar.ofInt 0 ∧ (Scalar.trunc x != x) = true)
      ↔ q < 0 ∧ (integerPart q : ℚ) ≠ q :=
    and_congr (lt_iff_rational hx rational?_ofInt_constants.1) (trunc_bne_iff hx)
  rw [Scalar.floor, if_congr hcorrects rfl rfl, floor_eq_integerPart]
  split
  · next h =>
    rw [rational?_trunc_sub_one hx h.2.symm]
    push_cast
    rfl
  · exact rational?_trunc hx

theorem rational?_ceil (hx : rational? x = some q) :
    rational? (Scalar.ceil x) = some (⌈q⌉ : ℚ) := by
  have hcorrects : (x > Scalar.ofInt 0 ∧ (Scalar.trunc x != x) = true)
      ↔ 0 < q ∧ (integerPart q : ℚ) ≠ q :=
    and_congr (lt_iff_rational rational?_ofInt_constants.1 hx) (trunc_bne_iff hx)
  rw [Scalar.ceil, if_congr hcorrects rfl rfl, ceil_eq_integerPart]
  split
  · next h =>
    rw [rational?_trunc_add_one hx h.2.symm]
    push_cast
    rfl
  · exact rational?_trunc hx

theorem roundsExactly (hx : rational? x = some q) : RoundsExactly x q where
  fract := rational?_fract hx
  rest := rational?_sub_trunc hx
  above := rational?_trunc_add_one hx
  below := rational?_trunc_sub_one hx
  trunc := by rw [← integerPart_eq_ite]; exact rational?_trunc hx
  floor := rational?_floor hx
  ceil := rational?_ceil hx
  nearest := ⟨nearestAway q, isNearestAway_nearestAway q, rational?_nearest hx⟩

theorem keepsOrder_nearest : KeepsOrder Scalar.nearest Float.isFinite where
  monotone x y hx hy h := by
    obtain ⟨p, hp⟩ := exists_rational? hx
    obtain ⟨q, hq⟩ := exists_rational? hy
    rw [le_iff_rational (rational?_nearest hp) (rational?_nearest hq)]
    exact_mod_cast nearestAway_mono ((le_iff_rational hp hq).mp h)
  odd x hx := by
    obtain ⟨p, hp⟩ := exists_rational? hx
    rw [beq_iff_rational (rational?_nearest (rational?_neg hp)) (rational?_neg (rational?_nearest hp)),
      nearestAway_neg, Int.cast_neg]

end Finite

/-! ### Two decimals -/

section Hundredths

variable {x y : Float} {p q : ℚ}

theorem isFinite_eq_false_of_isInfinite {s : Sign} (hx : IsInfinite s x) : x.isFinite = false := by
  change x.toModel.unpack.isFinite = false
  rw [hx]
  rfl

/-- The hundredfold of what is not finite is not finite either. -/
theorem isFinite_of_hundredfold (h : (hundredfold x).isFinite = true) : x.isFinite = true := by
  have hhundred := rational?_ofInt_constants.2.2.2
  by_contra hnot
  rw [Bool.not_eq_true, ← isSome_rational?, Option.isSome_eq_false_iff, Option.isNone_iff_eq_none,
    rational?] at hnot
  have hnone : (hundredfold x).isFinite = false := by
    cases hunpack : x.toModel.unpack with
    | notANumber => exact isFinite_eq_false_of_isNaN (isNaN_mul (isNaN_iff_unpack.mpr hunpack) _)
    | infinity s => exact isFinite_eq_false_of_isInfinite (IsInfinite.mul hunpack hhundred (by norm_num))
    | zero s => rw [hunpack] at hnot; cases hnot
    | finite s m e hm => rw [hunpack] at hnot; cases hnot
  rw [h] at hnone
  cases hnone

theorem hundredths_neg (q : ℚ) : hundredths (-q) = -hundredths q := by
  rw [hundredths, hundredths, neg_mul, toDouble_neg, nearestAway_neg]

theorem isFinite_hundredfold_neg (h : (hundredfold x).isFinite = true) :
    (hundredfold (-x)).isFinite = true := by
  obtain ⟨p, hp⟩ := exists_rational? (isFinite_of_hundredfold h)
  have hrange := hundredfold_inRange hp h
  refine isFinite_of_rational? ((rational?_hundredfold (rational?_neg hp)).trans (if_pos ?_))
  rwa [neg_mul, toDouble_neg, abs_neg]

theorem keepsOrder_roundHundredths :
    KeepsOrder Scalar.roundHundredths fun x => (hundredfold x).isFinite where
  monotone x y hx hy h := by
    obtain ⟨p, hp⟩ := exists_rational? (isFinite_of_hundredfold hx)
    obtain ⟨q, hq⟩ := exists_rational? (isFinite_of_hundredfold hy)
    rw [le_iff_rational (rational?_roundHundredths_of_isFinite hp hx)
      (rational?_roundHundredths_of_isFinite hq hy)]
    exact toDouble_hundredths_mono ((le_iff_rational hp hq).mp h)
  odd x hx := by
    obtain ⟨p, hp⟩ := exists_rational? (isFinite_of_hundredfold hx)
    rw [beq_iff_rational
      (rational?_roundHundredths_of_isFinite (rational?_neg hp) (isFinite_hundredfold_neg hx))
      (rational?_neg (rational?_roundHundredths_of_isFinite hp hx)),
      hundredths_neg, Int.cast_neg, neg_div, toDouble_neg]

end Hundredths

/-! ### No number -/

section NaN

variable {x : Float}

theorem roundsToNaN (h : rational? x = none) : RoundsToNaN x := by
  have htrunc : (Scalar.trunc x).isNaN = true := isNaN_sub (Or.inr (isNaN_fract h))
  refine ⟨htrunc, ?_, ?_, isNaN_nearest h⟩
  · rw [Scalar.floor]
    split
    · exact isNaN_sub (Or.inl htrunc)
    · exact htrunc
  · rw [Scalar.ceil]
    split
    · exact isNaN_add (Or.inl htrunc)
    · exact htrunc

end NaN

/-- **Rounding is exact.** On finite doubles truncation, floor, ceiling and the nearest integer are those
of the exact number, and so is every result on the way to them; what is no finite number gives none. So
the nearest integer keeps order and sign, and where the hundredfold is in range two decimals do too. -/
theorem rounding_isExact :
    (∀ x : Float, x.isFinite = true → ∃ q, rational? x = some q ∧ RoundsExactly x q) ∧
      (∀ x : Float, x.isFinite = false → RoundsToNaN x) ∧
      KeepsOrder Scalar.nearest Float.isFinite ∧
      KeepsOrder Scalar.roundHundredths fun x => (hundredfold x).isFinite := by
  refine ⟨fun x hx => ?_, fun x hx => ?_, keepsOrder_nearest, keepsOrder_roundHundredths⟩
  · obtain ⟨q, hq⟩ := exists_rational? hx
    exact ⟨q, hq, roundsExactly hq⟩
  · rw [← isSome_rational?, Option.isSome_eq_false_iff, Option.isNone_iff_eq_none] at hx
    exact roundsToNaN hx

/-- The last double below one half, a half where doubles are half a unit apart, and no number. -/
theorem rounding_isExact_around_halves :
    (∃ q, rational? 0.49999999999999994 = some q ∧ RoundsExactly 0.49999999999999994 q) ∧
      RoundsToNaN nan ∧
      Scalar.nearest (0.49999999999999994 : Float) ≤ Scalar.nearest 4503599627370495.5 ∧
      (Scalar.nearest (-4503599627370495.5 : Float) == -Scalar.nearest 4503599627370495.5) = true ∧
      Scalar.roundHundredths (-2.675 : Float) ≤ Scalar.roundHundredths 1e306 ∧
      (Scalar.roundHundredths (-2.675 : Float) == -Scalar.roundHundredths 2.675) = true := by
  obtain ⟨hfinite, hnan, hnearest, htwo⟩ := rounding_isExact
  exact ⟨hfinite _ (by decide +kernel), hnan _ (by decide +kernel),
    hnearest.monotone _ _ (by decide +kernel) (by decide +kernel) (by decide +kernel),
    hnearest.odd _ (by decide +kernel),
    htwo.monotone _ _ (by decide +kernel) (by decide +kernel) (by decide +kernel),
    htwo.odd _ (by decide +kernel)⟩

end FunctionGraph.Number
