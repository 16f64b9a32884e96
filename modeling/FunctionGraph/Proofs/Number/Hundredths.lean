import FunctionGraph.Proofs.Number.Conversion
import FunctionGraph.Proofs.Number.Truncation

/-!
# Two decimals

Rounding to two decimals keeps the order of numbers and gives zero where less than half a hundredth is
left. It starts with a multiplication by a hundred, and where that leaves the range of doubles the
result is no number.
-/

namespace FunctionGraph.Number

def hundredfold (x : Float) : Float :=
  x * Scalar.ofInt 100

/-- How many hundredths there are, once the hundredfold has been rounded to a double. -/
noncomputable def hundredths (q : ℚ) : ℤ :=
  nearestAway (toDouble (q * 100))

section Away

variable {p q : ℚ}

theorem nearestAway_nonneg (hq : 0 ≤ q) : 0 ≤ nearestAway q := by
  rw [nearestAway_of_nonneg hq]
  exact Int.floor_nonneg.mpr (by linarith)

theorem nearestAway_mono (h : p ≤ q) : nearestAway p ≤ nearestAway q := by
  have hnonneg : ∀ {p q : ℚ}, 0 ≤ p → p ≤ q → nearestAway p ≤ nearestAway q := by
    intro p q hp h
    rw [nearestAway_of_nonneg hp, nearestAway_of_nonneg (hp.trans h)]
    exact Int.floor_le_floor (by linarith)
  rcases le_total 0 p with hp | hp
  · exact hnonneg hp h
  have hneg := nearestAway_neg p
  have hpneg := nearestAway_nonneg (neg_nonneg.mpr hp)
  rcases le_total 0 q with hq | hq
  · have := nearestAway_nonneg hq
    omega
  · have := hnonneg (neg_nonneg.mpr hq) (neg_le_neg h)
    rw [nearestAway_neg q] at this
    omega

theorem hundredths_mono (h : p ≤ q) : hundredths p ≤ hundredths q :=
  nearestAway_mono (toDouble_mono (mul_le_mul_of_nonneg_right h (by norm_num)))

theorem toDouble_hundredths_mono (h : p ≤ q) :
    toDouble (hundredths p / 100) ≤ toDouble (hundredths q / 100) := by
  have hcast : (hundredths p : ℚ) ≤ hundredths q := by exact_mod_cast hundredths_mono h
  exact toDouble_mono (div_le_div_of_nonneg_right hcast (by norm_num))

/-- Two decimals other than zero are a hundredth away from it, also when rounded. -/
theorem toDouble_hundredth_le {n : ℤ} (hn : n ≠ 0) : toDouble (1 / 100) ≤ |toDouble (n / 100)| := by
  have hnonneg : ∀ {n : ℤ}, 0 < n → toDouble (1 / 100) ≤ toDouble (n / 100) := by
    intro n hpos
    have hcast : (1 : ℚ) ≤ n := by exact_mod_cast hpos
    exact toDouble_mono (div_le_div_of_nonneg_right hcast (by norm_num))
  rcases hn.lt_or_gt with hneg | hpos
  · have hflip : toDouble (n / 100) = -toDouble ((-n : ℤ) / 100) := by
      rw [← toDouble_neg]
      push_cast
      rw [neg_div, neg_neg]
    rw [hflip, abs_neg]
    exact (hnonneg (neg_pos.mpr hneg)).trans (le_abs_self _)
  · exact (hnonneg hpos).trans (le_abs_self _)

end Away

section Doubles

variable {x y z : Float} {p : ℚ}

theorem rational?_hundredfold (hx : rational? x = some p) :
    rational? (hundredfold x) = withinRange (toDouble (p * 100)) :=
  rational?_mul hx rational?_ofInt_constants.2.2.2

theorem hundredfold_inRange (hx : rational? x = some p) (h : (hundredfold x).isFinite = true) :
    |toDouble (p * 100)| < 2 ^ (1024 : ℤ) := by
  obtain ⟨q, hq⟩ := exists_rational? h
  have hvalue := rational?_hundredfold hx
  rw [hq, eq_comm, withinRange_eq_some] at hvalue
  exact hvalue.1

theorem rational?_roundHundredths_of_isFinite (hx : rational? x = some p)
    (h : (hundredfold x).isFinite = true) :
    rational? (Scalar.roundHundredths x) = some (toDouble (hundredths p / 100)) :=
  rational?_roundHundredths ((rational?_hundredfold hx).trans (if_pos (hundredfold_inRange hx h)))

/-- There is a result just as long as the hundredfold is in range. -/
theorem isFinite_roundHundredths (x : Float) :
    (Scalar.roundHundredths x).isFinite = (hundredfold x).isFinite := by
  rw [← isSome_rational? (hundredfold x)]
  cases hx : rational? (hundredfold x) with
  | none => exact isFinite_eq_false_of_isNaN (isNaN_roundHundredths hx)
  | some q => exact isFinite_of_rational? (rational?_roundHundredths hx)

theorem isFinite_hundredfold_of_isNaN_eq_false (h : (Scalar.roundHundredths x).isNaN = false) :
    (hundredfold x).isFinite = true := by
  rw [← isFinite_roundHundredths]
  exact (isFinite_or_isNaN_roundHundredths x).resolve_right (by rw [h]; exact Bool.false_ne_true)

/-- What lies between two numbers whose hundredfold is in range has one in range. -/
theorem isFinite_hundredfold_of_between (hx : x.isFinite = true) (hy : y.isFinite = true)
    (hz : z.isFinite = true) (hxz : x ≤ z) (hzy : z ≤ y) (hlow : (hundredfold x).isFinite = true)
    (hhigh : (hundredfold y).isFinite = true) : (hundredfold z).isFinite = true := by
  obtain ⟨p, hp⟩ := exists_rational? hx
  obtain ⟨q, hq⟩ := exists_rational? hy
  obtain ⟨r, hr⟩ := exists_rational? hz
  have hpr : toDouble (p * 100) ≤ toDouble (r * 100) :=
    toDouble_mono (mul_le_mul_of_nonneg_right ((le_iff_rational hp hr).mp hxz) (by norm_num))
  have hrq : toDouble (r * 100) ≤ toDouble (q * 100) :=
    toDouble_mono (mul_le_mul_of_nonneg_right ((le_iff_rational hr hq).mp hzy) (by norm_num))
  have hp' := abs_lt.mp (hundredfold_inRange hp hlow)
  have hq' := abs_lt.mp (hundredfold_inRange hq hhigh)
  have hinside : |toDouble (r * 100)| < 2 ^ (1024 : ℤ) :=
    abs_lt.mpr ⟨hp'.1.trans_le hpr, hrq.trans_lt hq'.2⟩
  exact isFinite_of_rational? ((rational?_hundredfold hr).trans (if_pos hinside))

/-- Two decimals do not change the order. -/
theorem not_roundHundredths_lt (hx : x.isFinite = true) (hy : y.isFinite = true) (h : x ≤ y) :
    ¬Scalar.roundHundredths y < Scalar.roundHundredths x := by
  obtain ⟨p, hp⟩ := exists_rational? hx
  obtain ⟨q, hq⟩ := exists_rational? hy
  intro hlt
  have hx' := rational?_roundHundredths_of_isFinite hp
    (isFinite_hundredfold_of_isNaN_eq_false (isNaN_eq_false_of_lt_right hlt))
  have hy' := rational?_roundHundredths_of_isFinite hq
    (isFinite_hundredfold_of_isNaN_eq_false (isNaN_eq_false_of_lt_left hlt))
  rw [lt_iff_rational hy' hx'] at hlt
  exact (toDouble_hundredths_mono ((le_iff_rational hp hq).mp h)).not_gt hlt

/-- Where rounding does not move the ends of a range outwards, it takes no number out of the range. -/
theorem roundHundredths_between (hx : x.isFinite = true) (hy : y.isFinite = true) (hz : z.isFinite = true)
    (hxz : x ≤ z) (hzy : z ≤ y) (hlow : x ≤ Scalar.roundHundredths x)
    (hhigh : Scalar.roundHundredths y ≤ y) : (Scalar.roundHundredths z).isFinite = true ∧
      x ≤ Scalar.roundHundredths z ∧ Scalar.roundHundredths z ≤ y := by
  obtain ⟨p, hp⟩ := exists_rational? hx
  obtain ⟨q, hq⟩ := exists_rational? hy
  obtain ⟨r, hr⟩ := exists_rational? hz
  have hxfold : (hundredfold x).isFinite = true := isFinite_hundredfold_of_isNaN_eq_false <|
    Bool.eq_false_iff.mpr fun hnan => not_le_of_isNaN hnan x hlow
  have hyfold : (hundredfold y).isFinite = true := isFinite_hundredfold_of_isNaN_eq_false <|
    Bool.eq_false_iff.mpr fun hnan => not_isNaN_le hnan y hhigh
  have hx' := rational?_roundHundredths_of_isFinite hp hxfold
  have hy' := rational?_roundHundredths_of_isFinite hq hyfold
  have hz' := rational?_roundHundredths_of_isFinite hr
    (isFinite_hundredfold_of_between hx hy hz hxz hzy hxfold hyfold)
  rw [le_iff_rational hp hr] at hxz
  rw [le_iff_rational hr hq] at hzy
  rw [le_iff_rational hp hx'] at hlow
  rw [le_iff_rational hy' hq] at hhigh
  refine ⟨isFinite_of_rational? hz', ?_, ?_⟩
  · exact (le_iff_rational hp hz').mpr (hlow.trans (toDouble_hundredths_mono hxz))
  · exact (le_iff_rational hz' hq).mpr ((toDouble_hundredths_mono hzy).trans hhigh)

theorem rational?_zero : rational? (0 : Float) = some 0 := by
  decide +kernel

theorem isFinite_zero : (0 : Float).isFinite = true :=
  isFinite_of_rational? rational?_zero

theorem roundHundredths_zero : Scalar.roundHundredths (0 : Float) = 0 := by
  decide +kernel

theorem not_zero_lt_roundHundredths (hx : x.isFinite = true) (h : x ≤ 0) :
    ¬0 < Scalar.roundHundredths x := by
  have hle := not_roundHundredths_lt hx isFinite_zero h
  rwa [roundHundredths_zero] at hle

theorem not_roundHundredths_lt_zero (hx : x.isFinite = true) (h : 0 ≤ x) :
    ¬Scalar.roundHundredths x < 0 := by
  have hle := not_roundHundredths_lt isFinite_zero hx h
  rwa [roundHundredths_zero] at hle

end Doubles

end FunctionGraph.Number
