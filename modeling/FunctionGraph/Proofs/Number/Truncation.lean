import FunctionGraph.Number.Rounding
import FunctionGraph.Proofs.Number.Comparison

/-!
# Truncation of doubles

Truncating a double and rounding it to an integer are exact: on finite doubles they are what the same
definitions give on the exact rationals.
-/

namespace FunctionGraph.Number

open Float.Model (UnpackedFloat Format)
open Float.Model.UnpackedFloat

/-- The integer that truncation toward zero leaves of a number. -/
def integerPart (q : ℚ) : ℤ :=
  q.num.tdiv q.den

section IntegerPart

variable {q : ℚ} {sign : Sign} {m : ℕ} {e : ℤ}

theorem integerPart_of_nonneg (hq : 0 ≤ q) : integerPart q = ⌊q⌋ := by
  rw [integerPart, Int.tdiv_eq_ediv_of_nonneg (Rat.num_nonneg.mpr hq), Rat.floor_def']

theorem integerPart_neg (q : ℚ) : integerPart (-q) = -integerPart q := by
  rw [integerPart, Rat.num_neg_eq_neg_num, Rat.den_neg_eq_den, Int.neg_tdiv]
  rfl

theorem integerPart_signed (hq : 0 ≤ q) : integerPart (signed sign q) = sign.apply ⌊q⌋ := by
  cases sign
  · rw [signed_negative, integerPart_neg, integerPart_of_nonneg hq]
    rfl
  · exact integerPart_of_nonneg hq

/-- A power with an integer exponent, as a fraction of natural numbers. -/
theorem zpow_eq_powerOf_div (b : ℕ) (e : ℤ) :
    (b : ℚ) ^ e = powerOf b e / powerOf b (-e) := by
  have hpower : ∀ e, powerOf b e = b ^ e.toNat := fun _ => rfl
  rw [hpower, hpower]
  push_cast
  rcases le_total 0 e with he | he
  · lift e to ℕ using he
    have : (-(e : ℤ)).toNat = 0 := by omega
    rw [this, pow_zero, div_one, Int.toNat_natCast, zpow_natCast]
  · obtain ⟨k, rfl⟩ : ∃ k : ℕ, e = -k := ⟨(-e).toNat, by omega⟩
    have : (-(k : ℤ)).toNat = 0 := by omega
    rw [this, neg_neg, Int.toNat_natCast, pow_zero, zpow_neg, zpow_natCast, one_div]

theorem powerOf_pos {b : ℕ} (hb : 0 < b) (e : ℤ) : 0 < powerOf b e :=
  Nat.pow_pos hb

theorem floor_mul_two_zpow (m : ℕ) (e : ℤ) :
    ⌊(m : ℚ) * 2 ^ e⌋ = (m * powerOf 2 e / powerOf 2 (-e) : ℕ) := by
  have hfraction : (m : ℚ) * 2 ^ e = (m * powerOf 2 e : ℕ) / (powerOf 2 (-e) : ℕ) := by
    have := zpow_eq_powerOf_div 2 e
    push_cast at this ⊢
    rw [this, mul_div_assoc]
  rw [hfraction]
  exact Rat.floor_natCast_div_natCast _ _

end IntegerPart

section Parts

variable {x : Float} {q : ℚ} {sign : Sign} {m : ℕ} {e : ℤ}

theorem truncate_eq (hx : rational? x = some q) : truncate x = .ok (integerPart q) := by
  rw [truncate]
  obtain ⟨s, hunpack, rfl⟩ | ⟨s, m, e, hm, hunpack, -, -, rfl⟩ := rational?_cases hx <;> rw [hunpack]
  · rfl
  · rw [integerPart_signed (mul_two_zpow_nonneg m e), floor_mul_two_zpow]
    push_cast
    rfl

theorem integerPart_cast (n : ℤ) : integerPart n = n := by
  rw [integerPart, Rat.num_intCast, Rat.den_intCast]
  exact Int.tdiv_one n

/-- What is left of a mantissa after whole units, as a number. -/
theorem mod_mul_two_zpow (m : ℕ) (e : ℤ) :
    (m % powerOf 2 (-e) : ℕ) * (2 : ℚ) ^ e = m * 2 ^ e - (⌊(m : ℚ) * 2 ^ e⌋ : ℤ) := by
  have hpower : ∀ i, powerOf 2 i = 2 ^ i.toNat := fun _ => rfl
  rw [floor_mul_two_zpow, Int.cast_natCast, hpower, hpower]
  rcases le_total 0 e with he | he
  · lift e to ℕ using he
    have hnone : (-(e : ℤ)).toNat = 0 := by omega
    rw [hnone, pow_zero, Nat.mod_one, Nat.div_one, Int.toNat_natCast, zpow_natCast]
    push_cast
    ring
  · obtain ⟨k, rfl⟩ : ∃ k : ℕ, e = -k := ⟨(-e).toNat, by omega⟩
    have hnone : (-(k : ℤ)).toNat = 0 := by omega
    rw [hnone, neg_neg, Int.toNat_natCast, pow_zero, mul_one, zpow_neg, zpow_natCast]
    have hsplit : (m : ℚ) = 2 ^ k * (m / 2 ^ k : ℕ) + (m % 2 ^ k : ℕ) := by
      exact_mod_cast (Nat.div_add_mod m (2 ^ k)).symm
    have hpos : (0 : ℚ) < 2 ^ k := by positivity
    rw [eq_sub_iff_add_eq, ← div_eq_mul_inv, ← div_eq_mul_inv, eq_div_iff hpos.ne', add_mul,
      div_mul_cancel₀ _ hpos.ne']
    linarith

theorem whole?_eq (hx : rational? x = some q) :
    whole? x = if q = integerPart q then some (integerPart q) else none := by
  rw [whole?]
  obtain ⟨s, hunpack, rfl⟩ | ⟨s, m, e, hm, hunpack, -, -, rfl⟩ := rational?_cases hx <;> rw [hunpack]
  · rfl
  · have hpart : integerPart (signed s (m * 2 ^ e))
        = s.apply (m * powerOf 2 e / powerOf 2 (-e) : ℕ) := by
      rw [integerPart_signed (mul_two_zpow_nonneg m e), floor_mul_two_zpow]
    have hwhole : m % powerOf 2 (-e) = 0 ↔
        signed s ((m : ℚ) * 2 ^ e) = integerPart (signed s ((m : ℚ) * 2 ^ e)) := by
      rw [integerPart_signed (mul_two_zpow_nonneg m e), cast_apply, signed_injective.eq_iff,
        ← sub_eq_zero (b := (_ : ℚ)), ← mod_mul_two_zpow, mul_eq_zero,
        or_iff_left (two_zpow_pos e).ne', Nat.cast_eq_zero]
    simp only [hwhole]
    rw [hpart]
    push_cast
    rfl

theorem round_zero (e : ℤ) : UnpackedFloat.round Format.binary64 sign 0 e = .zero sign := by
  have hshift : ∀ n : ℕ, (⟨0, false, false⟩ : ExtendedMantissa) >>> n = ⟨0, false, false⟩ := by
    intro n
    induction n with
    | zero => rfl
    | succ n ih =>
      exact congrArg ExtendedMantissa.shiftRightOne ih
  simp only [UnpackedFloat.round, decreaseExponent, roundWithAccuracy, shiftToTargetExponent,
    shiftToExponent, ExtendedMantissa.ofMantissaAndAccuracy, Nat.zero_shiftLeft, hshift,
    ExtendedMantissa.roundedMantissa, ExtendedMantissa.accuracy, Accuracy.roundToNearestEven]
  rfl

theorem rational?_ofParts (sign : Sign) (m : ℕ) (e : ℤ) :
    rational? (ofParts sign m e) = withinRange (toDouble (signed sign (m * 2 ^ e))) := by
  rcases Nat.eq_zero_or_pos m with rfl | hm
  · rw [ofParts, round_zero, Nat.cast_zero, zero_mul, signed_zero, toDouble_zero, withinRange_zero]
    exact rational?_of_unpack (unpack_pack_zero sign)
  · exact rational?_round_exact hm

theorem withinRange_toDouble {p : ℚ} (hx : rational? x = some q) (hp : IsDouble p) (h : |p| ≤ |q|) :
    withinRange (toDouble p) = some p := by
  rw [toDouble_of_isDouble hp]
  exact if_pos (lt_of_le_of_lt h (abs_rational?_lt hx))

theorem rational?_fract (hx : rational? x = some q) :
    rational? (fract x) = some (q - integerPart q) := by
  rw [fract]
  obtain ⟨s, hunpack, rfl⟩ | ⟨s, m, e, hm, hunpack, hcanonical, he, rfl⟩ := rational?_cases hx <;>
    rw [hunpack]
  · rw [integerPart, Rat.num_zero, Int.zero_tdiv, Int.cast_zero, sub_zero]
    exact hx
  · have hpos := two_zpow_pos e
    have hless : m % powerOf 2 (-e) ≤ m := Nat.mod_le _ _
    have hrest : signed s ((m : ℚ) * 2 ^ e) - integerPart (signed s ((m : ℚ) * 2 ^ e))
        = signed s ((m % powerOf 2 (-e) : ℕ) * 2 ^ e) := by
      rw [integerPart_signed (mul_two_zpow_nonneg m e), cast_apply, mod_mul_two_zpow, signed_sub]
    rw [hrest]
    refine (rational?_ofParts s _ e).trans (withinRange_toDouble hx (IsDouble.signed ?_ s) ?_)
    · exact ⟨(m % powerOf 2 (-e) : ℕ), e, by
        rw [abs_of_nonneg (Int.natCast_nonneg _)]
        exact_mod_cast lt_of_le_of_lt hless hcanonical.lt, hcanonical.least_le, by norm_cast⟩
    · rw [abs_signed, abs_signed, abs_of_nonneg (mul_two_zpow_nonneg _ e),
        abs_of_nonneg (mul_two_zpow_nonneg m e)]
      exact mul_le_mul_of_nonneg_right (by exact_mod_cast hless) hpos.le

end Parts

/-! ### Rounding to integers -/

section Nearest

variable {x : Float} {q d : ℚ}

theorem integerPart_eq_of_isInt {n : ℤ} (h : q = n) : q = integerPart q := by
  rw [h, integerPart_cast]

theorem abs_integerPart_le (q : ℚ) : |(integerPart q : ℚ)| ≤ |q| := by
  have hnonneg : ∀ {q : ℚ}, 0 ≤ q → |(integerPart q : ℚ)| ≤ |q| := by
    intro q hq
    have hfloor : (0 : ℚ) ≤ ⌊q⌋ := by exact_mod_cast Int.floor_nonneg.mpr hq
    rw [integerPart_of_nonneg hq, abs_of_nonneg hfloor, abs_of_nonneg hq]
    exact Int.floor_le q
  rcases le_total 0 q with hq | hq
  · exact hnonneg hq
  · have := hnonneg (neg_nonneg.mpr hq)
    rwa [integerPart_neg, Int.cast_neg, abs_neg, abs_neg] at this

/-- A double with a fraction has fewer than 53 bits in front of it. -/
theorem IsDouble.abs_lt_of_fraction (hd : IsDouble d) (h : d ≠ integerPart d) : |d| < 2 ^ 53 := by
  obtain ⟨k, e, hk, -, rfl⟩ := hd
  have he : e ≤ 0 := by
    by_contra hpos
    refine h (integerPart_eq_of_isInt (n := k * 2 ^ e.toNat) ?_)
    push_cast
    rw [← zpow_natCast, Int.toNat_of_nonneg (by omega)]
  have hk' : |(k : ℚ)| < 2 ^ 53 := by exact_mod_cast hk
  calc |(k : ℚ) * 2 ^ e| = |(k : ℚ)| * 2 ^ e := by rw [abs_mul, abs_of_pos (two_zpow_pos e)]
    _ ≤ |(k : ℚ)| * 2 ^ (0 : ℤ) := mul_le_mul_of_nonneg_left (two_zpow_le he) (abs_nonneg _)
    _ = |(k : ℚ)| := by rw [zpow_zero, mul_one]
    _ < 2 ^ 53 := hk'

theorem IsDouble.abs_integerPart_lt (hd : IsDouble d) (h : d ≠ integerPart d) :
    |integerPart d| < 2 ^ 53 := by
  have := (abs_integerPart_le d).trans_lt (hd.abs_lt_of_fraction h)
  exact_mod_cast this

theorem IsDouble.integerPart (hd : IsDouble d) : IsDouble (integerPart d) := by
  by_cases h : d = FunctionGraph.Number.integerPart d
  · rwa [← h]
  · exact isDouble_intCast (hd.abs_integerPart_lt h).le

theorem rational?_trunc (hx : rational? x = some q) :
    rational? (Scalar.trunc x) = some (integerPart q) := by
  have hexact : q - (q - integerPart q) = integerPart q := sub_sub_cancel _ _
  refine (rational?_sub hx (rational?_fract hx)).trans ?_
  rw [hexact]
  exact withinRange_toDouble hx (isDouble_of_rational? hx).integerPart (abs_integerPart_le q)

theorem rational?_ofInt_constants :
    rational? (Scalar.ofInt 0) = some 0 ∧ rational? (Scalar.ofInt 1) = some 1
      ∧ rational? (Scalar.ofInt 1 / Scalar.ofInt 2) = some (1 / 2)
      ∧ rational? (Scalar.ofInt 100) = some 100 := by
  decide +kernel

theorem rational?_magnitude (hx : rational? x = some q) :
    rational? (Scalar.magnitude x) = some |q| := by
  have hzero := rational?_ofInt_constants.1
  rw [Scalar.magnitude]
  split
  · next hneg =>
    rw [abs_of_neg ((lt_iff_rational hx hzero).mp hneg)]
    exact rational?_neg hx
  · next hneg =>
    rw [abs_of_nonneg (not_lt.mp fun h => hneg ((lt_iff_rational hx hzero).mpr h))]
    exact hx

/-- The nearest integer; a half goes away from zero. -/
def nearestAway (q : ℚ) : ℤ :=
  if 0 ≤ q then ⌊q + 1 / 2⌋ else -⌊-q + 1 / 2⌋

theorem nearestAway_of_nonneg (hq : 0 ≤ q) : nearestAway q = ⌊q + 1 / 2⌋ :=
  if_pos hq

theorem nearestAway_neg (q : ℚ) : nearestAway (-q) = -nearestAway q := by
  have hzero : ⌊(1 / 2 : ℚ)⌋ = 0 := by
    rw [Int.floor_eq_iff]
    norm_num
  rcases lt_trichotomy q 0 with hq | rfl | hq
  · rw [nearestAway, nearestAway, if_pos (by linarith), if_neg (by linarith), neg_neg]
  · rw [neg_zero, nearestAway_of_nonneg le_rfl, zero_add, hzero, neg_zero]
  · rw [nearestAway, nearestAway, if_neg (by linarith), if_pos hq.le, neg_neg]

/-- How far the part that truncation leaves is from the nearest integer. -/
theorem nearestAway_eq (q : ℚ) :
    nearestAway q = if 1 / 2 ≤ |q - integerPart q| then
        if 0 < q then integerPart q + 1 else integerPart q - 1
      else integerPart q := by
  have hnonneg : ∀ {q : ℚ}, 0 ≤ q →
      nearestAway q = if 1 / 2 ≤ |q - integerPart q| then integerPart q + 1 else integerPart q := by
    intro q hq
    have hlow := Int.floor_le q
    have hhigh := Int.lt_floor_add_one q
    rw [nearestAway_of_nonneg hq, integerPart_of_nonneg hq, abs_of_nonneg (by linarith)]
    split <;> rw [Int.floor_eq_iff] <;> push_cast <;> constructor <;> linarith
  rcases lt_trichotomy q 0 with hq | rfl | hq
  · have hneg := hnonneg (neg_pos.mpr hq).le
    have hrest : -q - (-integerPart q : ℤ) = -(q - integerPart q) := by
      push_cast
      ring
    rw [nearestAway_neg, integerPart_neg, hrest, abs_neg] at hneg
    rw [if_neg hq.not_gt]
    by_cases hfar : 1 / 2 ≤ |q - integerPart q|
    · rw [if_pos hfar] at hneg ⊢
      omega
    · rw [if_neg hfar] at hneg ⊢
      omega
  · rw [hnonneg le_rfl, integerPart, Rat.num_zero, Int.zero_tdiv]
    norm_num
  · rw [hnonneg hq.le, if_pos hq]

/-- What truncation leaves is exact, computed as a difference too. -/
theorem rational?_sub_trunc (hx : rational? x = some q) :
    rational? (x - Scalar.trunc x) = some (q - integerPart q) := by
  have hfract := rational?_fract hx
  refine (rational?_sub hx (rational?_trunc hx)).trans ?_
  rw [toDouble_rational? hfract, withinRange_rational? hfract]

/-- Where truncation leaves something there is room for one more. -/
theorem rational?_trunc_add_one (hx : rational? x = some q) (hfraction : q ≠ integerPart q) :
    rational? (Scalar.trunc x + Scalar.ofInt 1) = some (integerPart q + 1 : ℚ) := by
  have hlt := abs_lt.mp ((isDouble_of_rational? hx).abs_integerPart_lt hfraction)
  have := withinRange_toDouble_intCast (n := integerPart q + 1) (abs_le.mpr ⟨by omega, by omega⟩)
  push_cast at this
  exact (rational?_add (rational?_trunc hx) rational?_ofInt_constants.2.1).trans this

theorem rational?_trunc_sub_one (hx : rational? x = some q) (hfraction : q ≠ integerPart q) :
    rational? (Scalar.trunc x - Scalar.ofInt 1) = some (integerPart q - 1 : ℚ) := by
  have hlt := abs_lt.mp ((isDouble_of_rational? hx).abs_integerPart_lt hfraction)
  have := withinRange_toDouble_intCast (n := integerPart q - 1) (abs_le.mpr ⟨by omega, by omega⟩)
  push_cast at this
  exact (rational?_sub (rational?_trunc hx) rational?_ofInt_constants.2.1).trans this

/-- Rounding to an integer is exact. -/
theorem rational?_nearest (hx : rational? x = some q) :
    rational? (Scalar.nearest x) = some (nearestAway q : ℚ) := by
  obtain ⟨hzero, -, hhalf, -⟩ := rational?_ofInt_constants
  have hge : Scalar.magnitude (x - Scalar.trunc x) ≥ Scalar.ofInt 1 / Scalar.ofInt 2
      ↔ 1 / 2 ≤ |q - integerPart q| :=
    le_iff_rational hhalf (rational?_magnitude (rational?_sub_trunc hx))
  have hpos : x > Scalar.ofInt 0 ↔ 0 < q := lt_iff_rational hzero hx
  have hfraction : 1 / 2 ≤ |q - integerPart q| → q ≠ integerPart q := by
    intro hfar h
    rw [← h, sub_self, abs_zero] at hfar
    norm_num at hfar
  simp only [Scalar.nearest, nearestAway_eq, hge, hpos]
  split
  · next hfar =>
    split
    · push_cast
      exact rational?_trunc_add_one hx (hfraction hfar)
    · push_cast
      exact rational?_trunc_sub_one hx (hfraction hfar)
  · exact rational?_trunc hx

/-! ### No number -/

theorem isNaN_nan : nan.isNaN = true := by
  decide +kernel

theorem isNaN_iff_unpack : x.isNaN = true ↔ x.toModel.unpack = .notANumber := by
  change x.toModel.unpack.isNaN = true ↔ _
  exact isNaN_iff

theorem isFinite_eq_false_of_isNaN (h : x.isNaN = true) : x.isFinite = false := by
  rw [isNaN_iff_unpack] at h
  change x.toModel.unpack.isFinite = false
  rw [h]
  rfl

theorem isNaN_eq_false_of_rational? (hx : rational? x = some q) : x.isNaN = false := by
  cases hnan : x.isNaN with
  | false => rfl
  | true =>
    have hfinite := isFinite_of_rational? hx
    rw [isFinite_eq_false_of_isNaN hnan] at hfinite
    cases hfinite

theorem isNaN_of_pack {u : UnpackedFloat} (h : u = .notANumber) :
    (Float.ofModel (.pack u)).isNaN = true := by
  rw [h, isNaN_iff_unpack]
  rfl

theorem isNaN_sub {x y : Float} (h : x.isNaN = true ∨ y.isNaN = true) : (x - y).isNaN = true := by
  rw [isNaN_iff_unpack, isNaN_iff_unpack] at h
  refine isNaN_of_pack (u := UnpackedFloat.sub Format.binary64 _ _) ?_
  rcases h with h | h <;> rw [h]
  · rfl
  · cases x.toModel.unpack <;> rfl

theorem isNaN_add {x y : Float} (h : x.isNaN = true ∨ y.isNaN = true) : (x + y).isNaN = true := by
  rw [isNaN_iff_unpack, isNaN_iff_unpack] at h
  refine isNaN_of_pack (u := UnpackedFloat.add Format.binary64 _ _) ?_
  rcases h with h | h <;> rw [h]
  · rfl
  · cases x.toModel.unpack <;> rfl

theorem isNaN_mul {x : Float} (h : x.isNaN = true) (y : Float) : (x * y).isNaN = true := by
  rw [isNaN_iff_unpack] at h
  refine isNaN_of_pack (u := UnpackedFloat.mul Format.binary64 _ _) ?_
  rw [h]
  rfl

theorem isNaN_div {x : Float} (h : x.isNaN = true) (y : Float) : (x / y).isNaN = true := by
  rw [isNaN_iff_unpack] at h
  refine isNaN_of_pack (u := UnpackedFloat.div Format.binary64 _ _) ?_
  rw [h]
  rfl

theorem isNaN_neg {x : Float} (h : x.isNaN = true) : (-x).isNaN = true := by
  rw [isNaN_iff_unpack] at h
  refine isNaN_of_pack (u := UnpackedFloat.neg _) ?_
  rw [h]
  rfl

theorem not_le_of_isNaN {x : Float} (h : x.isNaN = true) (y : Float) : ¬y ≤ x := by
  rw [isNaN_iff_unpack] at h
  change ¬decide (y.toModel ≤ x.toModel) = true
  rw [decide_eq_true_iff]
  change ¬(y.toModel.unpack.compare x.toModel.unpack).any (·.isLE) = true
  rw [h]
  cases y.toModel.unpack <;> simp [UnpackedFloat.compare]

theorem not_isNaN_le {x : Float} (h : x.isNaN = true) (y : Float) : ¬x ≤ y := by
  rw [isNaN_iff_unpack] at h
  change ¬decide (x.toModel ≤ y.toModel) = true
  rw [decide_eq_true_iff]
  change ¬(x.toModel.unpack.compare y.toModel.unpack).any (·.isLE) = true
  rw [h]
  exact Bool.false_ne_true

theorem isNaN_eq_false_of_lt_left {x y : Float} (h : x < y) : x.isNaN = false := by
  rw [lt_iff_compare] at h
  rw [← Bool.not_eq_true, isNaN_iff_unpack]
  intro hnan
  rw [hnan] at h
  cases h

theorem isNaN_eq_false_of_lt_right {x y : Float} (h : x < y) : y.isNaN = false := by
  rw [lt_iff_compare] at h
  rw [← Bool.not_eq_true, isNaN_iff_unpack]
  intro hnan
  rw [hnan] at h
  cases hu : x.toModel.unpack <;> rw [hu] at h <;> cases h

theorem isNaN_fract (hx : rational? x = none) : (fract x).isNaN = true := by
  rw [fract]
  rw [rational?] at hx
  cases hunpack : x.toModel.unpack <;> rw [hunpack] at hx
  · exact isNaN_nan
  · exact isNaN_nan
  · cases hx
  · cases hx

theorem isNaN_nearest (hx : rational? x = none) : (Scalar.nearest x).isNaN = true := by
  have htrunc : (Scalar.trunc x).isNaN = true := isNaN_sub (Or.inr (isNaN_fract hx))
  have hrest : (x - Scalar.trunc x).isNaN = true := isNaN_sub (Or.inr htrunc)
  have hmagnitude : (Scalar.magnitude (x - Scalar.trunc x)).isNaN = true := by
    rw [Scalar.magnitude]
    split
    · exact isNaN_neg hrest
    · exact hrest
  rw [Scalar.nearest, if_neg (not_le_of_isNaN hmagnitude _)]
  exact htrunc

/-! ### Two decimals -/

theorem rational?_roundHundredths (hx : rational? (x * Scalar.ofInt 100) = some q) :
    rational? (Scalar.roundHundredths x) = some (toDouble (nearestAway q / 100)) := by
  obtain ⟨-, -, -, hhundred⟩ := rational?_ofInt_constants
  have hn := rational?_nearest hx
  have hless : |(nearestAway q : ℚ) / 100| ≤ |(nearestAway q : ℚ)| := by
    rw [abs_div]
    exact div_le_self (abs_nonneg _) (by norm_num)
  have hsmall : |toDouble (nearestAway q / 100)| ≤ |(nearestAway q : ℚ)| := by
    refine abs_toDouble_le ?_ hless
    rcases abs_choice (nearestAway q : ℚ) with habs | habs <;> rw [habs]
    · exact isDouble_of_rational? hn
    · exact (isDouble_of_rational? hn).neg
  exact (rational?_div hn hhundred (by norm_num)).trans
    (if_pos (lt_of_le_of_lt hsmall (abs_rational?_lt hn)))

theorem isNaN_roundHundredths (hx : rational? (x * Scalar.ofInt 100) = none) :
    (Scalar.roundHundredths x).isNaN = true :=
  isNaN_div (isNaN_nearest hx) _

/-- A number with two decimals is never infinite. -/
theorem isFinite_or_isNaN_roundHundredths (x : Float) :
    (Scalar.roundHundredths x).isFinite = true ∨ (Scalar.roundHundredths x).isNaN = true := by
  cases hx : rational? (x * Scalar.ofInt 100) with
  | none => exact Or.inr (isNaN_roundHundredths hx)
  | some q => exact Or.inl (isFinite_of_rational? (rational?_roundHundredths hx))

end Nearest

end FunctionGraph.Number
