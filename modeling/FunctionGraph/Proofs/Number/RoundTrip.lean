import FunctionGraph.Number.Rounding
import FunctionGraph.Proofs.Number.Numerals
import FunctionGraph.Proofs.Number.PartwiseSum

/-!
# Labels read back

A label is written to be read by people, and reading one is not the inverse of writing it. An integer
comes back, and so does a number below one that needs no exponent. A number with a whole part and a
fraction is rounded part by part and may end on the double next to it. A label with an exponent is no
numeral.
-/

namespace FunctionGraph.Number

open Float.Model.UnpackedFloat (Sign)

/-- Too near zero to be written without an exponent. -/
def IsTiny (x : Float) : Prop :=
  0 < Scalar.magnitude x ∧ Scalar.magnitude x < 0.0001

/-- An integer, or a number below one that is written without an exponent. -/
def IsPreserved (x : Float) : Prop :=
  (whole? x).isSome = true ∨ 0.0001 ≤ Scalar.magnitude x ∧ Scalar.magnitude x < 1

instance : DecidablePred IsTiny := fun x =>
  inferInstanceAs (Decidable (0 < Scalar.magnitude x ∧ Scalar.magnitude x < 0.0001))

instance : DecidablePred IsPreserved := fun x =>
  inferInstanceAs (Decidable
    ((whole? x).isSome = true ∨ 0.0001 ≤ Scalar.magnitude x ∧ Scalar.magnitude x < 1))

/-- What comes of a number `x` whose label is read as `y`. -/
structure ReturnsAs (x y : Float) : Prop where
  preserved : IsPreserved x → (y == x) = true
  tiny : IsTiny x → y.isNaN = true
  finite : ¬IsTiny x → y.isFinite = true
  /-- A number that is not tiny comes back, or one of its two neighbours does. -/
  adjacent : ¬IsTiny x → ∀ z : Float, ¬(x < z ∧ z < y) ∧ ¬(y < z ∧ z < x)

/-- The double nearest to `10 ^ -4`. -/
def leastPositional : Magnitude :=
  ⟨7378697629483821, -66⟩

section Labels

variable {x y : Float} {p q : ℚ} {X : Magnitude}

theorem rational?_thresholds :
    rational? 0 = some 0 ∧ rational? 1 = some 1
      ∧ rational? 0.0001 = some leastPositional.value := by
  decide +kernel

theorem shortest_leastPositional : leastPositional.shortest = ⟨1, -4⟩ := by
  decide +kernel

theorem isCanonical_leastPositional :
    IsCanonical leastPositional.mantissa leastPositional.exponent :=
  ⟨by decide, by decide, Or.inr (by decide)⟩

theorem toDouble_ten_zpow : toDouble (10 ^ (-4 : ℤ)) = leastPositional.value := by
  have := Magnitude.toDouble_shortest isCanonical_leastPositional (by decide)
  rwa [shortest_leastPositional, Decimal.value, Nat.cast_one, one_mul] at this

theorem shortest_digits_pos (hcanonical : IsCanonical X.mantissa X.exponent) (hpos : 0 < X.mantissa) :
    0 < X.shortest.digits := by
  by_contra hzero
  have hD := Magnitude.toDouble_shortest hcanonical hpos
  have hX := Magnitude.value_pos hpos
  rw [Decimal.value, Nat.eq_zero_of_not_pos hzero, Nat.cast_zero, zero_mul, toDouble_zero] at hD
  exact hX.ne hD

/-- The decimals below `10 ^ -4` are those of the doubles below the one nearest to it, which itself is
written as `10 ^ -4`. -/
theorem shortest_lt_iff (hcanonical : IsCanonical X.mantissa X.exponent) (hpos : 0 < X.mantissa) :
    X.shortest.value < 10 ^ (-4 : ℤ) ↔ X.value < leastPositional.value := by
  have hX := Magnitude.value_pos hpos
  have hD := Magnitude.toDouble_shortest hcanonical hpos
  have hD0 : 0 < X.shortest.value := lt_of_lt_toDouble isDouble_zero (hD.symm ▸ hX)
  constructor
  · intro hlt
    have hle := toDouble_mono_of_pos hD0 hlt.le
    rw [hD, toDouble_ten_zpow] at hle
    refine lt_of_le_of_ne hle fun heq => ?_
    obtain ⟨hmantissa, hexponent⟩ := hcanonical.unique isCanonical_leastPositional heq
    obtain rfl : X = leastPositional := by
      cases X
      exact congrArg₂ Magnitude.mk hmantissa hexponent
    rw [shortest_leastPositional, Decimal.value, Nat.cast_one, one_mul] at hlt
    exact hlt.false
  · intro hlt
    by_contra hge
    have := toDouble_mono_of_pos (ten_zpow_pos (-4)) (not_lt.mp hge)
    rw [toDouble_ten_zpow, hD] at this
    exact this.not_gt hlt

/-! ### What comes back -/

theorem not_between_of_isAdjacent (hx : rational? x = some q) (hy : rational? y = some p)
    (h : IsAdjacent p q) (z : Float) : ¬(x < z ∧ z < y) ∧ ¬(y < z ∧ z < x) := by
  constructor
  · rintro ⟨hxz, hzy⟩
    obtain ⟨r, hz⟩ := exists_rational?_of_between hxz hzy
    exact (h r (isDouble_of_rational? hz)).2
      ⟨(lt_iff_rational hx hz).mp hxz, (lt_iff_rational hz hy).mp hzy⟩
  · rintro ⟨hyz, hzx⟩
    obtain ⟨r, hz⟩ := exists_rational?_of_between hyz hzx
    exact (h r (isDouble_of_rational? hz)).1
      ⟨(lt_iff_rational hy hz).mp hyz, (lt_iff_rational hz hx).mp hzx⟩

theorem isAdjacent_self (p : ℚ) : IsAdjacent p p := fun _ _ =>
  ⟨fun h => (h.1.trans h.2).false, fun h => (h.1.trans h.2).false⟩

theorem isTiny_iff (hx : rational? x = some q) :
    IsTiny x ↔ 0 < |q| ∧ |q| < leastPositional.value := by
  obtain ⟨hzero, -, hleast⟩ := rational?_thresholds
  have hmagnitude := rational?_magnitude hx
  rw [IsTiny, lt_iff_rational hzero hmagnitude, lt_iff_rational hmagnitude hleast]

theorem isPreserved_iff (hx : rational? x = some q) :
    IsPreserved x ↔ q = integerPart q ∨ leastPositional.value ≤ |q| ∧ |q| < 1 := by
  obtain ⟨-, hone, hleast⟩ := rational?_thresholds
  have hmagnitude := rational?_magnitude hx
  rw [IsPreserved, le_iff_rational hleast hmagnitude, lt_iff_rational hmagnitude hone, whole?_eq hx]
  split
  · next h => exact iff_of_true (Or.inl rfl) (Or.inl h)
  · next h => exact or_congr_left (iff_of_false Bool.false_ne_true h)

/-- A number that is read, and not far away. -/
theorem returnsAs_of_rational (hx : rational? x = some q) (hy : rational? y = some p)
    (hpreserved : IsPreserved x → p = q) (htiny : ¬IsTiny x) (hadjacent : IsAdjacent p q) :
    ReturnsAs x y :=
  ⟨fun h => (beq_iff_rational hy hx).mpr (hpreserved h), fun h => absurd h htiny,
    fun _ => isFinite_of_rational? hy, fun _ => not_between_of_isAdjacent hx hy hadjacent⟩

/-- The same in exact numbers, for a label that is a numeral. -/
theorem ReturnsAs.exists_rational (h : ReturnsAs x y) (hx : rational? x = some q) (htiny : ¬IsTiny x) :
    ∃ p, rational? y = some p ∧ (IsPreserved x → p = q)
      ∧ ∀ {z : Float} {r : ℚ}, rational? z = some r → ¬(q < r ∧ r < p) ∧ ¬(p < r ∧ r < q) := by
  obtain ⟨p, hy⟩ := exists_rational? (h.finite htiny)
  refine ⟨p, hy, fun hpreserved => (beq_iff_rational hy hx).mp (h.preserved hpreserved), fun hz => ?_⟩
  have hadjacent := h.adjacent htiny
  simp only [← lt_iff_rational hx hz, ← lt_iff_rational hz hy, ← lt_iff_rational hy hz,
    ← lt_iff_rational hz hx]
  exact hadjacent _

theorem rational?_two_pow : rational? 9007199254740992 = some (2 ^ 53) := by
  decide +kernel

/-- Only a number with a fraction comes back changed, and such a number is small. -/
theorem ReturnsAs.eq_or_abs_le (h : ReturnsAs x y) (hx : rational? x = some q) (htiny : ¬IsTiny x) :
    ∃ p, rational? y = some p ∧ (p = q ∨ |p| ≤ 2 ^ 53) := by
  obtain ⟨p, hp, hsame, hbeside⟩ := h.exists_rational hx htiny
  refine ⟨p, hp, ?_⟩
  by_cases hwhole : q = integerPart q
  · exact Or.inl (hsame ((isPreserved_iff hx).mpr (Or.inl hwhole)))
  · obtain ⟨hlow, hhigh⟩ := abs_lt.mp ((isDouble_of_rational? hx).abs_lt_of_fraction hwhole)
    refine Or.inr (abs_le.mpr ⟨?_, ?_⟩)
    · exact not_lt.mp fun h => (hbeside (rational?_neg rational?_two_pow)).2 ⟨h, hlow⟩
    · exact not_lt.mp fun h => (hbeside rational?_two_pow).1 ⟨hhigh, h⟩

theorem decimalInteger_eq (n : ℤ) :
    decimalInteger n
      = writeSign (if n < 0 then .negative else .positive) ++ decimalDigits n.natAbs := by
  rw [decimalInteger]
  split <;> rfl

theorem returnsAs_decimalInteger (hx : rational? x = some q) (hwhole : q = integerPart q) :
    ReturnsAs x (read (decimalInteger (integerPart q))) := by
  have hdigits := Decimal.digitsValue_decimalDigits (integerPart q).natAbs
  have habs : ((integerPart q).natAbs : ℚ) = |q| := by
    rw [Nat.cast_natAbs, Int.cast_abs, ← hwhole]
  have hsize : toDouble (digitsValue (decimalDigits (integerPart q).natAbs)) = |q| := by
    rw [hdigits, habs]
    refine toDouble_of_isDouble ?_
    rcases abs_choice q with h | h <;> rw [h]
    · exact isDouble_of_rational? hx
    · exact (isDouble_of_rational? hx).neg
  have hread := rational?_read_whole (if integerPart q < 0 then .negative else .positive)
    (isDigits_toDigits (integerPart q).natAbs) Nat.toDigits_ne_nil (by
      rw [hsize, withinRange, abs_abs]
      exact if_pos (abs_rational?_lt hx))
  have hsigned : signed (if integerPart q < 0 then Sign.negative else Sign.positive) |q| = q := by
    have hneg : integerPart q < 0 ↔ q < 0 := by
      rw [hwhole, integerPart_cast]
      norm_cast
    split
    · next h => rw [signed_negative, abs_of_neg (hneg.mp h), neg_neg]
    · next h => rw [signed_positive, abs_of_nonneg (not_lt.mp fun h' => h (hneg.mpr h'))]
  rw [hsize, hsigned, ← decimalInteger_eq] at hread
  refine returnsAs_of_rational hx hread (fun _ => rfl) ?_ (isAdjacent_self q)
  rw [isTiny_iff hx, ← habs]
  rintro ⟨hpos, hlt⟩
  have hone : (1 : ℚ) ≤ (integerPart q).natAbs := by exact_mod_cast hpos
  have hsmall : leastPositional.value < 1 := by decide +kernel
  linarith

/-- Of the numbers with a fraction, those that are not tiny have decimals near the point. -/
theorem shortest_lt_of_lt (hcanonical : IsCanonical X.mantissa X.exponent) (hpos : 0 < X.mantissa)
    (hlt : X.value < 2 ^ 53) : X.shortest.value < 10 ^ (16 : ℤ) := by
  have hd : IsDouble (10 ^ (16 : ℤ)) := by
    have := isDouble_mul_zpow (k := 5 ^ 16) (e := 16) (by norm_num) (by norm_num)
    norm_num at this ⊢
    exact this
  refine lt_of_toDouble_lt hd ?_
  rw [Magnitude.toDouble_shortest hcanonical hpos]
  exact hlt.trans (by norm_num)

/-- What is read of the decimal of a number that has a fraction and is not tiny. -/
theorem rational?_read_shortest (s : Sign) (hcanonical : IsCanonical X.mantissa X.exponent)
    (hpos : 0 < X.mantissa) (hfraction : ∀ n : ℤ, X.value ≠ n)
    (hlow : 10 ^ (-4 : ℤ) ≤ X.shortest.value) :
    ∃ r, rational? (read (writeSign s ++ X.shortest.write)) = some (signed s r)
      ∧ (X.value < 1 → r = X.value) ∧ IsAdjacent r X.value := by
  have hX53 : X.value < 2 ^ 53 := by
    have hwhole : X.value ≠ integerPart X.value := hfraction _
    have := hcanonical.isDouble.abs_lt_of_fraction hwhole
    exact (le_abs_self _).trans_lt this
  have hD16 := shortest_lt_of_lt hcanonical hpos hX53
  obtain ⟨whole, fraction, hwrite, hwhole, hne, hdigits, hparts⟩ :=
    X.shortest.exists_write (shortest_digits_pos hcanonical hpos) hlow hD16
  have hF := fractionOf_nonneg fraction
  have hrounds : RoundsTo (Nat.ofDigitChars 10 whole 0) (fractionOf fraction) X.value := by
    refine ⟨hF, fractionOf_lt_one hdigits, ?_⟩
    rw [← digitsValue, hparts, Magnitude.toDouble_shortest hcanonical hpos]
  have hsmall : digitsValue whole ≤ 2 ^ (54 : ℤ) := by
    have hten : (10 : ℚ) ^ (16 : ℤ) ≤ 2 ^ (54 : ℤ) := by norm_num
    linarith
  rw [hwrite]
  refine ⟨_, rational?_read_point s hwhole hne hdigits hsmall, hrounds.toDouble_parts, ?_⟩
  -- A number with a fraction is not one, so it lies on one of the two sides.
  rcases lt_or_gt_of_ne (hfraction 1) with hless | hmore
  · rw [digitsValue, hrounds.toDouble_parts (by exact_mod_cast hless)]
    exact isAdjacent_self _
  · exact hrounds.isAdjacent hcanonical (by exact_mod_cast hmore) hfraction

theorem returnsAs_write (hx : rational? x = some q) (hfraction : q ≠ integerPart q) :
    ReturnsAs x (read (write x)) := by
  obtain ⟨s, -, rfl⟩ | ⟨s, m, e, hm, hunpack, hcanonical, -, rfl⟩ := rational?_cases hx
  · exact absurd rfl hfraction
  set X : Magnitude := ⟨m, e⟩ with hX
  have hvalue : |signed s ((m : ℚ) * 2 ^ e)| = X.value := by
    rw [abs_signed, abs_of_nonneg (mul_two_zpow_nonneg m e), Magnitude.value]
  have hX0 : 0 < X.value := Magnitude.value_pos hm
  have hnot : ∀ n : ℤ, X.value ≠ n := by
    intro n hn
    refine hfraction (integerPart_eq_of_isInt (n := s.apply n) ?_)
    rw [cast_apply, ← hn, Magnitude.value]
  have hwrite : write x = writeSign s ++ X.shortest.write := by rw [write, hunpack]
  have htiny : IsTiny x ↔ X.shortest.value < 10 ^ (-4 : ℤ) := by
    rw [isTiny_iff hx, hvalue, shortest_lt_iff hcanonical hm]
    exact and_iff_right hX0
  rw [hwrite]
  by_cases hsmall : X.shortest.value < 10 ^ (-4 : ℤ)
  · have hnan := isNaN_read_exponent s (shortest_digits_pos hcanonical hm) (Or.inl hsmall)
    refine ⟨fun h => ?_, fun _ => hnan, fun h => absurd (htiny.mpr hsmall) h,
      fun h => absurd (htiny.mpr hsmall) h⟩
    have hless := (shortest_lt_iff hcanonical hm).mp hsmall
    rcases (isPreserved_iff hx).mp h with hwhole | ⟨hge, -⟩
    · exact absurd hwhole hfraction
    · rw [hvalue] at hge
      exact absurd hless hge.not_gt
  · obtain ⟨r, hread, hsame, hadjacent⟩ :=
      rational?_read_shortest s hcanonical hm hnot (not_lt.mp hsmall)
    refine returnsAs_of_rational hx hread (fun h => ?_) (fun h => hsmall (htiny.mp h))
      (hadjacent.signed s)
    rcases (isPreserved_iff hx).mp h with hwhole | ⟨-, hlt⟩
    · exact absurd hwhole hfraction
    · rw [hsame (hvalue ▸ hlt), Magnitude.value]

end Labels

/-- Every finite number has a label, and reading it gives the number back as far as this goes. -/
theorem exists_label_returnsAs {x : Float} (hx : x.isFinite = true) :
    ∃ text, label x = .ok text ∧ ReturnsAs x (read text.toList) := by
  obtain ⟨q, hq⟩ := exists_rational? hx
  rw [label, truncate_eq hq, whole?_eq hq]
  by_cases hwhole : q = integerPart q
  · refine ⟨_, rfl, ?_⟩
    rw [if_pos hwhole, if_pos rfl, String.toList_ofList]
    exact returnsAs_decimalInteger hq hwhole
  · refine ⟨_, rfl, ?_⟩
    rw [if_neg hwhole, if_neg (by simp), text, String.toList_ofList]
    exact returnsAs_write hq hwhole

end FunctionGraph.Number
