import FunctionGraph.Proofs.Number.Conversion
import FunctionGraph.Proofs.Number.Layout

/-!
# Written numbers read

Reading a number that has been written. Its whole part and its fraction are converted one by one and
then added; a number with an exponent is no numeral.
-/

namespace FunctionGraph.Number

open Float.Model.UnpackedFloat (Sign)

section Reading

variable {sign : Sign} {whole fraction rest : List Char}

theorem trim_written (sign : Sign) (hwhole : IsDigits whole)
    (hrest : ∀ c ∈ rest, Text.isBlank c = false) :
    Text.trim (writeSign sign ++ (whole ++ rest)) = writeSign sign ++ (whole ++ rest) := by
  refine trim_eq fun c hc => ?_
  simp only [List.mem_append] at hc
  rcases hc with hsign | hdigit | hc
  · cases sign
    · rw [List.mem_singleton.mp hsign]
      decide
    · cases hsign
  · exact isBlank_of_isDigit (hwhole c hdigit)
  · exact hrest c hc

theorem fractionOf_nonneg (digits : List Char) : 0 ≤ fractionOf digits :=
  div_nonneg (digitsValue_nonneg digits) (by positivity)

theorem fractionOf_lt_one (h : IsDigits fraction) : fractionOf fraction < 1 := by
  have hlt : digitsValue fraction < 10 ^ fraction.length := by
    rw [digitsValue]
    exact_mod_cast ofDigitChars_lt h
  rw [fractionOf, div_lt_one (by positivity)]
  exact hlt

theorem withinRange_fractionOf (h : IsDigits fraction) :
    withinRange (toDouble (fractionOf fraction)) = some (toDouble (fractionOf fraction)) := by
  have hlarge : (1 : ℚ) < 2 ^ (1024 : ℤ) := one_lt_zpow₀ (by norm_num) (by norm_num)
  refine withinRange_toDouble_of_le isDouble_one hlarge ?_
  rw [abs_of_nonneg (fractionOf_nonneg fraction)]
  exact (fractionOf_lt_one h).le

theorem natOfDigits_eq_digitsValue (h : IsDigits whole) :
    (Numeral.natOfDigits (values whole) : ℚ) = digitsValue whole := by
  rw [natOfDigits_values h, digitsValue]

/-- The number that a numeral gives: its parts are converted one by one and then added. -/
theorem rational?_value (hwhole : IsDigits whole) (hfraction : IsDigits fraction)
    (hrange : withinRange (toDouble (digitsValue whole)) = some (toDouble (digitsValue whole))) :
    rational? (Numeral.value ⟨isNegative sign, values whole, values fraction⟩)
      = withinRange (toDouble
          (signed sign (toDouble (digitsValue whole) + toDouble (fractionOf fraction)))) := by
  have hw : rational? (Numeral.wholeValue ⟨isNegative sign, values whole, values fraction⟩)
      = some (toDouble (digitsValue whole)) := by
    rw [← hrange, ← natOfDigits_eq_digitsValue hwhole]
    exact rational?_ofScientific_whole _
  have hf : rational? (Numeral.fractionValue ⟨isNegative sign, values whole, values fraction⟩)
      = some (toDouble (fractionOf fraction)) := by
    rw [← withinRange_fractionOf hfraction, fractionOf, ← natOfDigits_eq_digitsValue hfraction,
      ← length_values hfraction]
    exact rational?_ofScientific_fraction _ _
  cases sign
  · refine (rational?_sub (rational?_neg hw) hf).trans ?_
    rw [signed_negative, neg_add']
  · exact rational?_add hw hf

theorem rational?_read_point (sign : Sign) (hwhole : IsDigits whole) (hne : whole ≠ [])
    (hfraction : IsDigits fraction) (hsmall : digitsValue whole ≤ 2 ^ (54 : ℤ)) :
    rational? (read (writeSign sign ++ (whole ++ '.' :: fraction)))
      = some (signed sign
          (toDouble (toDouble (digitsValue whole) + toDouble (fractionOf fraction)))) := by
  have hrest : ∀ c ∈ '.' :: fraction, Text.isBlank c = false := by
    intro c hc
    rcases List.mem_cons.mp hc with rfl | hdigit
    · decide
    · exact isBlank_of_isDigit (hfraction c hdigit)
  have h54 := isDouble_two_zpow (e := 54) (by norm_num)
  have hW : |digitsValue whole| ≤ 2 ^ (54 : ℤ) := by
    rwa [abs_of_nonneg (digitsValue_nonneg whole)]
  have hF : |fractionOf fraction| ≤ 1 := by
    rw [abs_of_nonneg (fractionOf_nonneg fraction)]
    exact (fractionOf_lt_one hfraction).le
  have hsum : |toDouble (digitsValue whole) + toDouble (fractionOf fraction)| ≤ 2 ^ (55 : ℤ) := by
    calc |toDouble (digitsValue whole) + toDouble (fractionOf fraction)|
        ≤ |toDouble (digitsValue whole)| + |toDouble (fractionOf fraction)| := abs_add_le _ _
      _ ≤ 2 ^ (54 : ℤ) + 1 := add_le_add (abs_toDouble_le h54 hW) (abs_toDouble_le isDouble_one hF)
      _ ≤ 2 ^ (55 : ℤ) := by norm_num
  rw [read, trim_written sign hwhole hrest, readNumeral_point sign hwhole hne hfraction]
  refine (rational?_value hwhole hfraction
    (withinRange_toDouble_of_le h54 (two_zpow_lt (by norm_num)) hW)).trans ?_
  rw [← toDouble_signed]
  refine withinRange_toDouble_of_le (isDouble_two_zpow (e := 55) (by norm_num))
    (two_zpow_lt (by norm_num)) ?_
  rwa [abs_signed]

theorem rational?_read_whole (sign : Sign) (hwhole : IsDigits whole) (hne : whole ≠ [])
    (hrange : withinRange (toDouble (digitsValue whole)) = some (toDouble (digitsValue whole))) :
    rational? (read (writeSign sign ++ whole))
      = some (signed sign (toDouble (digitsValue whole))) := by
  have hnil : IsDigits [] := isDigits_replicate 0
  have htrim := trim_written sign hwhole fun c (hc : c ∈ []) => absurd hc List.not_mem_nil
  have hnone : toDouble (fractionOf []) = 0 := by
    rw [fractionOf, digitsValue, Nat.ofDigitChars_nil, Nat.cast_zero, zero_div, toDouble_zero]
  rw [List.append_nil] at htrim
  rw [read, htrim, readNumeral_whole sign hwhole hne]
  refine (rational?_value hwhole hnil hrange).trans ?_
  rw [hnone, add_zero, toDouble_of_isDouble ((isDouble_toDouble _).signed sign)]
  rw [withinRange, Option.ite_none_right_eq_some] at hrange
  exact if_pos (by rw [abs_signed]; exact hrange.1)

theorem isBlank_signedExponent (e : ℤ) : ∀ c ∈ 'e' :: signedExponent e, Text.isBlank c = false := by
  intro c hc
  simp only [signedExponent, List.mem_cons, List.mem_append, List.cons_append] at hc
  rcases hc with rfl | rfl | hzero | hdigit
  · decide
  · split <;> decide
  · exact isBlank_of_isDigit (isDigits_replicate _ c hzero)
  · exact isBlank_of_isDigit (isDigits_toDigits _ c hdigit)

/-- A decimal with an exponent is not read. -/
theorem isNaN_read_exponent (sign : Sign) {d : Decimal} (hpos : 0 < d.digits)
    (hfar : d.value < 10 ^ (-4 : ℤ) ∨ 10 ^ (16 : ℤ) ≤ d.value) :
    (read (writeSign sign ++ d.write)).isNaN = true := by
  obtain ⟨whole, fraction, hwrite, hwhole, hne, hfraction⟩ := d.exists_write_exponent hpos hfar
  rcases hwrite with hwrite | hwrite
  · rw [hwrite, read, trim_written sign hwhole (isBlank_signedExponent _),
      readNumeral_exponent sign hwhole hne]
    exact isNaN_nan
  · have hrest : ∀ c ∈ '.' :: (fraction ++ 'e' :: signedExponent d.leading),
        Text.isBlank c = false := by
      intro c hc
      rcases List.mem_cons.mp hc with rfl | hc
      · decide
      · rcases List.mem_append.mp hc with hdigit | hc
        · exact isBlank_of_isDigit (hfraction c hdigit)
        · exact isBlank_signedExponent _ c hc
    rw [hwrite, read, trim_written sign hwhole hrest, readNumeral_point_exponent sign hwhole hne]
    exact isNaN_nan

end Reading

end FunctionGraph.Number
