import FunctionGraph.Proofs.Number.DigitText
import FunctionGraph.Proofs.Number.ShortestDecimal

/-!
# The layout of a decimal

Where the point goes. The digits on its two sides are the whole part and the fraction of the decimal,
and there is an exponent exactly when the leading digit is far from the point.
-/

namespace FunctionGraph.Number

/-- The integer that digits stand for. -/
def digitsValue (digits : List Char) : ℚ :=
  Nat.ofDigitChars 10 digits 0

/-- The number that digits stand for with the point behind `point` of them. -/
def placed (digits : List Char) (point : ℤ) : ℚ :=
  digitsValue digits * 10 ^ (point - digits.length)

/-- The number that digits behind the point stand for. -/
def fractionOf (digits : List Char) : ℚ :=
  digitsValue digits / 10 ^ digits.length

section Placed

variable {digits kept : List Char} {point : ℤ}

theorem ten_zpow_pos (e : ℤ) : (0 : ℚ) < 10 ^ e :=
  zpow_pos (by norm_num) e

theorem digitsValue_nonneg (digits : List Char) : 0 ≤ digitsValue digits :=
  Nat.cast_nonneg _

theorem digitsValue_append (whole fraction : List Char) :
    digitsValue (whole ++ fraction)
      = digitsValue whole * 10 ^ fraction.length + digitsValue fraction := by
  rw [digitsValue, Nat.ofDigitChars_append, Nat.ofDigitChars_eq_ofDigitChars_zero]
  push_cast
  rw [mul_comm]
  rfl

theorem digitsValue_replicate (n : ℕ) : digitsValue (List.replicate n '0') = 0 := by
  rw [digitsValue, Nat.ofDigitChars_replicate_zero, mul_zero, Nat.cast_zero]

theorem placed_append_zeros (digits : List Char) (n : ℕ) (point : ℤ) :
    placed (digits ++ List.replicate n '0') point = placed digits point := by
  have hpower : (10 : ℚ) ^ (point - digits.length)
      = 10 ^ n * 10 ^ (point - (digits ++ List.replicate n '0').length) := by
    rw [← zpow_natCast, ← zpow_add₀ (by norm_num), List.length_append, List.length_replicate]
    congr 1
    push_cast
    ring
  rw [placed, placed, digitsValue_append, digitsValue_replicate, List.length_replicate, add_zero,
    hpower, mul_assoc]

/-- With the point inside, the digits in front of it and behind it. -/
theorem placed_append (whole fraction : List Char) :
    placed (whole ++ fraction) whole.length
      = digitsValue whole + fractionOf fraction := by
  have hpower : (10 : ℚ) ^ ((whole.length : ℤ) - (whole ++ fraction).length)
      = (10 ^ fraction.length)⁻¹ := by
    rw [List.length_append, ← zpow_natCast, ← zpow_neg]
    congr 1
    push_cast
    ring
  have hpos : (0 : ℚ) < 10 ^ fraction.length := by positivity
  rw [placed, digitsValue_append, hpower, fractionOf]
  field_simp

theorem exists_eq_append_zeros (digits : List Char) :
    ∃ n, digits = dropTrailingZeros digits ++ List.replicate n '0' := by
  have hsplit := List.takeWhile_append_dropWhile (p := (· == '0')) (l := digits.reverse)
  have hzeros : digits.reverse.takeWhile (· == '0')
      = List.replicate (digits.reverse.takeWhile (· == '0')).length '0' :=
    List.eq_replicate_of_mem fun c hc => beq_iff_eq.mp
      (List.all_eq_true.mp (List.all_takeWhile (p := (· == '0')) (l := digits.reverse)) c hc)
  refine ⟨(digits.reverse.takeWhile (· == '0')).length, ?_⟩
  rw [dropTrailingZeros, ← List.reverse_inj, List.reverse_append, List.reverse_reverse,
    List.reverse_replicate, ← hzeros, hsplit]

theorem placed_dropTrailingZeros (digits : List Char) (point : ℤ) :
    placed (dropTrailingZeros digits) point = placed digits point := by
  obtain ⟨n, hdigits⟩ := exists_eq_append_zeros digits
  conv_rhs => rw [hdigits]
  exact (placed_append_zeros _ n point).symm

theorem isDigits_dropTrailingZeros (h : IsDigits digits) : IsDigits (dropTrailingZeros digits) := by
  obtain ⟨n, hdigits⟩ := exists_eq_append_zeros digits
  intro c hc
  refine h c ?_
  rw [hdigits]
  exact List.mem_append_left _ hc

theorem dropTrailingZeros_ne_nil (h : digitsValue digits ≠ 0) : dropTrailingZeros digits ≠ [] := by
  obtain ⟨n, hdigits⟩ := exists_eq_append_zeros digits
  intro hnil
  rw [hnil, List.nil_append] at hdigits
  rw [hdigits, digitsValue_replicate] at h
  exact h rfl

/-- The digits in front of the point and behind it, in positional notation. -/
theorem exists_positional (h : IsDigits kept) (point : ℤ) :
    ∃ whole fraction, positional kept point = whole ++ '.' :: fraction ∧ IsDigits whole ∧ whole ≠ []
      ∧ IsDigits fraction
      ∧ digitsValue whole + fractionOf fraction = placed kept point := by
  rw [positional]
  split
  · next hpoint =>
    refine ⟨['0'], List.replicate (-point).toNat '0' ++ kept, rfl, isDigits_replicate 1, by simp,
      (isDigits_replicate _).append h, ?_⟩
    have hpower : (10 : ℚ) ^ (point - kept.length)
        = (10 ^ (List.replicate (-point).toNat '0' ++ kept).length)⁻¹ := by
      rw [List.length_append, List.length_replicate, ← zpow_natCast, ← zpow_neg]
      congr 1
      omega
    have hzero : digitsValue ['0'] = 0 := digitsValue_replicate 1
    rw [hzero, fractionOf, digitsValue_append, digitsValue_replicate, placed, hpower]
    ring
  · next hpoint =>
    set shown := kept ++ List.replicate (point.toNat - kept.length) '0' with hshown
    have hdigits : IsDigits shown := h.append (isDigits_replicate _)
    have hlong : point.toNat ≤ shown.length := by
      rw [hshown, List.length_append, List.length_replicate]
      omega
    have htake : (shown.take point.toNat).length = point.toNat := by
      rw [List.length_take, Nat.min_eq_left hlong]
    have hvalue : digitsValue (shown.take point.toNat)
        + fractionOf (shown.drop point.toNat) = placed kept point := by
      rw [← placed_append, List.take_append_drop, htake, Int.toNat_of_nonneg (by omega), hshown,
        placed_append_zeros]
    refine ⟨shown.take point.toNat, _, rfl, fun c hc => hdigits c (List.mem_of_mem_take hc),
      ?_, ?_, ?_⟩
    · rw [← List.length_pos_iff, htake]
      omega
    · split
      · exact isDigits_replicate 1
      · exact fun c hc => hdigits c (List.mem_of_mem_drop hc)
    · split
      · next hempty =>
        have hzero : digitsValue ['0'] = 0 := digitsValue_replicate 1
        rw [List.isEmpty_iff.mp hempty] at hvalue
        rw [← hvalue, fractionOf, fractionOf, hzero]
        simp [digitsValue]
      · exact hvalue

end Placed

/-! ### The leading digit -/

namespace Decimal

/-- The power of ten at which the leading digit stands. -/
def leading (d : Decimal) : ℤ :=
  d.exponent + (decimalDigits d.digits).length - 1

section Leading

variable {d : Decimal}

theorem digitsValue_decimalDigits (n : ℕ) : digitsValue (decimalDigits n) = n := by
  rw [digitsValue, decimalDigits, Nat.ofDigitChars_ten_toDigits]

theorem value_eq_placed (d : Decimal) : d.value = placed (decimalDigits d.digits) (d.leading + 1) := by
  rw [value, placed, digitsValue_decimalDigits, leading]
  congr 2
  ring

theorem value_lt (d : Decimal) : d.value < 10 ^ (d.leading + 1) := by
  have hlt : d.digits < 10 ^ (decimalDigits d.digits).length :=
    (Nat.length_toDigits_le_iff (by norm_num) Nat.length_toDigits_pos).mp le_rfl
  calc d.value < 10 ^ (decimalDigits d.digits).length * 10 ^ d.exponent :=
        mul_lt_mul_of_pos_right (by exact_mod_cast hlt) (ten_zpow_pos _)
    _ = 10 ^ (d.leading + 1) := by
        rw [← zpow_natCast, ← zpow_add₀ (by norm_num), leading]
        congr 1
        ring

theorem le_value (hpos : 0 < d.digits) : 10 ^ d.leading ≤ d.value := by
  have hlength : 0 < (decimalDigits d.digits).length := Nat.length_toDigits_pos
  have hle : 10 ^ ((decimalDigits d.digits).length - 1) ≤ d.digits := by
    rcases Nat.eq_zero_or_pos ((decimalDigits d.digits).length - 1) with hone | hmore
    · rw [hone, pow_zero]
      exact hpos
    · by_contra hlt
      have := (Nat.length_toDigits_le_iff (by norm_num) hmore).mpr (not_le.mp hlt)
      rw [← decimalDigits] at this
      omega
  calc (10 : ℚ) ^ d.leading
      = 10 ^ ((decimalDigits d.digits).length - 1) * 10 ^ d.exponent := by
        rw [← zpow_natCast, ← zpow_add₀ (by norm_num), leading]
        congr 1
        omega
    _ ≤ d.value := mul_le_mul_of_nonneg_right (by exact_mod_cast hle) (ten_zpow_pos _).le

/-- The leading digit stands where the value stands between the powers of ten. -/
theorem le_leading_iff (hpos : 0 < d.digits) (k : ℤ) : k ≤ d.leading ↔ 10 ^ k ≤ d.value := by
  constructor
  · intro h
    exact (zpow_le_zpow_right₀ (by norm_num) h).trans (le_value hpos)
  · intro h
    by_contra hlt
    have : (10 : ℚ) ^ (d.leading + 1) ≤ 10 ^ k := zpow_le_zpow_right₀ (by norm_num) (by omega)
    linarith [d.value_lt]

/-- Near the point a decimal is written with its whole part and its fraction. -/
theorem exists_write (hpos : 0 < d.digits) (hlow : 10 ^ (-4 : ℤ) ≤ d.value)
    (hhigh : d.value < 10 ^ (16 : ℤ)) :
    ∃ whole fraction, d.write = whole ++ '.' :: fraction ∧ IsDigits whole ∧ whole ≠ []
      ∧ IsDigits fraction
      ∧ digitsValue whole + fractionOf fraction = d.value := by
  have hnear : -4 ≤ d.leading ∧ d.leading < 16 := by
    rw [le_leading_iff hpos, ← not_le, le_leading_iff hpos, not_le]
    exact ⟨hlow, hhigh⟩
  obtain ⟨whole, fraction, hwrite, hwhole, hne, hfraction, hvalue⟩ :=
    exists_positional (isDigits_dropTrailingZeros (isDigits_toDigits d.digits)) (d.leading + 1)
  refine ⟨whole, fraction, ?_, hwhole, hne, hfraction, ?_⟩
  · rw [← hwrite]
    exact if_pos hnear
  · rw [hvalue, placed_dropTrailingZeros, ← value_eq_placed]

/-- Far from the point a decimal is written with an exponent, behind its leading digit. -/
theorem exists_write_exponent (hpos : 0 < d.digits)
    (hfar : d.value < 10 ^ (-4 : ℤ) ∨ 10 ^ (16 : ℤ) ≤ d.value) :
    ∃ whole fraction, (d.write = whole ++ 'e' :: signedExponent d.leading
        ∨ d.write = whole ++ '.' :: (fraction ++ 'e' :: signedExponent d.leading))
      ∧ IsDigits whole ∧ whole ≠ [] ∧ IsDigits fraction := by
  have hnot : ¬(-4 ≤ d.leading ∧ d.leading < 16) := by
    rw [le_leading_iff hpos, ← not_le (a := (16 : ℤ)), le_leading_iff hpos, not_and_or, not_le,
      not_not]
    exact hfar
  have hdigits := isDigits_dropTrailingZeros (isDigits_toDigits d.digits)
  have hne : dropTrailingZeros (decimalDigits d.digits) ≠ [] := by
    refine dropTrailingZeros_ne_nil ?_
    rw [digitsValue_decimalDigits]
    exact_mod_cast hpos.ne'
  have hwrite : d.write = scientific (dropTrailingZeros (decimalDigits d.digits)) d.leading :=
    if_neg hnot
  refine ⟨(dropTrailingZeros (decimalDigits d.digits)).take 1,
    (dropTrailingZeros (decimalDigits d.digits)).drop 1, ?_,
    fun c hc => hdigits c (List.mem_of_mem_take hc), by simpa using hne,
    fun c hc => hdigits c (List.mem_of_mem_drop hc)⟩
  rw [hwrite, scientific]
  split
  · right
    simp
  · next hone =>
    left
    have hnone : (dropTrailingZeros (decimalDigits d.digits)).drop 1 = [] :=
      List.drop_eq_nil_of_le (by omega)
    simp [hnone]

end Leading

end Decimal

end FunctionGraph.Number
