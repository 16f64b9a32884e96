import FunctionGraph.Proofs.Number.Packing

/-!
# Rounding parts

A mantissa that does not fit is shifted, and of what falls off two bits remember enough to round. They
say where the exact number stands between the mantissa and the next one, so the mantissa that comes
out is the nearest one, and the parts are those of the nearest double.
-/

namespace FunctionGraph.Number

open Float.Model (UnpackedFloat Format totalExponent)
open Float.Model.UnpackedFloat

/-- Where a number stands above the mantissa that approximates it. -/
def IsResidue : Accuracy → ℚ → Prop
  | .exact, r => r = 0
  | .inexact .lt, r => 0 < r ∧ 2 * r < 1
  | .inexact .eq, r => 2 * r = 1
  | .inexact .gt, r => 1 < 2 * r ∧ r < 1

/-- The mantissa and its two bits stand for this number. -/
def Approximates (em : ExtendedMantissa) (q : ℚ) : Prop :=
  IsResidue em.accuracy (q - em.mantissa)

section Shifting

variable {em : ExtendedMantissa} {q : ℚ} {r : ℚ}

theorem IsResidue.bounds {accuracy : Accuracy} (h : IsResidue accuracy r) : 0 ≤ r ∧ r < 1 := by
  rcases accuracy with _ | (_ | _ | _) <;> simp only [IsResidue] at h <;> constructor <;> linarith

theorem Approximates.shiftRightOne (h : Approximates em q) :
    Approximates em.shiftRightOne (q / 2) := by
  obtain ⟨m, roundBit, stickyBit⟩ := em
  have hsplit : (m : ℚ) = 2 * (m / 2 : ℕ) + (m % 2 : ℕ) := by
    exact_mod_cast (Nat.div_add_mod m 2).symm
  have hresidue : 2 * (q / 2 - (m / 2 : ℕ)) = q - m + (m % 2 : ℕ) := by linarith
  unfold Approximates ExtendedMantissa.shiftRightOne at *
  simp only at h ⊢
  generalize q - m = r at h hresidue
  generalize q / 2 - (m / 2 : ℕ) = r' at hresidue ⊢
  -- The bit that falls off becomes the round bit, and the old round bit joins the sticky one.
  rcases Nat.mod_two_eq_zero_or_one m with hbit | hbit <;> rw [hbit] at hresidue ⊢ <;>
    cases roundBit <;> cases stickyBit <;>
    simp [ExtendedMantissa.accuracy, IsResidue] at h hresidue ⊢ <;>
    grind

theorem Approximates.shiftRight (h : Approximates em q) (n : ℕ) :
    Approximates (em >>> n) (q / 2 ^ n) := by
  induction n with
  | zero =>
    rw [pow_zero, div_one]
    exact h
  | succ n ih =>
    have hstep : em >>> (n + 1) = (em >>> n).shiftRightOne := rfl
    rw [hstep, pow_succ, ← div_div]
    exact ih.shiftRightOne

theorem Approximates.isNearestEven (h : Approximates em q) : IsNearestEven q em.roundedMantissa := by
  obtain ⟨m, roundBit, stickyBit⟩ := em
  unfold Approximates at h
  have hup : q - ((m + 1 : ℕ) : ℤ) = q - m - 1 := by
    push_cast
    ring
  cases roundBit <;> cases stickyBit <;>
    simp only [ExtendedMantissa.accuracy, ExtendedMantissa.roundedMantissa, Accuracy.roundToNearestEven,
      IsResidue] at h ⊢
  · obtain rfl : q = m := by linarith
    exact_mod_cast isNearestEven_intCast m
  · constructor <;> push_cast <;> rw [abs_of_pos h.1]
    · linarith
    · intro htie
      linarith
  · -- A tie: the even one of `m` and `m + 1`.
    rcases Nat.mod_two_eq_zero_or_one m with hbit | hbit <;> rw [hbit]
    · refine ⟨?_, fun _ => ?_⟩
      · push_cast
        rw [abs_of_pos (by linarith)]
        linarith
      · exact_mod_cast Nat.even_iff.mpr hbit
    · refine ⟨?_, fun _ => ?_⟩
      · rw [hup, abs_of_neg (by linarith)]
        linarith
      · exact_mod_cast (Nat.odd_iff.mpr hbit).add_one
  · constructor <;> rw [hup, abs_of_neg (by linarith)]
    · linarith
    · intro htie
      linarith

theorem accuracy_ofMantissaAndAccuracy (m : ℕ) (accuracy : Accuracy) :
    (ExtendedMantissa.ofMantissaAndAccuracy m accuracy).accuracy = accuracy := by
  rcases accuracy with _ | (_ | _ | _) <;> rfl

theorem mantissa_ofMantissaAndAccuracy (m : ℕ) (accuracy : Accuracy) :
    (ExtendedMantissa.ofMantissaAndAccuracy m accuracy).mantissa = m := by
  rcases accuracy with _ | (_ | _ | _) <;> rfl

end Shifting

/-! ### The nearest double -/

/-- The parts of a finite number, or of a zero. -/
def ofMantissa (sign : Sign) (mantissa : ℕ) (exponent : ℤ) : UnpackedFloat :=
  if h : mantissa = 0 then .zero sign else .finite sign mantissa exponent (Nat.pos_of_ne_zero h)

section Nearest

variable {m : ℕ} {e : ℤ} {accuracy : Accuracy} {q : ℚ}

theorem targetExponent_eq (m : ℕ) (e : ℤ) :
    Format.binary64.targetExponent (totalExponent m e) = max (m.log2 + e - 52) (-1074) := by
  have hbits : (Format.binary64.mantissaBits : ℤ) = 53 := by decide
  have hleast : Format.binary64.minExponent = -1074 := by decide
  rw [Format.targetExponent, totalExponent, hbits, hleast]
  congr 1
  ring

theorem shiftToExponent_of_le {t : ℤ} (h : e ≤ t) :
    shiftToExponent m e accuracy t
      = (ExtendedMantissa.ofMantissaAndAccuracy m accuracy >>> (t - e).toNat, t) := by
  rw [shiftToExponent]
  congr 1
  omega

theorem IsResidue.mul_zpow_le (hq : IsResidue accuracy (q / 2 ^ e - m)) :
    m * 2 ^ e ≤ q ∧ q < (m + 1) * 2 ^ e := by
  obtain ⟨hlow, hhigh⟩ := hq.bounds
  have hpos := two_zpow_pos e
  exact ⟨(le_div_iff₀ hpos).mp (by linarith), (div_lt_iff₀ hpos).mp (by linarith)⟩

theorem IsResidue.zero_le (hq : IsResidue accuracy (q / 2 ^ e - m)) : 0 ≤ q :=
  le_trans (mul_two_zpow_nonneg m e) hq.mul_zpow_le.1

/-- The exponent that rounding aims at is that of the last place. -/
theorem isLastPlace_targetExponent (hq : IsResidue accuracy (q / 2 ^ e - m))
    (he : e ≤ max (m.log2 + e - 52) (-1074)) :
    IsLastPlace q (max (m.log2 + e - 52) (-1074)) := by
  have hpos := two_zpow_pos e
  obtain ⟨hlow, hhigh⟩ := hq.mul_zpow_le
  rw [← abs_of_nonneg hq.zero_le] at hlow hhigh
  refine ⟨le_max_right _ _, ?_, ?_⟩
  · have hm : (m : ℚ) + 1 ≤ 2 ^ (m.log2 + 1) := by exact_mod_cast Nat.lt_log2_self
    calc |q| < (m + 1) * 2 ^ e := hhigh
      _ ≤ 2 ^ (m.log2 + 1) * 2 ^ e := mul_le_mul_of_nonneg_right hm hpos.le
      _ = 2 ^ (e + (m.log2 + 1 : ℕ)) := by rw [two_zpow_split, zpow_natCast]
      _ ≤ 2 ^ (max ((m.log2 : ℤ) + e - 52) (-1074) + 53) := two_zpow_le (by omega)
  · rcases max_cases ((m.log2 : ℤ) + e - 52) (-1074) with ⟨hmax, -⟩ | ⟨hmax, -⟩
    · right
      have hm0 : m ≠ 0 := by
        rintro rfl
        rw [hmax, Nat.log2_zero] at he
        omega
      have hm : (2 : ℚ) ^ m.log2 ≤ m := by exact_mod_cast Nat.log2_self_le hm0
      calc (2 : ℚ) ^ (max ((m.log2 : ℤ) + e - 52) (-1074) + 52) = 2 ^ (e + m.log2) := by
            rw [hmax]
            congr 1
            ring
        _ = 2 ^ m.log2 * 2 ^ e := by rw [two_zpow_split, zpow_natCast]
        _ ≤ m * 2 ^ e := mul_le_mul_of_nonneg_right hm hpos.le
        _ ≤ |q| := hlow
    · left
      exact hmax

/-- A mantissa that rounding has made takes one more shift where it has 54 bits, and none else. -/
theorem shiftToTargetExponent_exact (hm : m ≤ 2 ^ 53) (hleast : -1074 ≤ e)
    (hle : e = -1074 ∨ 2 ^ 52 ≤ m) :
    ∃ em f, shiftToTargetExponent Format.binary64 m e .exact = (em, f)
      ∧ IsCanonical em.mantissa f ∧ (em.mantissa : ℚ) * 2 ^ f = m * 2 ^ e := by
  rw [shiftToTargetExponent, targetExponent_eq]
  rcases hm.lt_or_eq with hlt | rfl
  · have hlog : m.log2 ≤ 52 := by
      rcases Nat.eq_zero_or_pos m with rfl | hpos
      · rw [Nat.log2_zero]
        omega
      · have := (Nat.log2_lt (k := 53) hpos.ne').mpr hlt
        omega
    have hnone : (max ((m.log2 : ℤ) + e - 52) (-1074) - e).toNat = 0 := by omega
    refine ⟨_, _, by rw [shiftToExponent, hnone], ?_, ?_⟩
    · rw [Nat.cast_zero, add_zero]
      exact ⟨hlt, hleast, hle⟩
    · rw [Nat.cast_zero, add_zero]
      rfl
  · have hlog : (2 ^ 53 : ℕ).log2 = 53 := Nat.log2_two_pow
    have hone : (max (((2 ^ 53 : ℕ).log2 : ℤ) + e - 52) (-1074) - e).toNat = 1 := by omega
    have hhalf : (ExtendedMantissa.ofMantissaAndAccuracy (2 ^ 53) .exact >>> 1).mantissa = 2 ^ 52 :=
      rfl
    refine ⟨_, _, by rw [shiftToExponent, hone], ?_, ?_⟩ <;> rw [hhalf, Nat.cast_one]
    · exact ⟨by norm_num, by omega, Or.inr le_rfl⟩
    · rw [zpow_add_one₀ (by norm_num)]
      push_cast
      ring

/-- Rounding gives the parts of the nearest double. -/
theorem exists_roundWithAccuracy (sign : Sign) (hq : IsResidue accuracy (q / 2 ^ e - m))
    (he : e ≤ max (m.log2 + e - 52) (-1074)) :
    ∃ n f, roundWithAccuracy Format.binary64 sign m e accuracy = ofMantissa sign n f
      ∧ IsCanonical n f ∧ (n : ℚ) * 2 ^ f = toDouble q := by
  set t := max ((m.log2 : ℤ) + e - 52) (-1074) with ht
  have hplace : IsLastPlace q t := isLastPlace_targetExponent hq he
  set em := ExtendedMantissa.ofMantissaAndAccuracy m accuracy >>> (t - e).toNat with hem
  have happrox : Approximates em (q / 2 ^ t) := by
    have hstart : Approximates (ExtendedMantissa.ofMantissaAndAccuracy m accuracy) (q / 2 ^ e) := by
      rw [Approximates, accuracy_ofMantissaAndAccuracy, mantissa_ofMantissaAndAccuracy]
      exact hq
    have hshift : q / 2 ^ e / 2 ^ (t - e).toNat = q / 2 ^ t := by
      rw [div_div, ← zpow_natCast, ← zpow_add₀ (by norm_num)]
      congr 2
      omega
    rw [← hshift]
    exact hstart.shiftRight _
  have hnear := happrox.isNearestEven
  have hpos := two_zpow_pos t
  have hq0 := hq.zero_le
  have hfirst : shiftToTargetExponent Format.binary64 m e accuracy = (em, t) := by
    rw [shiftToTargetExponent, targetExponent_eq, shiftToExponent_of_le he]
  have hbits : em.roundedMantissa ≤ 2 ^ 53 := by
    have hunits : q / 2 ^ t ≤ ((2 ^ 53 : ℕ) : ℤ) := by
      have hlt := hplace.lt
      rw [abs_of_nonneg hq0, two_zpow_split] at hlt
      rw [div_le_iff₀ hpos]
      exact_mod_cast hlt.le
    exact_mod_cast hnear.mono (isNearestEven_intCast _) hunits
  have hnormal : t = -1074 ∨ 2 ^ 52 ≤ em.roundedMantissa := by
    refine hplace.le.imp_right fun hle => ?_
    have hunits : ((2 ^ 52 : ℕ) : ℤ) ≤ q / 2 ^ t := by
      rw [abs_of_nonneg hq0, two_zpow_split] at hle
      rw [le_div_iff₀ hpos]
      exact_mod_cast hle
    exact_mod_cast (isNearestEven_intCast _).mono hnear hunits
  obtain ⟨final, f, hsecond, hcanonical, hvalue⟩ :=
    shiftToTargetExponent_exact hbits hplace.least_le hnormal
  refine ⟨final.mantissa, f, ?_, hcanonical, ?_⟩
  · rw [roundWithAccuracy, hfirst]
    simp only [hsecond]
    rfl
  · rw [hvalue, toDouble_eq hplace hnear]
    norm_cast

/-- Where the exponent is too large, the mantissa is first widened. -/
theorem exists_round (sign : Sign) (hm : 0 < m) :
    ∃ n f, UnpackedFloat.round Format.binary64 sign m e = ofMantissa sign n f ∧ IsCanonical n f
      ∧ (n : ℚ) * 2 ^ f = toDouble (m * 2 ^ e) := by
  set t := max ((m.log2 : ℤ) + e - 52) (-1074) with ht
  have hscaled : decreaseExponent m e t = (m * 2 ^ (e - t).toNat, e - (e - t).toNat) := by
    rw [decreaseExponent, Nat.shiftLeft_eq]
  have hlog : (m * 2 ^ (e - t).toNat).log2 = m.log2 + (e - t).toNat := by
    rw [Nat.log2_eq_iff (by positivity), add_right_comm, pow_add, pow_add]
    exact ⟨Nat.mul_le_mul_right _ (Nat.log2_self_le hm.ne'),
      Nat.mul_lt_mul_of_pos_right Nat.lt_log2_self (by positivity)⟩
  have hvalue : ((m * 2 ^ (e - t).toNat : ℕ) : ℚ) * 2 ^ (e - (e - t).toNat) = m * 2 ^ e := by
    push_cast
    rw [mul_assoc, ← zpow_natCast, ← zpow_add₀ (by norm_num)]
    congr 2
    omega
  rw [UnpackedFloat.round, targetExponent_eq, ← ht, hscaled, ← hvalue]
  refine exists_roundWithAccuracy sign ?_ ?_
  · rw [IsResidue, mul_div_cancel_right₀ _ (two_zpow_pos _).ne', sub_self]
  · rw [hlog]
    omega

end Nearest

end FunctionGraph.Number
