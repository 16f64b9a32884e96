import FunctionGraph.Proofs.Number.Truncation

/-!
# Floor and ceiling by truncation

Truncation toward zero is the floor of a number that is not negative and the ceiling of one that is not
positive. On the other side of zero it is off by one, unless it leaves nothing, and floor and ceiling
take the one off or put it back.
-/

namespace FunctionGraph

namespace Number

section Corrections

variable {q : ℚ}

theorem integerPart_of_nonpos (hq : q ≤ 0) : integerPart q = ⌈q⌉ := by
  have hneg := integerPart_of_nonneg (neg_nonneg.mpr hq)
  rw [integerPart_neg, Int.floor_neg] at hneg
  exact neg_injective hneg

theorem floor_eq_integerPart (q : ℚ) :
    ⌊q⌋ = if q < 0 ∧ (integerPart q : ℚ) ≠ q then integerPart q - 1 else integerPart q := by
  by_cases hq : 0 ≤ q
  · rw [if_neg (fun h => hq.not_gt h.1), integerPart_of_nonneg hq]
  · have hneg : q < 0 := not_le.mp hq
    have hhigh := Int.le_ceil q
    have hlow := Int.ceil_lt_add_one q
    rw [integerPart_of_nonpos hneg.le, Int.floor_eq_iff]
    by_cases hwhole : (⌈q⌉ : ℚ) = q
    · rw [if_neg (fun h => h.2 hwhole)]
      constructor <;> linarith
    · have hlt : q < ⌈q⌉ := lt_of_le_of_ne hhigh (Ne.symm hwhole)
      rw [if_pos ⟨hneg, hwhole⟩]
      push_cast
      constructor <;> linarith

theorem ceil_eq_integerPart (q : ℚ) :
    ⌈q⌉ = if 0 < q ∧ (integerPart q : ℚ) ≠ q then integerPart q + 1 else integerPart q := by
  have hcorrects : (-q < 0 ∧ ((-integerPart q : ℤ) : ℚ) ≠ -q) ↔ 0 < q ∧ (integerPart q : ℚ) ≠ q := by
    rw [neg_lt_zero, Int.cast_neg, Ne, neg_inj]
  have hfloor := floor_eq_integerPart (-q)
  rw [Int.floor_neg, integerPart_neg, if_congr hcorrects rfl rfl] at hfloor
  by_cases h : 0 < q ∧ (integerPart q : ℚ) ≠ q
  · rw [if_pos h] at hfloor ⊢
    omega
  · rw [if_neg h] at hfloor ⊢
    omega

end Corrections

end Number

/-! ### Exact rationals -/

namespace Scalar

open Number (integerPart)

theorem trunc_rational (q : ℚ) : trunc q = (integerPart q : ℚ) :=
  sub_sub_cancel q (integerPart q : ℚ)

theorem floor_rational (q : ℚ) : floor q = (⌊q⌋ : ℚ) := by
  have hcorrects : (q < ofInt 0 ∧ (trunc q != q) = true) ↔ q < 0 ∧ (integerPart q : ℚ) ≠ q := by
    rw [trunc_rational]
    exact and_congr Iff.rfl bne_iff_ne
  rw [floor, if_congr hcorrects rfl rfl, trunc_rational, Number.floor_eq_integerPart]
  push_cast
  rfl

theorem ceil_rational (q : ℚ) : ceil q = (⌈q⌉ : ℚ) := by
  have hcorrects : (q > ofInt 0 ∧ (trunc q != q) = true) ↔ 0 < q ∧ (integerPart q : ℚ) ≠ q := by
    rw [trunc_rational]
    exact and_congr Iff.rfl bne_iff_ne
  rw [ceil, if_congr hcorrects rfl rfl, trunc_rational, Number.ceil_eq_integerPart]
  push_cast
  rfl

theorem truncate_rational (q : ℚ) : truncate q = .ok (integerPart q) :=
  rfl

end Scalar

end FunctionGraph
