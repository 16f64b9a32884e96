import FunctionGraph.Proofs.Number.Overflow

/-!
# How far a calculation gets

A result is followed by what it reaches on the side of a sign, where the infinity of that side reaches
everything. Each operation hands this on, with the bound taken through the same operation and the same
rounding. So a result can be compared although the calculation may have left the range of doubles.
-/

namespace FunctionGraph.Number

open Float.Model (UnpackedFloat Format)
open Float.Model.UnpackedFloat

/-- The double that the exact number is rounded to, an infinity where it is out of range. -/
def IsRounding (q : ℚ) (x : Float) : Prop :=
  rational? x = some (toDouble q) ∨ ∃ s, IsInfinite s x ∧ 2 ^ (1024 : ℤ) ≤ signed s (toDouble q)

/-- The number is at least as far as `r` on the side of the sign. -/
def Reaches (s : Sign) (r : ℚ) (x : Float) : Prop :=
  IsInfinite s x ∨ ∃ p, rational? x = some p ∧ signed s r ≤ signed s p

section Rounding

variable {x y : Float} {p q r : ℚ} {s : Sign}

theorem signed_toDouble_mono (h : signed s p ≤ signed s q) :
    signed s (toDouble p) ≤ signed s (toDouble q) := by
  rw [← toDouble_signed, ← toDouble_signed]
  exact toDouble_mono h

/-- A bound on the side of its sign is above all results that are infinite on the other side. -/
theorem neg_lt_signed_of_nonneg (h : 0 ≤ signed s q) : -2 ^ (1024 : ℤ) < signed s q :=
  (neg_lt_zero.mpr (two_zpow_pos 1024)).trans_le h

theorem isRounding_of_large (hvalue : rational? x = withinRange (toDouble q))
    (hlarge : ∀ s, 2 ^ (1024 : ℤ) ≤ signed s (toDouble q) → IsInfinite s x) : IsRounding q x := by
  by_cases hsmall : |toDouble q| < 2 ^ (1024 : ℤ)
  · exact Or.inl (hvalue.trans (if_pos hsmall))
  · refine Or.inr ?_
    rcases le_abs.mp (not_lt.mp hsmall) with hpos | hneg
    · exact ⟨.positive, hlarge .positive hpos, hpos⟩
    · exact ⟨.negative, hlarge .negative hneg, hneg⟩

/-- A number that is rounded reaches what its rounded value reaches. The bound is above the least double,
so the infinity of the other side does not come into question. -/
theorem IsRounding.reaches (h : IsRounding q x) (hr : signed s r ≤ signed s (toDouble q))
    (hlow : -2 ^ (1024 : ℤ) < signed s r) : Reaches s r x := by
  rcases h with hvalue | ⟨t, hinfinite, hlarge⟩
  · exact Or.inr ⟨toDouble q, hvalue, hr⟩
  · by_cases hst : s = t
    · rw [hst]
      exact Or.inl hinfinite
    · have hother : signed s (toDouble q) = -signed t (toDouble q) := by
        rw [← signed_neg]
        cases s <;> cases t
        · exact absurd rfl hst
        · rfl
        · rfl
        · exact absurd rfl hst
      linarith

section Operations

variable (hx : rational? x = some p) (hy : rational? y = some q)

include hx hy

theorem isRounding_add : IsRounding (p + q) (x + y) :=
  isRounding_of_large (rational?_add hx hy) fun _ => isInfinite_add hx hy

theorem isRounding_sub : IsRounding (p - q) (x - y) := by
  rw [sub_eq_add_neg, sub_eq_add_neg_of_rational? x hy]
  exact isRounding_add hx (rational?_neg hy)

theorem isRounding_mul : IsRounding (p * q) (x * y) :=
  isRounding_of_large (rational?_mul hx hy) fun _ => isInfinite_mul hx hy

theorem isRounding_div (hq : q ≠ 0) : IsRounding (p / q) (x / y) :=
  isRounding_of_large (rational?_div hx hy hq) fun _ => isInfinite_div hx hy hq

end Operations

end Rounding

section Reach

variable {x y : Float} {q r r' : ℚ} {s : Sign}

theorem signed_mul_le_signed_mul (hq : 0 ≤ q) {p : ℚ} (h : signed s r ≤ signed s p) :
    signed s (r * q) ≤ signed s (p * q) := by
  rw [signed_mul_right, signed_mul_right]
  exact mul_le_mul_of_nonneg_right h hq

theorem Reaches.add (hy : rational? y = some q) (h : Reaches s r x)
    (hr : signed s r' ≤ signed s (toDouble (q + r))) (hlow : -2 ^ (1024 : ℤ) < signed s r') :
    Reaches s r' (y + x) := by
  rcases h with hinfinite | ⟨p, hx, hp⟩
  · exact Or.inl (hinfinite.add hy)
  · refine (isRounding_add hy hx).reaches (hr.trans (signed_toDouble_mono ?_)) hlow
    rw [signed_add, signed_add]
    exact add_le_add_right hp _

/-- What is subtracted from a number pulls it to the other side. -/
theorem Reaches.sub (hy : rational? y = some q) (h : Reaches (-s) r x)
    (hr : signed s r' ≤ signed s (toDouble (q - r))) (hlow : -2 ^ (1024 : ℤ) < signed s r') :
    Reaches s r' (y - x) := by
  rcases h with hinfinite | ⟨p, hx, hp⟩
  · have hdouble : -(-s) = s := by cases s <;> rfl
    exact Or.inl (hdouble ▸ hinfinite.sub hy)
  · refine (isRounding_sub hy hx).reaches (hr.trans (signed_toDouble_mono ?_)) hlow
    rw [signed_neg, signed_neg, neg_le_neg_iff] at hp
    rw [signed_sub, signed_sub]
    exact sub_le_sub_left hp _

/-- An infinity has no product with zero, a finite number has. -/
theorem Reaches.mul (h : Reaches s r x) (hy : rational? y = some q)
    (hq : 0 < q ∨ 0 ≤ q ∧ x.isFinite = true) (hr : signed s r' ≤ signed s (toDouble (r * q)))
    (hlow : -2 ^ (1024 : ℤ) < signed s r') : Reaches s r' (x * y) := by
  rcases h with hinfinite | ⟨p, hx, hp⟩
  · refine Or.inl (hinfinite.mul hy (hq.resolve_right fun hfinite => ?_))
    obtain ⟨p, hx⟩ := exists_rational? hfinite.2
    rw [rational?_of_unpack hinfinite] at hx
    cases hx
  · have hq' : 0 ≤ q := hq.elim le_of_lt And.left
    exact (isRounding_mul hx hy).reaches
      (hr.trans (signed_toDouble_mono (signed_mul_le_signed_mul hq' hp))) hlow

theorem Reaches.div (h : Reaches s r x) (hy : rational? y = some q) (hq : 0 < q)
    (hr : signed s r' ≤ signed s (toDouble (r / q))) (hlow : -2 ^ (1024 : ℤ) < signed s r') :
    Reaches s r' (x / y) := by
  rcases h with hinfinite | ⟨p, hx, hp⟩
  · exact Or.inl (hinfinite.div hy hq)
  · refine (isRounding_div hx hy hq.ne').reaches (hr.trans (signed_toDouble_mono ?_)) hlow
    rw [div_eq_mul_inv, div_eq_mul_inv]
    exact signed_mul_le_signed_mul (inv_nonneg.mpr hq.le) hp

/-! ### Comparing -/

theorem le_of_reaches_negative (h : Reaches .negative r x) (hy : rational? y = some q) (hrq : r ≤ q) :
    x ≤ y := by
  rcases h with hinfinite | ⟨p, hx, hp⟩
  · change decide (x.toModel ≤ y.toModel) = true
    rw [decide_eq_true_iff]
    change (x.toModel.unpack.compare y.toModel.unpack).any (·.isLE) = true
    rw [hinfinite]
    obtain ⟨t, hunpack, -⟩ | ⟨t, m, e, hm, hunpack, -⟩ := rational?_cases hy <;> rw [hunpack] <;> rfl
  · exact (le_iff_rational hx hy).mpr ((neg_le_neg_iff.mp hp).trans hrq)

theorem not_le_of_reaches_positive (h : Reaches .positive r x) (hy : rational? y = some q)
    (hqr : q < r) : ¬x ≤ y := by
  rcases h with hinfinite | ⟨p, hx, hp⟩
  · change ¬decide (x.toModel ≤ y.toModel) = true
    rw [decide_eq_true_iff]
    change ¬(x.toModel.unpack.compare y.toModel.unpack).any (·.isLE) = true
    rw [hinfinite]
    obtain ⟨t, hunpack, -⟩ | ⟨t, m, e, hm, hunpack, -⟩ := rational?_cases hy <;> rw [hunpack] <;>
      exact Bool.false_ne_true
  · rw [le_iff_rational hx hy, not_le]
    exact hqr.trans_le hp

end Reach

end FunctionGraph.Number
