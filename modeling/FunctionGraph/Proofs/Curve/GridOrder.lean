import FunctionGraph.Curve.Grid
import FunctionGraph.Proofs.Number.Conversion
import FunctionGraph.Proofs.Number.Overflow
import FunctionGraph.Proofs.Number.Truncation

/-!
# The order of a grid

Where the span of the domain is finite, the numbers that the points of a grid are ascend and stay inside
the domain, although every step of their calculation is rounded. A point may only be carried past the right
end: past the largest double that gives the positive infinity, which is kept inside like every other excess.
-/

namespace FunctionGraph

open Number (rational? toDouble withinRange)

namespace Grid

theorem head?_points (lo hi : Float) (n : ℕ) : (points lo hi n).head? = some (point lo hi n 0) := by
  rw [points, List.range_succ_eq_map]
  rfl

theorem getLast?_points (lo hi : Float) (n : ℕ) :
    (points lo hi n).getLast? = some (point lo hi n n) := by
  rw [points, List.range_succ, List.map_append, List.map_singleton, List.getLast?_concat]

section Clamp

variable {bound value : Float} {q v : ℚ}

theorem rational?_clampAbove (hbound : rational? bound = some q) (hvalue : rational? value = some v) :
    rational? (clampAbove bound value) = some (min v q) := by
  simp only [clampAbove, Number.isNaN_eq_false_of_rational? hvalue, Bool.or_false, decide_eq_true_eq,
    Number.lt_iff_rational hvalue hbound]
  split
  · next hlt => rw [hvalue, min_eq_left hlt.le]
  · next hge => rw [hbound, min_eq_right (not_lt.mp hge)]

theorem clampAbove_of_isPositiveInfinity (h : Number.IsPositiveInfinity value) :
    clampAbove bound value = bound := by
  simp only [clampAbove, h.isNaN_eq_false, Bool.or_false, decide_eq_true_eq, h.not_lt bound, if_false]

/-- The number, or the positive infinity in place of a number that is past the bound. -/
def StandsFor (q : ℚ) (value : Float) (v : ℚ) : Prop :=
  rational? value = some v ∨ Number.IsPositiveInfinity value ∧ q ≤ v

theorem StandsFor.rational?_clampAbove (h : StandsFor q value v) (hbound : rational? bound = some q) :
    rational? (clampAbove bound value) = some (min v q) := by
  rcases h with hvalue | ⟨hinfinite, hpast⟩
  · exact Grid.rational?_clampAbove hbound hvalue
  · rw [clampAbove_of_isPositiveInfinity hinfinite, hbound, min_eq_right hpast]

end Clamp

section Placed

variable {lo : Float} {p q : ℚ} {n i j : ℕ}

/-- The number that a step of the grid is. -/
noncomputable def stepWidth (p q : ℚ) (n : ℕ) : ℚ :=
  toDouble (toDouble (q - p) / n)

/-- The number that the `i`-th point is, with the rounding of each operation. -/
noncomputable def placed (p q : ℚ) (n i : ℕ) : ℚ :=
  min (toDouble (p + toDouble (i * stepWidth p q n))) q

theorem stepWidth_nonneg (hpq : p ≤ q) : 0 ≤ stepWidth p q n := by
  refine Number.le_toDouble Number.isDouble_zero (div_nonneg ?_ (Nat.cast_nonneg n))
  exact Number.le_toDouble Number.isDouble_zero (sub_nonneg.mpr hpq)

theorem placed_mono (hpq : p ≤ q) (hij : i ≤ j) : placed p q n i ≤ placed p q n j := by
  have hcast : (i : ℚ) ≤ j := by exact_mod_cast hij
  refine min_le_min_right q (Number.toDouble_mono (add_le_add_right ?_ p))
  exact Number.toDouble_mono (mul_le_mul_of_nonneg_right hcast (stepWidth_nonneg hpq))

theorem placed_zero (hlo : rational? lo = some p) (hpq : p ≤ q) : placed p q n 0 = p := by
  rw [placed, Nat.cast_zero, zero_mul, Number.toDouble_zero, add_zero, Number.toDouble_rational? hlo,
    min_eq_left hpq]

theorem placed_le : placed p q n i ≤ q :=
  min_le_right _ _

theorem le_placed (hlo : rational? lo = some p) (hpq : p ≤ q) : p ≤ placed p q n i := by
  refine le_min (Number.le_toDouble (Number.isDouble_of_rational? hlo) ?_) hpq
  refine le_add_of_nonneg_right (Number.le_toDouble Number.isDouble_zero ?_)
  exact mul_nonneg (Nat.cast_nonneg i) (stepWidth_nonneg hpq)

end Placed

section Order

variable {lo hi : Float} {p q : ℚ} {n i : ℕ}
variable (hlo : rational? lo = some p) (hhi : rational? hi = some q)
  (hspan : (hi - lo).isFinite = true)

include hlo hhi hspan

theorem rational?_span : rational? (hi - lo) = some (toDouble (q - p)) :=
  Number.rational?_sub_of_isFinite hhi hlo hspan

variable (hn : 0 < n) (hsmall : n ≤ 2 ^ 53)

include hn hsmall

/-- A step is no wider than the domain. -/
theorem rational?_step : rational? ((hi - lo) / Float.ofNat n) = some (stepWidth p q n) := by
  have hwidth := rational?_span hlo hhi hspan
  have hone : (1 : ℚ) ≤ n := by exact_mod_cast hn
  have hless : |stepWidth p q n| ≤ |toDouble (q - p)| := by
    refine Number.abs_toDouble_le (Number.isDouble_of_rational? (Number.rational?_magnitude hwidth)) ?_
    rw [abs_div, Nat.abs_cast]
    exact div_le_self (abs_nonneg _) hone
  exact (Number.rational?_div hwidth (Number.rational?_ofNat hsmall) (by positivity)).trans
    (if_pos (hless.trans_lt (Number.abs_rational?_lt hwidth)))

variable (hpq : p ≤ q)

include hpq

/-- Where the calculation leaves the range of doubles it is past the right end. -/
theorem standsFor_place (hin : i ≤ n) :
    StandsFor q (place lo hi n i) (toDouble (p + toDouble (i * stepWidth p q n))) := by
  have hstep := rational?_step hlo hhi hspan hn hsmall
  have hindex := Number.rational?_ofNat (hin.trans hsmall)
  have hq := (abs_lt.mp (Number.abs_rational?_lt hhi)).2
  have hplace : place lo hi n i = lo + Float.ofNat i * ((hi - lo) / Float.ofNat n) := by
    simp only [place, Number.isFinite_of_rational? hstep, if_true]
  have hoffset0 : 0 ≤ toDouble (i * stepWidth p q n) :=
    Number.le_toDouble Number.isDouble_zero (mul_nonneg (Nat.cast_nonneg i) (stepWidth_nonneg hpq))
  rw [hplace]
  by_cases hoffset : toDouble (i * stepWidth p q n) < 2 ^ (1024 : ℤ)
  · have hproduct := (Number.rational?_mul hindex hstep).trans
      (if_pos (by rwa [abs_of_nonneg hoffset0]))
    by_cases hsum : toDouble (p + toDouble (i * stepWidth p q n)) < 2 ^ (1024 : ℤ)
    · have hp : p ≤ toDouble (p + toDouble (i * stepWidth p q n)) :=
        Number.le_toDouble (Number.isDouble_of_rational? hlo) (le_add_of_nonneg_right hoffset0)
      have hinside : |toDouble (p + toDouble (i * stepWidth p q n))| < 2 ^ (1024 : ℤ) :=
        abs_lt.mpr ⟨(abs_lt.mp (Number.abs_rational?_lt hlo)).1.trans_le hp, hsum⟩
      exact Or.inl ((Number.rational?_add hlo hproduct).trans (if_pos hinside))
    · exact Or.inr ⟨Number.isPositiveInfinity_add hlo hproduct (not_lt.mp hsum),
        hq.le.trans (not_lt.mp hsum)⟩
  · refine Or.inr ⟨(Number.isPositiveInfinity_mul hindex hstep (not_lt.mp hoffset)).add hlo, ?_⟩
    -- The offset is larger than the span, since that is a finite double.
    have hwidth := (abs_lt.mp (Number.abs_rational?_lt (rational?_span hlo hhi hspan))).2
    have hpast := Number.lt_of_toDouble_lt (Number.isDouble_toDouble _)
      (hwidth.trans_le (not_lt.mp hoffset))
    exact Number.le_toDouble (Number.isDouble_of_rational? hhi) (by linarith)

theorem rational?_point (hin : i ≤ n) : rational? (point lo hi n i) = some (placed p q n i) :=
  (standsFor_place hlo hhi hspan hn hsmall hpq hin).rational?_clampAbove hhi

end Order

end Grid

end FunctionGraph
