import FunctionGraph.Proofs.Curve.GridOrder
import FunctionGraph.Proofs.Number.Halves

/-!
# Grids over any domain

A domain that is wider than the largest double is laid out at half its size, where nothing leaves the
range of doubles, and its points are doubled. Both halving the ends and doubling the points are exact, so
the points of such a grid are those of the half-sized one, twice as large. They ascend inside the domain
as those of any other grid.
-/

namespace FunctionGraph

open Number (rational? toDouble)

namespace Grid

section Doubled

variable {value : Float} {p q v : ℚ}

/-- Doubling is exact, or it leaves the range of doubles on the right, past every double. -/
theorem StandsFor.double {bound : Float} (h : StandsFor (q / 2) value v)
    (hbound : rational? bound = some q) (hv : -2 ^ (1024 : ℤ) < 2 * v) :
    StandsFor q (value * 2) (2 * v) := by
  rcases h with hvalue | ⟨hinfinite, hpast⟩
  · have htwice := (Number.isDouble_of_rational? hvalue).mul_two
    have hround : toDouble (v * 2) = 2 * v := by
      rw [Number.toDouble_of_isDouble htwice, mul_comm]
    by_cases hinside : 2 * v < 2 ^ (1024 : ℤ)
    · left
      rw [Number.rational?_mul hvalue Number.rational?_two, hround]
      exact if_pos (abs_lt.mpr ⟨hv, hinside⟩)
    · right
      refine ⟨Number.isPositiveInfinity_mul hvalue Number.rational?_two ?_, ?_⟩
      · rw [hround]
        exact not_lt.mp hinside
      · exact (abs_lt.mp (Number.abs_rational?_lt hbound)).2.le.trans (not_lt.mp hinside)
  · exact Or.inr ⟨hinfinite.mul Number.rational?_two two_pos, by linarith⟩

end Doubled

section Wide

variable {lo hi : Float} {p q : ℚ} {n i : ℕ}
variable (hlo : rational? lo = some p) (hhi : rational? hi = some q)
  (hspan : rational? (hi - lo) = none) (hn : 0 < n) (hsmall : n ≤ 2 ^ 53)

include hlo hhi hspan hn hsmall

/-- A domain that is too wide is laid out as the half of it is. -/
theorem place_eq_double : place lo hi n i = place (lo / 2) (hi / 2) n i * 2 := by
  obtain ⟨hq, hp⟩ := Number.large_of_sub_eq_none hhi hlo hspan
  have hstep : ((hi - lo) / Float.ofNat n).isFinite = false := by
    rw [← Number.isSome_rational?, Number.rational?_div_eq_none hspan]
    rfl
  have hhalf := rational?_step (Number.rational?_half hlo hp) (Number.rational?_half hhi hq)
    (Number.isFinite_of_rational? (Number.rational?_half_sub hhi hlo hspan)) hn hsmall
  simp only [place, hstep, Number.isFinite_of_rational? hhalf, if_true, Bool.false_eq_true, if_false]

/-- The numbers that the points of a too wide domain are. -/
theorem rational?_point_wide (hpq : p ≤ q) (hin : i ≤ n) :
    rational? (point lo hi n i) = some (2 * placed (p / 2) (q / 2) n i) := by
  obtain ⟨hq, hp⟩ := Number.large_of_sub_eq_none hhi hlo hspan
  have hlo' := Number.rational?_half hlo hp
  have hhi' := Number.rational?_half hhi hq
  have hpq' : p / 2 ≤ q / 2 := by linarith
  have hplace := standsFor_place hlo' hhi'
    (Number.isFinite_of_rational? (Number.rational?_half_sub hhi hlo hspan)) hn hsmall hpq' hin
  have hlow := (abs_lt.mp (Number.abs_rational?_lt hlo)).1
  have hv := (le_placed (n := n) (i := i) hlo' hpq').trans (min_le_left _ _)
  rw [point, place_eq_double hlo hhi hspan hn hsmall,
    (hplace.double hhi (by linarith)).rational?_clampAbove hhi, placed,
    mul_min_of_nonneg _ _ zero_le_two, mul_div_cancel₀ q two_ne_zero]

end Wide

section Domain

variable {lo hi x : Float} {p q : ℚ} {n i j : ℕ}

section Layout

variable (hlo : rational? lo = some p) (hhi : rational? hi = some q) (hn : 0 < n) (hsmall : n ≤ 2 ^ 53)
  (hpq : p ≤ q)

include hlo hhi hn hsmall hpq

/-- The numbers that the points of a grid are. -/
theorem exists_layout :
    ∃ v : ℕ → ℚ, (∀ i ≤ n, rational? (point lo hi n i) = some (v i))
      ∧ v 0 = p ∧ Monotone v ∧ ∀ i, v i ≤ q := by
  cases hspan : rational? (hi - lo) with
  | some w =>
    exact ⟨placed p q n,
      fun i => rational?_point hlo hhi (Number.isFinite_of_rational? hspan) hn hsmall hpq,
      placed_zero hlo hpq, fun i j => placed_mono hpq, fun i => placed_le⟩
  | none =>
    have hlo' := Number.rational?_half hlo (Number.large_of_sub_eq_none hhi hlo hspan).2
    have hpq' : p / 2 ≤ q / 2 := by linarith
    refine ⟨fun i => 2 * placed (p / 2) (q / 2) n i,
      fun i => rational?_point_wide hlo hhi hspan hn hsmall hpq, ?_, fun i j hij => ?_, fun i => ?_⟩
    · change 2 * placed (p / 2) (q / 2) n 0 = p
      rw [placed_zero hlo' hpq', mul_div_cancel₀ p two_ne_zero]
    · exact mul_le_mul_of_nonneg_left (placed_mono hpq' hij) zero_le_two
    · have := placed_le (p := p / 2) (q := q / 2) (n := n) (i := i)
      linarith

theorem rational?_point_zero : rational? (point lo hi n 0) = some p := by
  obtain ⟨v, hv, hfirst, -, -⟩ := exists_layout hlo hhi hn hsmall hpq
  exact hfirst ▸ hv 0 (Nat.zero_le n)

theorem point_le_point (hij : i ≤ j) (hjn : j ≤ n) : point lo hi n i ≤ point lo hi n j := by
  obtain ⟨v, hv, -, hmono, -⟩ := exists_layout hlo hhi hn hsmall hpq
  exact (Number.le_iff_rational (hv i (hij.trans hjn)) (hv j hjn)).mpr (hmono hij)

theorem pairwise_points : (points lo hi n).Pairwise (· ≤ ·) := by
  rw [points, List.pairwise_map]
  refine List.pairwise_lt_range.imp_of_mem fun {i j} _ hj hij => ?_
  exact point_le_point hlo hhi hn hsmall hpq hij.le (Nat.lt_succ_iff.mp (List.mem_range.mp hj))

theorem exists_rational?_of_mem_points (hx : x ∈ points lo hi n) :
    ∃ r, rational? x = some r ∧ p ≤ r ∧ r ≤ q := by
  obtain ⟨v, hv, hfirst, hmono, hle⟩ := exists_layout hlo hhi hn hsmall hpq
  obtain ⟨i, hi', rfl⟩ := List.mem_map.mp hx
  have hin := Nat.lt_succ_iff.mp (List.mem_range.mp hi')
  exact ⟨v i, hv i hin, hfirst ▸ hmono (Nat.zero_le i), hle i⟩

end Layout

/-- **The grid stays inside the domain.** Between any two finite doubles, however far apart, all points
are finite doubles of the domain, in order from the left end on. -/
theorem points?_inside {intervals : ℤ} (hlo : lo.isFinite = true) (hhi : hi.isFinite = true)
    (hlt : lo < hi) (hpos : 1 ≤ intervals) (hsmall : intervals < 2 ^ 53) :
    ∃ grid, points? lo hi intervals = .ok grid
      ∧ (grid.length : ℤ) = intervals + 1
      ∧ (∃ first, grid.head? = some first ∧ first == lo)
      ∧ (∀ x ∈ grid, x.isFinite = true ∧ lo ≤ x ∧ x ≤ hi)
      ∧ grid.Pairwise (· ≤ ·) := by
  obtain ⟨p, hp⟩ := Number.exists_rational? hlo
  obtain ⟨q, hq⟩ := Number.exists_rational? hhi
  have hpq := ((Number.lt_iff_rational hp hq).mp hlt).le
  lift intervals to ℕ using by omega with n
  have hn : 0 < n := by omega
  have hn' : n ≤ 2 ^ 53 := by omega
  have hfirst := rational?_point_zero hp hq hn hn' hpq
  refine ⟨points lo hi n, ?_, ?_, ⟨point lo hi n 0, head?_points lo hi n, ?_⟩, fun x hx => ?_,
    pairwise_points hp hq hn hn' hpq⟩
  · rw [points?, if_neg (by omega), if_neg (by omega), Int.toNat_natCast]
  · rw [length_points]
    rfl
  · exact (Number.beq_iff_rational hfirst hp).mpr rfl
  · obtain ⟨r, hr, hpr, hrq⟩ := exists_rational?_of_mem_points hp hq hn hn' hpq hx
    exact ⟨Number.isFinite_of_rational? hr, (Number.le_iff_rational hp hr).mpr hpr,
      (Number.le_iff_rational hr hq).mpr hrq⟩

/-- The widest domain there is. -/
theorem points?_inside_of_widest :
    ∃ grid, points? (-1.7976931348623157e308) 1.7976931348623157e308 800 = .ok grid
      ∧ grid.length = 801
      ∧ (∃ first, grid.head? = some first ∧ first == -1.7976931348623157e308)
      ∧ (∀ x ∈ grid,
        x.isFinite = true ∧ -1.7976931348623157e308 ≤ x ∧ x ≤ 1.7976931348623157e308)
      ∧ grid.Pairwise (· ≤ ·) := by
  have hlt : (-1.7976931348623157e308 : Float) < 1.7976931348623157e308 := by decide +kernel
  have hpos : (1 : ℤ) ≤ 800 := by decide
  have hsmall : (800 : ℤ) < 2 ^ 53 := by decide
  obtain ⟨grid, hgrid, hlength, hrest⟩ :=
    points?_inside (by decide +kernel) (by decide +kernel) hlt hpos hsmall
  exact ⟨grid, hgrid, by omega, hrest⟩

end Domain

end Grid

end FunctionGraph
