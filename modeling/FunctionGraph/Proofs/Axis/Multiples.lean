import FunctionGraph.Axis.Ticks
import FunctionGraph.Proofs.Axis.Placement
import FunctionGraph.Proofs.Number.FloorCeil

/-!
# Ticks are multiples

Over the exact rationals the ticks of an axis are the multiples of its step from one end to the other.
The first one and their number are found apart, by a ceiling and a floor. Measured in steps the two
count the integers between the ends of the axis, whichever side of zero these are on.
-/

namespace FunctionGraph.Ticks

/-- The ticks are the multiples of `step` from `lo` to `hi`, each of them once and in order. -/
structure AreMultiples (lo hi step : ℚ) (ticks : List ℚ) : Prop where
  ascending : ticks.Pairwise (· < ·)
  mem_iff : ∀ value, value ∈ ticks ↔ (∃ k : ℤ, value = k * step) ∧ lo ≤ value ∧ value ≤ hi

section Multiples

variable {lo hi step : ℚ} {ticks : List ℚ}

theorem AreMultiples.eq_nil_iff (h : AreMultiples lo hi step ticks) :
    ticks = [] ↔ ∀ k : ℤ, ¬(lo ≤ k * step ∧ k * step ≤ hi) := by
  rw [List.eq_nil_iff_forall_not_mem]
  constructor
  · intro hnone k hinside
    exact hnone _ ((h.mem_iff _).mpr ⟨⟨k, rfl⟩, hinside⟩)
  · intro hnone value hmem
    obtain ⟨⟨k, rfl⟩, hinside⟩ := (h.mem_iff value).mp hmem
    exact hnone k hinside

theorem AreMultiples.zero_mem_iff (h : AreMultiples lo hi step ticks) :
    0 ∈ ticks ↔ lo ≤ 0 ∧ 0 ≤ hi := by
  have hzero : ∃ k : ℤ, (0 : ℚ) = k * step := ⟨0, by rw [Int.cast_zero, zero_mul]⟩
  rw [h.mem_iff, and_iff_right hzero]

/-- The multiples of `step` from the `first` to the `last`, in steps from zero. -/
def multiples (first last : ℤ) (step : ℚ) : List ℚ :=
  (List.range (last - first + 1).toNat).map fun (i : ℕ) => ((first + i : ℤ) : ℚ) * step

theorem mem_multiples_iff {first last : ℤ} {value : ℚ} :
    value ∈ multiples first last step ↔ ∃ k : ℤ, value = k * step ∧ first ≤ k ∧ k ≤ last := by
  rw [multiples, List.mem_map]
  constructor
  · rintro ⟨i, hi, rfl⟩
    rw [List.mem_range] at hi
    exact ⟨first + i, rfl, by omega, by omega⟩
  · rintro ⟨k, rfl, hfirst, hlast⟩
    refine ⟨(k - first).toNat, List.mem_range.mpr (by omega), ?_⟩
    congr 2
    omega

variable (hstep : 0 < step)

include hstep

theorem pairwise_multiples (first last : ℤ) : (multiples first last step).Pairwise (· < ·) := by
  rw [multiples, List.pairwise_map]
  apply List.pairwise_lt_range.imp
  intro i j hij
  apply mul_lt_mul_of_pos_right _ hstep
  exact_mod_cast (by omega : first + (i : ℤ) < first + j)

/-- Between the two ends, in steps. -/
theorem areMultiples_multiples (lo hi : ℚ) :
    AreMultiples lo hi step (multiples ⌈lo / step⌉ ⌊hi / step⌋ step) where
  ascending := pairwise_multiples hstep _ _
  mem_iff value := by
    rw [mem_multiples_iff]
    constructor
    · rintro ⟨k, rfl, hfirst, hlast⟩
      rw [Int.ceil_le, div_le_iff₀ hstep] at hfirst
      rw [Int.le_floor, le_div_iff₀ hstep] at hlast
      exact ⟨⟨k, rfl⟩, hfirst, hlast⟩
    · rintro ⟨⟨k, rfl⟩, hlo, hhi⟩
      rw [← div_le_iff₀ hstep, ← Int.ceil_le] at hlo
      rw [← le_div_iff₀ hstep, ← Int.le_floor] at hhi
      exact ⟨k, rfl, hlo, hhi⟩

/-- How many steps fit behind the first multiple. -/
theorem floor_sub_first (lo hi : ℚ) :
    ⌊(hi - ⌈lo / step⌉ * step) / step⌋ = ⌊hi / step⌋ - ⌈lo / step⌉ := by
  rw [sub_div, mul_div_cancel_right₀ _ hstep.ne', Int.floor_sub_intCast]

theorem values_eq_multiples (lo hi : ℚ) :
    values lo hi step = .ok (multiples ⌈lo / step⌉ ⌊hi / step⌋ step) := by
  have hdivide : ∀ a : ℚ, Scalar.divide a step = .ok (a / step) := fun a =>
    Scalar.divide_of_ne (beq_eq_false_iff_ne.mpr hstep.ne')
  have hlast : Scalar.truncate (Scalar.floor ((hi - ⌈lo / step⌉ * step) / step))
      = .ok (⌊hi / step⌋ - ⌈lo / step⌉) := by
    rw [Scalar.floor_rational, Scalar.truncate_rational, Number.integerPart_cast,
      floor_sub_first hstep]
  have hplaces : ∀ i : ℕ, (⌈lo / step⌉ : ℚ) * step + Scalar.ofInt i * step
      = ((⌈lo / step⌉ + i : ℤ) : ℚ) * step := by
    intro i
    change (⌈lo / step⌉ : ℚ) * step + ((i : ℤ) : ℚ) * step = _
    push_cast
    ring
  calc values lo hi step
      = (do
          let quotient ← Scalar.divide (hi - Scalar.ceil (lo / step) * step) step
          let last ← Scalar.truncate (Scalar.floor quotient)
          return (List.range (last + 1).toNat).map fun (i : ℕ) =>
            Scalar.ceil (lo / step) * step + Scalar.ofInt i * step) := by
        rw [values, hdivide]
        rfl
    _ = (do
          let last ← Scalar.truncate (Scalar.floor ((hi - ⌈lo / step⌉ * step) / step))
          return (List.range (last + 1).toNat).map fun (i : ℕ) =>
            (⌈lo / step⌉ : ℚ) * step + Scalar.ofInt i * step) := by
        rw [hdivide, Scalar.ceil_rational]
        rfl
    _ = .ok (multiples ⌈lo / step⌉ ⌊hi / step⌋ step) := by
        rw [hlast, multiples]
        exact congrArg Except.ok (List.map_congr_left fun i _ => hplaces i)

/-- **Ticks.** The ticks of an axis with a positive step are the multiples of the step from one end to
the other, each of them once and in order. -/
theorem values_areMultiples (lo hi : ℚ) :
    ∃ ticks, values lo hi step = .ok ticks ∧ AreMultiples lo hi step ticks ∧
      (ticks = [] ↔ ∀ k : ℤ, ¬(lo ≤ k * step ∧ k * step ≤ hi)) ∧ (0 ∈ ticks ↔ lo ≤ 0 ∧ 0 ≤ hi) := by
  have hticks := areMultiples_multiples hstep lo hi
  exact ⟨_, values_eq_multiples hstep lo hi, hticks, hticks.eq_nil_iff, hticks.zero_mem_iff⟩

omit hstep in
/-- Both ends are between two multiples, on either side of zero. -/
theorem values_areMultiples_across_zero : 0 < (5 : ℚ) ∧
    values (-12 : ℚ) (13 / 2) 5 = .ok [-10, -5, 0, 5] ∧
      AreMultiples (-12) (13 / 2) 5 [-10, -5, 0, 5] := by
  have hstep : 0 < (5 : ℚ) := by norm_num
  have hvalues : values (-12 : ℚ) (13 / 2) 5 = .ok [-10, -5, 0, 5] := by decide +kernel
  obtain ⟨ticks, hticks, hmultiples, -, -⟩ := values_areMultiples hstep (-12) (13 / 2)
  rw [hvalues, Except.ok.injEq] at hticks
  exact ⟨hstep, hvalues, hticks ▸ hmultiples⟩

end Multiples

end FunctionGraph.Ticks
