import FunctionGraph.Proofs.Number.Nearest

/-!
# Distances between doubles

All doubles are multiples of the least positive one. So doubles that differ do so by at least that much,
and their difference has no digits below it: rounding costs a small part of the difference, however close
the doubles are.
-/

namespace FunctionGraph.Number

section Spacing

variable {p q : ℚ}

/-- Every double is a multiple of the least positive one. -/
theorem IsDouble.exists_multiple (h : IsDouble q) : ∃ n : ℤ, q = n * 2 ^ (-1074 : ℤ) := by
  obtain ⟨k, e, -, he, rfl⟩ := h
  have hexponent : ((e + 1074).toNat : ℤ) + -1074 = e := by omega
  refine ⟨k * 2 ^ (e + 1074).toNat, ?_⟩
  rw [Int.cast_mul, Int.cast_pow, mul_assoc, ← zpow_natCast, Int.cast_ofNat,
    ← zpow_add₀ (by norm_num), hexponent]

variable (hp : IsDouble p) (hq : IsDouble q)

include hp hq

theorem exists_multiple_sub : ∃ n : ℤ, q - p = n * 2 ^ (-1074 : ℤ) := by
  obtain ⟨m, rfl⟩ := hp.exists_multiple
  obtain ⟨n, rfl⟩ := hq.exists_multiple
  exact ⟨n - m, by rw [Int.cast_sub, sub_mul]⟩

theorem least_le_toDouble_sub (h : p < q) : 2 ^ (-1074 : ℤ) ≤ toDouble (q - p) := by
  have hpos := two_zpow_pos (-1074)
  obtain ⟨n, hn⟩ := exists_multiple_sub hp hq
  have hone : (1 : ℚ) ≤ n := by
    have hn' : 0 < (n : ℚ) := pos_of_mul_pos_left (hn ▸ sub_pos.mpr h) hpos.le
    exact_mod_cast hn'
  refine le_toDouble (isDouble_two_zpow le_rfl) ?_
  rw [hn]
  exact le_mul_of_one_le_left hpos.le hone

theorem toDouble_sub_pos (h : p < q) : 0 < toDouble (q - p) :=
  (two_zpow_pos _).trans_le (least_le_toDouble_sub hp hq h)

theorem abs_toDouble_sub_sub_le : |toDouble (q - p) - (q - p)| ≤ |q - p| / 2 ^ 53 := by
  obtain ⟨n, hn⟩ := exists_multiple_sub hp hq
  exact abs_toDouble_sub_le_of_multiple hn

end Spacing

end FunctionGraph.Number
