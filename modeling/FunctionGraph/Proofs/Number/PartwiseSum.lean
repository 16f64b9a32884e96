import FunctionGraph.Proofs.Number.Arithmetic

/-!
# Whole part and fraction

What the sum of the rounded parts of a decimal is rounded to, when the decimal itself is rounded to a
given double. Below one there is one part only and nothing changes. Above one the fraction is rounded
by a quarter of a unit at most, which is enough to end on a neighbour and never farther away.
-/

namespace FunctionGraph.Number

open Float.Model.UnpackedFloat (Sign)

section Parts

variable {m W : ℕ} {e : ℤ} {F v : ℚ}

/-- No double lies strictly between the two. -/
def IsAdjacent (p q : ℚ) : Prop :=
  ∀ d, IsDouble d → ¬(p < d ∧ d < q) ∧ ¬(q < d ∧ d < p)

theorem IsAdjacent.signed {p q : ℚ} (h : IsAdjacent p q) (s : Sign) :
    IsAdjacent (signed s p) (signed s q) := by
  cases s
  · intro d hd
    obtain ⟨hpq, hqp⟩ := h (-d) hd.neg
    rw [signed_negative, signed_negative]
    exact ⟨fun ⟨h₁, h₂⟩ => hqp ⟨by linarith, by linarith⟩,
      fun ⟨h₁, h₂⟩ => hpq ⟨by linarith, by linarith⟩⟩
  · exact h

/-- A whole part and a fraction whose sum is rounded to `v`. -/
structure RoundsTo (W : ℕ) (F v : ℚ) : Prop where
  nonneg : 0 ≤ F
  lt_one : F < 1
  toDouble_add : toDouble (W + F) = v

/-- Below one the whole part is zero, and the sum is rounded to the same double. -/
theorem RoundsTo.toDouble_parts (h : RoundsTo W F v) (hlt : v < 1) :
    toDouble (toDouble W + toDouble F) = v := by
  obtain ⟨hF, -, hv⟩ := h
  have hsum : (W : ℚ) + F < 1 := lt_of_toDouble_lt isDouble_one (hv ▸ hlt)
  have hzero : W = 0 := by
    have : (W : ℚ) < 1 := by linarith
    exact_mod_cast Nat.lt_one_iff.mp (by exact_mod_cast this)
  rw [hzero, Nat.cast_zero, zero_add] at hv
  rw [hzero, Nat.cast_zero, toDouble_zero, zero_add, toDouble_of_isDouble (isDouble_toDouble F), hv]

/-- A number above one with a fraction: its units are small, and it is no power of two. -/
theorem exponent_of_fraction (hcanonical : IsCanonical m e) (hone : 1 < (m : ℚ) * 2 ^ e)
    (hfraction : ∀ n : ℤ, (m : ℚ) * 2 ^ e ≠ n) : -52 ≤ e ∧ e < 0 ∧ 2 ^ 52 < m := by
  have hm : (m : ℚ) < 2 ^ 53 := by exact_mod_cast hcanonical.lt
  have hwhole : ∀ (n : ℕ) (i : ℤ), 0 ≤ i → (m : ℚ) * 2 ^ e ≠ n * 2 ^ i := by
    intro n i hi h
    lift i to ℕ using hi
    refine hfraction (n * 2 ^ i) ?_
    rw [h, zpow_natCast]
    push_cast
    rfl
  have hneg : e < 0 := by
    by_contra hge
    exact hwhole m e (not_lt.mp hge) rfl
  have hunits : (1 : ℚ) < 2 ^ (e + 53) := by
    calc (1 : ℚ) < m * 2 ^ e := hone
      _ < 2 ^ 53 * 2 ^ e := mul_lt_mul_of_pos_right hm (two_zpow_pos e)
      _ = 2 ^ (e + 53) := by rw [two_zpow_split]; norm_cast
  have hlow : -52 ≤ e := by
    by_contra hlt
    have : (2 : ℚ) ^ (e + 53) ≤ 2 ^ (0 : ℤ) := two_zpow_le (by omega)
    rw [zpow_zero] at this
    linarith
  refine ⟨hlow, hneg, lt_of_le_of_ne (hcanonical.le.resolve_left (by omega)) fun heq => ?_⟩
  refine hwhole 1 (e + 52) (by omega) ?_
  rw [← heq, two_zpow_split]
  norm_cast
  rw [one_mul]

/-- Above one the fraction is rounded by a quarter of a unit at most, and so the sum is less than a
unit away. -/
theorem RoundsTo.abs_parts_sub_lt (h : RoundsTo W F (m * 2 ^ e)) (hcanonical : IsCanonical m e)
    (hlow : -52 ≤ e) (hneg : e < 0) : |toDouble W + toDouble F - m * 2 ^ e| < 2 ^ e := by
  obtain ⟨hF, hF1, hv⟩ := h
  have hsum : (W : ℚ) + F < 2 ^ (e + 53) := by
    refine lt_of_toDouble_lt (isDouble_two_zpow (by omega)) ?_
    have hm : (m : ℚ) < 2 ^ (53 : ℤ) := by exact_mod_cast hcanonical.lt
    rw [hv, two_zpow_split]
    exact mul_lt_mul_of_pos_right hm (two_zpow_pos e)
  have hW : toDouble W = W := by
    have hW53 : (W : ℚ) < 2 ^ (53 : ℤ) := by
      have : (2 : ℚ) ^ (e + 53) ≤ 2 ^ (53 : ℤ) := two_zpow_le (by omega)
      linarith
    have hWnat : W < 2 ^ 53 := by exact_mod_cast hW53
    have := toDouble_of_isDouble (isDouble_intCast (k := W) (abs_le.mpr ⟨by omega, by omega⟩))
    exact_mod_cast this
  have hroundF : |toDouble F - F| ≤ 2 ^ (-53 : ℤ) / 2 :=
    abs_toDouble_sub_le (by norm_num) (by rw [abs_of_nonneg hF]; simpa using hF1)
  have hround : |toDouble (W + F) - (W + F)| ≤ 2 ^ e / 2 :=
    abs_toDouble_sub_le (by omega) (by rwa [abs_of_nonneg (by positivity)])
  have hquarter : (2 : ℚ) ^ (-53 : ℤ) ≤ 2 ^ e / 2 := by
    rw [div_eq_mul_inv, ← zpow_sub_one₀ (by norm_num)]
    exact two_zpow_le (by omega)
  have hunit := two_zpow_pos e
  rw [hv] at hround
  rw [abs_le] at hroundF hround
  rw [hW, abs_lt]
  constructor <;> linarith

theorem RoundsTo.isAdjacent (h : RoundsTo W F (m * 2 ^ e)) (hcanonical : IsCanonical m e)
    (hone : 1 < (m : ℚ) * 2 ^ e) (hfraction : ∀ n : ℤ, (m : ℚ) * 2 ^ e ≠ n) :
    IsAdjacent (toDouble (toDouble W + toDouble F)) (m * 2 ^ e) := by
  obtain ⟨hleast, hneg, hm52⟩ := exponent_of_fraction hcanonical hone hfraction
  obtain ⟨hlow, hhigh⟩ := abs_lt.mp (h.abs_parts_sub_lt hcanonical hleast hneg)
  have hm53 := hcanonical.lt
  have hbelow : ((m - 1 : ℤ) : ℚ) * 2 ^ e ≤ toDouble (toDouble W + toDouble F) :=
    le_toDouble (isDouble_mul_zpow (abs_le.mpr ⟨by omega, by omega⟩) hcanonical.least_le) (by
      push_cast
      linarith)
  have habove : toDouble (toDouble W + toDouble F) ≤ ((m + 1 : ℤ) : ℚ) * 2 ^ e :=
    toDouble_le (isDouble_mul_zpow (abs_le.mpr ⟨by omega, by omega⟩) hcanonical.least_le) (by
      push_cast
      linarith)
  push_cast at hbelow habove
  intro d hd
  constructor
  · rintro ⟨hrd, hdv⟩
    refine hd.not_between (k := m - 1) (e := e) (by omega) ?_ ?_ <;> push_cast
    · exact hbelow.trans_lt hrd
    · rwa [sub_add_cancel]
  · rintro ⟨hvd, hdr⟩
    exact hd.not_between (k := m) (by omega) (by exact_mod_cast hvd)
      (by exact_mod_cast hdr.trans_le habove)

end Parts

end FunctionGraph.Number
