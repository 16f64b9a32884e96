import FunctionGraph.Number.Shortest
import FunctionGraph.Proofs.Number.Truncation

/-!
# Shortest decimals read back

The search for a shortest decimal ends with one that lies among the reals nearest to the double, so
rounding it gives the double again. Which decimal it is does not matter for that.
-/

namespace FunctionGraph.Number

/-- The number that a decimal stands for. -/
def Decimal.value (d : Decimal) : ℚ :=
  d.digits * 10 ^ d.exponent

def Magnitude.value (x : Magnitude) : ℚ :=
  x.mantissa * 2 ^ x.exponent

theorem Magnitude.value_pos {x : Magnitude} (hpos : 0 < x.mantissa) : 0 < x.value :=
  mul_pos (by exact_mod_cast hpos) (two_zpow_pos _)

theorem compareScaled_eq (a : ℕ) (i : ℤ) (b : ℕ) (j : ℤ) :
    compareScaled a i b j = compare ((a : ℚ) * 10 ^ i) (b * 2 ^ j) := by
  have h₁ : (0 : ℚ) < powerOf 10 (-i) := by exact_mod_cast powerOf_pos (b := 10) (by norm_num) _
  have h₂ : (0 : ℚ) < powerOf 2 (-j) := by exact_mod_cast powerOf_pos (b := 2) (by norm_num) _
  have hleft : ((a * powerOf 10 i * powerOf 2 (-j) : ℕ) : ℚ)
      = a * 10 ^ i * (powerOf 10 (-i) * powerOf 2 (-j)) := by
    have hten := zpow_eq_powerOf_div 10 i
    push_cast at hten ⊢
    rw [hten]
    field_simp
  have hright : ((b * powerOf 2 j * powerOf 10 (-i) : ℕ) : ℚ)
      = b * 2 ^ j * (powerOf 10 (-i) * powerOf 2 (-j)) := by
    have htwo := zpow_eq_powerOf_div 2 j
    push_cast at htwo ⊢
    rw [htwo]
    field_simp
  rw [compareScaled]
  refine compare_eq_compare ?_ ?_
  · rw [← Nat.cast_lt (α := ℚ), hleft, hright, mul_lt_mul_iff_left₀ (mul_pos h₁ h₂)]
  · rw [← Nat.cast_lt (α := ℚ), hleft, hright, mul_lt_mul_iff_left₀ (mul_pos h₁ h₂)]

namespace Magnitude

variable {x : Magnitude} {d : Decimal}

theorem narrowBelow_iff : x.narrowBelow = true ↔ x.mantissa = 2 ^ 52 ∧ x.exponent ≠ -1074 := by
  rw [narrowBelow, Bool.and_eq_true, beq_iff_eq, bne_iff_ne]
  rfl

/-- A decimal that reads back lies between the halves of the neighbouring units, or on the edge of an
even mantissa. Below a power of two the unit is half as large. -/
theorem readsBack_iff : x.readsBack d = true ↔
    (((4 * x.mantissa - (if x.narrowBelow then 1 else 2) : ℕ) : ℚ) * 2 ^ (x.exponent - 2) < d.value
      ∨ x.mantissa % 2 = 0 ∧
        d.value = ((4 * x.mantissa - (if x.narrowBelow then 1 else 2) : ℕ) : ℚ) * 2 ^ (x.exponent - 2))
    ∧ (d.value < ((4 * x.mantissa + 2 : ℕ) : ℚ) * 2 ^ (x.exponent - 2)
      ∨ x.mantissa % 2 = 0 ∧ d.value = ((4 * x.mantissa + 2 : ℕ) : ℚ) * 2 ^ (x.exponent - 2)) := by
  rw [readsBack]
  simp only [compareScaled_eq, Bool.and_eq_true, Bool.or_eq_true, beq_iff_eq, compare_gt_iff_gt,
    compare_lt_iff_lt, compare_eq_iff_eq]
  rfl

theorem isNearestEven_of_between {u : ℚ} {m : ℕ}
    (hlow : (m : ℚ) - 1 / 2 < u ∨ m % 2 = 0 ∧ (m : ℚ) - 1 / 2 ≤ u)
    (hhigh : u < m + 1 / 2 ∨ m % 2 = 0 ∧ u ≤ m + 1 / 2) : IsNearestEven u m := by
  have heven : m % 2 = 0 → Even (m : ℤ) := fun h => by exact_mod_cast Nat.even_iff.mpr h
  constructor
  · push_cast
    rw [abs_le]
    constructor
    · rcases hlow with hlow | ⟨-, hlow⟩ <;> linarith
    · rcases hhigh with hhigh | ⟨-, hhigh⟩ <;> linarith
  · intro htie
    push_cast at htie
    rcases hlow with hlow | ⟨hbit, -⟩
    · rcases hhigh with hhigh | ⟨hbit, -⟩
      · rcases (abs_eq (by norm_num)).mp htie with h | h <;> linarith
      · exact heven hbit
    · exact heven hbit

/-- The same in units of the last place: the decimal is about the mantissa. -/
theorem exists_units_of_readsBack (h : x.readsBack d = true) (hpos : 0 < x.mantissa) :
    ∃ u : ℚ, d.value = u * 2 ^ x.exponent
      ∧ (x.mantissa - (if x.narrowBelow then 1 / 4 else 1 / 2) < u
        ∨ x.mantissa % 2 = 0 ∧ x.mantissa - (if x.narrowBelow then 1 / 4 else 1 / 2) ≤ u)
      ∧ (u < x.mantissa + 1 / 2 ∨ x.mantissa % 2 = 0 ∧ u ≤ x.mantissa + 1 / 2) := by
  obtain ⟨hlow, hhigh⟩ := readsBack_iff.mp h
  have hunit := two_zpow_pos x.exponent
  have hquarter : ∀ k : ℕ, (k : ℚ) * 2 ^ (x.exponent - 2) = k / 4 * 2 ^ x.exponent := by
    intro k
    rw [zpow_sub₀ (by norm_num)]
    norm_num
    ring
  have hdelta : (if x.narrowBelow then 1 else 2) ≤ 4 * x.mantissa := by split <;> omega
  have hedge : (((if x.narrowBelow then 1 else 2 : ℕ)) : ℚ)
      = 4 * (if x.narrowBelow then 1 / 4 else 1 / 2) := by split <;> norm_num
  obtain ⟨u, hu⟩ : ∃ u, d.value = u * 2 ^ x.exponent := ⟨_, (div_mul_cancel₀ _ hunit.ne').symm⟩
  rw [hquarter, hu, mul_lt_mul_iff_left₀ hunit, mul_left_inj' hunit.ne'] at hlow hhigh
  rw [Nat.cast_sub hdelta, hedge] at hlow
  push_cast at hlow hhigh
  refine ⟨u, hu, hlow.imp (fun h => by linarith) fun h => ⟨h.1, by linarith [h.2]⟩,
    hhigh.imp (fun h => by linarith) fun h => ⟨h.1, by linarith [h.2]⟩⟩

theorem toDouble_of_readsBack (hcanonical : IsCanonical x.mantissa x.exponent)
    (hpos : 0 < x.mantissa) (h : x.readsBack d = true) : toDouble d.value = x.value := by
  obtain ⟨u, hu, hlow, hhigh⟩ := exists_units_of_readsBack h hpos
  have hm : (x.mantissa : ℚ) + 1 ≤ 2 ^ 53 := by exact_mod_cast hcanonical.lt
  have hm0 : (1 : ℚ) ≤ x.mantissa := by exact_mod_cast hpos
  have hlt : u < 2 ^ 53 := by rcases hhigh with hhigh | ⟨-, hhigh⟩ <;> linarith
  rw [hu, value]
  by_cases hnarrow : x.narrowBelow = true
  · obtain ⟨hmantissa, he⟩ := narrowBelow_iff.mp hnarrow
    have hleast := hcanonical.least_le
    have hm52 : (x.mantissa : ℚ) = 2 ^ 52 := by rw [hmantissa]; norm_num
    rw [if_pos hnarrow, hm52] at hlow
    rw [hm52] at hhigh ⊢
    have hu0 : 2 ^ 52 - 1 / 4 ≤ u := by rcases hlow with hlow | ⟨-, hlow⟩ <;> linarith
    have hu1 : u ≤ 2 ^ 52 + 1 / 2 := by rcases hhigh with hhigh | ⟨-, hhigh⟩ <;> linarith
    rcases le_or_gt (2 ^ 52) u with hge | hless
    · have hnear : IsNearestEven u (2 ^ 52 : ℕ) :=
        isNearestEven_of_between (Or.inl (by push_cast; linarith))
          (Or.inr ⟨by norm_num, by push_cast; linarith⟩)
      have := toDouble_mul_zpow hnear (by linarith) hlt hleast (Or.inr hge)
      push_cast at this
      exact this
    · -- Below the power of two the units are half as large.
      have hnear : IsNearestEven (2 * u) (2 ^ 53 : ℕ) :=
        isNearestEven_of_between (Or.inr ⟨by norm_num, by push_cast; linarith⟩)
          (Or.inl (by push_cast; linarith))
      have hhalf : u * 2 ^ x.exponent = 2 * u * 2 ^ (x.exponent - 1) := by
        rw [zpow_sub_one₀ (by norm_num)]
        ring
      have := toDouble_mul_zpow hnear (by linarith) (by linarith) (e := x.exponent - 1) (by omega)
        (Or.inr (by linarith))
      rw [hhalf, this, zpow_sub_one₀ (by norm_num)]
      push_cast
      ring
  · rw [if_neg hnarrow] at hlow
    have hu0 : (x.mantissa : ℚ) - 1 / 2 ≤ u := by rcases hlow with hlow | ⟨-, hlow⟩ <;> linarith
    refine toDouble_mul_zpow (isNearestEven_of_between hlow hhigh) (by linarith) hlt
      hcanonical.least_le ?_
    by_cases he : x.exponent = -1074
    · exact Or.inl he
    · right
      have hmore : 2 ^ 52 + 1 ≤ x.mantissa := by
        have hne : x.mantissa ≠ 2 ^ 52 := fun h => hnarrow (narrowBelow_iff.mpr ⟨h, he⟩)
        have := hcanonical.le.resolve_left he
        omega
      have hmore' : (2 ^ 52 : ℚ) + 1 ≤ x.mantissa := by exact_mod_cast hmore
      linarith

/-! ### The search -/

theorem readsBack_of_neighbour? {exponent : ℤ} (h : x.neighbour? exponent = some d) :
    x.readsBack d = true := by
  rw [neighbour?] at h
  split at h
  · next hdown hup =>
    split at h
    · rwa [← Option.some.inj h]
    · rwa [← Option.some.inj h]
    · split at h <;> rwa [← Option.some.inj h]
  · next hdown _ => rwa [← Option.some.inj h]
  · next _ hup => rwa [← Option.some.inj h]
  · cases h

theorem value_exact (x : Magnitude) : x.exact.value = x.value := by
  have hpower : ∀ b e, powerOf b e = b ^ e.toNat := fun _ _ => rfl
  rw [Decimal.value, exact, value, hpower, hpower]
  rcases le_total 0 x.exponent with he | he
  · obtain ⟨k, hk⟩ := Int.eq_ofNat_of_zero_le he
    have hnone : (-x.exponent).toNat = 0 := by omega
    rw [min_eq_right he, hnone, hk, Int.toNat_natCast, zpow_natCast]
    push_cast
    ring
  · obtain ⟨k, hk⟩ := Int.eq_ofNat_of_zero_le (neg_nonneg.mpr he)
    have hexponent : x.exponent = -k := by omega
    have hnone : x.exponent.toNat = 0 := by omega
    have hten : (10 : ℚ) ^ k = 2 ^ k * 5 ^ k := by rw [← mul_pow]; norm_num
    rw [min_eq_left he, hnone, hk, Int.toNat_natCast, hexponent, zpow_neg, zpow_neg, zpow_natCast,
      zpow_natCast, hten]
    push_cast
    field_simp

theorem readsBack_exact (hpos : 0 < x.mantissa) : x.readsBack x.exact = true := by
  have hunit := two_zpow_pos (x.exponent - 2)
  have hm : (0 : ℚ) < x.mantissa := by exact_mod_cast hpos
  have hquarters : x.exact.value = 4 * x.mantissa * 2 ^ (x.exponent - 2) := by
    rw [value_exact, value, zpow_sub₀ (by norm_num)]
    norm_num
    ring
  have hdelta : (if x.narrowBelow then 1 else 2) ≤ 4 * x.mantissa := by split <;> omega
  have hdelta' : 0 < (if x.narrowBelow then 1 else 2) := by split <;> omega
  rw [readsBack_iff, hquarters]
  refine ⟨Or.inl (mul_lt_mul_of_pos_right ?_ hunit), Or.inl (mul_lt_mul_of_pos_right ?_ hunit)⟩
  · exact_mod_cast Nat.sub_lt (by omega) hdelta'
  · push_cast
    linarith

theorem readsBack_shortest (hpos : 0 < x.mantissa) : x.readsBack x.shortest = true := by
  rw [shortest]
  cases hsearch : (List.range' 1 17).findSome? fun count : ℕ => x.neighbour? (x.scale - count) with
  | none => exact readsBack_exact hpos
  | some d =>
    obtain ⟨count, -, hcount⟩ := List.exists_of_findSome?_eq_some hsearch
    exact readsBack_of_neighbour? hcount

theorem toDouble_shortest (hcanonical : IsCanonical x.mantissa x.exponent) (hpos : 0 < x.mantissa) :
    toDouble x.shortest.value = x.value :=
  toDouble_of_readsBack hcanonical hpos (readsBack_shortest hpos)

end Magnitude

end FunctionGraph.Number
