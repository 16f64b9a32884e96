import FunctionGraph.Proofs.Number.Arithmetic

/-!
# Comparing doubles

Finite doubles compare as the numbers they stand for. Two canonical forms are first compared by their
exponents, since a larger exponent is a larger number.
-/

namespace FunctionGraph.Number

open Float.Model (UnpackedFloat Format)
open Float.Model.UnpackedFloat

section Comparison

variable {x y : Float} {p q : ℚ} {m n : ℕ} {e f : ℤ}

theorem IsCanonical.lt_of_exponent_lt (hm : IsCanonical m e) (hn : IsCanonical n f) (h : e < f) :
    (m : ℚ) * 2 ^ e < n * 2 ^ f := by
  have hnormal : (2 ^ 52 : ℚ) ≤ n := by
    have := hm.least_le
    exact_mod_cast hn.le.resolve_left (by omega)
  have hm' : (m : ℚ) < 2 ^ 53 := by exact_mod_cast hm.lt
  calc (m : ℚ) * 2 ^ e < 2 ^ 53 * 2 ^ e := mul_lt_mul_of_pos_right hm' (two_zpow_pos e)
    _ = 2 ^ (e + 53) := by rw [two_zpow_split]; norm_cast
    _ ≤ 2 ^ (f + 52) := two_zpow_le (by omega)
    _ = 2 ^ 52 * 2 ^ f := by rw [two_zpow_split]; norm_cast
    _ ≤ n * 2 ^ f := mul_le_mul_of_nonneg_right hnormal (two_zpow_pos f).le

theorem compare_eq_compare {α β : Type*} [LinearOrder α] [LinearOrder β] {a b : α} {c d : β}
    (hlt : a < b ↔ c < d) (hgt : b < a ↔ d < c) : compare a b = compare c d := by
  rcases lt_trichotomy a b with h | h | h
  · rw [compare_lt_iff_lt.mpr h, compare_lt_iff_lt.mpr (hlt.mp h)]
  · have hcd : c = d :=
      le_antisymm (not_lt.mp fun h' => (hgt.mpr h').ne' h) (not_lt.mp fun h' => (hlt.mpr h').ne h)
    rw [compare_eq_iff_eq.mpr h, compare_eq_iff_eq.mpr hcd]
  · rw [compare_gt_iff_gt.mpr h, compare_gt_iff_gt.mpr (hgt.mp h)]

theorem IsCanonical.compare_eq (hm : IsCanonical m e) (hn : IsCanonical n f) :
    (compare e f).then (compare m n) = compare ((m : ℚ) * 2 ^ e) (n * 2 ^ f) := by
  rcases lt_trichotomy e f with hlt | rfl | hgt
  · rw [compare_lt_iff_lt.mpr hlt, compare_lt_iff_lt.mpr (hm.lt_of_exponent_lt hn hlt)]
    rfl
  · have hpos := two_zpow_pos e
    rw [compare_eq_iff_eq.mpr rfl, Ordering.then]
    refine compare_eq_compare ?_ ?_ <;> rw [mul_lt_mul_iff_left₀ hpos, Nat.cast_lt]
  · rw [compare_gt_iff_gt.mpr hgt, compare_gt_iff_gt.mpr (hn.lt_of_exponent_lt hm hgt)]
    rfl

theorem IsCanonical.unique (hm : IsCanonical m e) (hn : IsCanonical n f)
    (h : (m : ℚ) * 2 ^ e = n * 2 ^ f) : m = n ∧ e = f := by
  rcases lt_trichotomy e f with hlt | rfl | hgt
  · exact absurd h (hm.lt_of_exponent_lt hn hlt).ne
  · have := mul_right_cancel₀ (two_zpow_pos e).ne' h
    exact ⟨by exact_mod_cast this, rfl⟩
  · exact absurd h (hn.lt_of_exponent_lt hm hgt).ne'

theorem compare_neg_neg (p q : ℚ) : compare (-p) (-q) = (compare p q).swap := by
  rcases lt_trichotomy p q with hlt | rfl | hgt
  · rw [compare_lt_iff_lt.mpr hlt, compare_gt_iff_gt.mpr (neg_lt_neg hlt)]
    rfl
  · rw [compare_eq_iff_eq.mpr rfl, compare_eq_iff_eq.mpr rfl]
    rfl
  · rw [compare_gt_iff_gt.mpr hgt, compare_lt_iff_lt.mpr (neg_lt_neg hgt)]
    rfl

theorem compare_unpack (hx : rational? x = some p) (hy : rational? y = some q) :
    x.toModel.unpack.compare y.toModel.unpack = some (compare p q) := by
  have hfinite : ∀ {k : ℕ} (i : ℤ), 0 < k → (0 : ℚ) < k * 2 ^ i := fun i hk =>
    mul_pos (by exact_mod_cast hk) (two_zpow_pos i)
  obtain ⟨s, hunpackx, rfl⟩ | ⟨s, m, e, hm, hunpackx, hcx, -, rfl⟩ := rational?_cases hx <;>
    obtain ⟨t, hunpacky, rfl⟩ | ⟨t, n, f, hn, hunpacky, hcy, -, rfl⟩ := rational?_cases hy <;>
    rw [hunpackx, hunpacky]
  · rw [compare_eq_iff_eq.mpr rfl]
    rfl
  · cases t
    · rw [signed_negative, compare_gt_iff_gt.mpr (neg_lt_zero.mpr (hfinite f hn))]
      rfl
    · rw [signed_positive, compare_lt_iff_lt.mpr (hfinite f hn)]
      rfl
  · cases s
    · rw [signed_negative, compare_lt_iff_lt.mpr (neg_lt_zero.mpr (hfinite e hm))]
      rfl
    · rw [signed_positive, compare_gt_iff_gt.mpr (hfinite e hm)]
      rfl
  · cases s <;> cases t
    · rw [signed_negative, signed_negative, compare_neg_neg, ← hcx.compare_eq hcy]
      rfl
    · have hlt : -((m : ℚ) * 2 ^ e) < n * 2 ^ f :=
        (neg_lt_zero.mpr (hfinite e hm)).trans (hfinite f hn)
      rw [signed_negative, signed_positive, compare_lt_iff_lt.mpr hlt]
      rfl
    · have hgt : -((n : ℚ) * 2 ^ f) < m * 2 ^ e :=
        (neg_lt_zero.mpr (hfinite f hn)).trans (hfinite e hm)
      rw [signed_negative, signed_positive, compare_gt_iff_gt.mpr hgt]
      rfl
    · exact congrArg some (hcx.compare_eq hcy)

theorem le_iff_rational (hx : rational? x = some p) (hy : rational? y = some q) :
    x ≤ y ↔ p ≤ q := by
  change decide (x.toModel ≤ y.toModel) = true ↔ _
  rw [decide_eq_true_iff]
  change (x.toModel.unpack.compare y.toModel.unpack).any (·.isLE) = true ↔ _
  rw [compare_unpack hx hy, Option.any_some, Ordering.isLE_iff_ne_gt, ← not_lt, ← compare_gt_iff_gt]

theorem beq_iff_rational (hx : rational? x = some p) (hy : rational? y = some q) :
    x == y ↔ p = q := by
  change (x.toModel.unpack.compare y.toModel.unpack == some .eq) = true ↔ _
  rw [compare_unpack hx hy, beq_iff_eq, Option.some.injEq, compare_eq_iff_eq]

theorem compare_infinity_negative (u : UnpackedFloat) :
    u.compare (.infinity .negative) ≠ some .lt := by
  cases u with
  | infinity s => cases s <;> decide
  | _ => simp [UnpackedFloat.compare]

theorem infinity_positive_compare (u : UnpackedFloat) :
    UnpackedFloat.compare (.infinity .positive) u ≠ some .lt := by
  cases u with
  | infinity s => cases s <;> decide
  | _ => simp [UnpackedFloat.compare]

theorem lt_iff_compare : x < y ↔ x.toModel.unpack.compare y.toModel.unpack = some .lt := by
  change decide (x.toModel < y.toModel) = true ↔ _
  rw [decide_eq_true_iff]
  change (x.toModel.unpack.compare y.toModel.unpack == some .lt) = true ↔ _
  rw [beq_iff_eq]

theorem lt_iff_rational (hx : rational? x = some p) (hy : rational? y = some q) :
    x < y ↔ p < q := by
  rw [lt_iff_compare, compare_unpack hx hy, Option.some.injEq, compare_lt_iff_lt]

/-- What stands between two doubles is finite. -/
theorem exists_rational?_of_between {z : Float} (hxz : x < z) (hzy : z < y) :
    ∃ r, rational? z = some r := by
  rw [lt_iff_compare] at hxz hzy
  rw [rational?]
  cases hz : z.toModel.unpack with
  | finite s m e hm => exact ⟨_, rfl⟩
  | zero s => exact ⟨_, rfl⟩
  | notANumber =>
    rw [hz] at hxz
    cases hu : x.toModel.unpack <;> rw [hu] at hxz <;> cases hxz
  | infinity s =>
    rw [hz] at hxz hzy
    cases s
    · exact absurd hxz (compare_infinity_negative _)
    · exact absurd hzy (infinity_positive_compare _)

theorem isSome_rational? (x : Float) : (rational? x).isSome = x.isFinite := by
  change (rationalOf? x.toModel.unpack).isSome = x.toModel.unpack.isFinite
  cases x.toModel.unpack <;> rfl

theorem isFinite_of_rational? (hx : rational? x = some p) : x.isFinite = true := by
  rw [← isSome_rational?, hx]
  rfl

theorem exists_rational? (hx : x.isFinite = true) : ∃ p, rational? x = some p := by
  rw [← isSome_rational?] at hx
  exact Option.isSome_iff_exists.mp hx

/-- A finite result is the number that it was rounded to. -/
theorem rational?_of_withinRange (hvalue : rational? x = withinRange p) (h : x.isFinite = true) :
    rational? x = some p := by
  obtain ⟨d, hd⟩ := exists_rational? h
  rw [hd, eq_comm, withinRange_eq_some] at hvalue
  rw [hd, hvalue.2]

theorem rational?_sub_of_isFinite (hx : rational? x = some p) (hy : rational? y = some q)
    (h : (x - y).isFinite = true) : rational? (x - y) = some (toDouble (p - q)) :=
  rational?_of_withinRange (rational?_sub hx hy) h

theorem le_of_lt_of_isFinite (hx : x.isFinite = true) (hy : y.isFinite = true) (h : x < y) : x ≤ y := by
  obtain ⟨p, hp⟩ := exists_rational? hx
  obtain ⟨q, hq⟩ := exists_rational? hy
  exact (le_iff_rational hp hq).mpr ((lt_iff_rational hp hq).mp h).le

theorem le_trans_of_isFinite {z : Float} (hx : x.isFinite = true) (hy : y.isFinite = true)
    (hz : z.isFinite = true) (hxy : x ≤ y) (hyz : y ≤ z) : x ≤ z := by
  obtain ⟨p, hp⟩ := exists_rational? hx
  obtain ⟨q, hq⟩ := exists_rational? hy
  obtain ⟨r, hr⟩ := exists_rational? hz
  rw [le_iff_rational hp hq] at hxy
  rw [le_iff_rational hq hr] at hyz
  exact (le_iff_rational hp hr).mpr (hxy.trans hyz)

end Comparison

end FunctionGraph.Number
