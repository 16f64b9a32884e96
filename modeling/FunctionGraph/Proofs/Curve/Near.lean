import FunctionGraph.Proofs.Curve.Landmarks
import FunctionGraph.Proofs.Number.Hundredths
import FunctionGraph.Proofs.Number.Overflow

/-!
# Points near each other

Nearness is symmetric, and it holds between finite numbers only. A point with two decimals is near zero
on an axis just when it is zero there.
-/

namespace FunctionGraph

open Float.Model (UnpackedFloat Format)
open Float.Model.UnpackedFloat (Sign)

namespace Number

section Near

variable {x y t : Float} {p q : ℚ}

theorem isNaN_magnitude (h : x.isNaN = true) : (Scalar.magnitude x).isNaN = true := by
  rw [Scalar.magnitude]
  split
  · exact isNaN_neg h
  · exact h

theorem isPositiveInfinity_magnitude {s : Sign} (h : x.toModel.unpack = .infinity s) :
    IsPositiveInfinity (Scalar.magnitude x) := by
  rw [Scalar.magnitude]
  cases s with
  | positive =>
    rw [if_neg (IsPositiveInfinity.not_lt h _)]
    exact h
  | negative =>
    have hneg : x < Scalar.ofInt 0 := by
      rw [lt_iff_compare, h]
      decide
    rw [if_pos hneg]
    change (Float.Model.pack x.toModel.unpack.neg).unpack = _
    rw [h]
    exact unpack_pack_infinity .positive

/-- What has a magnitude below some number is a number itself. -/
theorem exists_rational?_of_magnitude_lt (h : Scalar.magnitude x < t) : ∃ q, rational? x = some q := by
  cases hunpack : x.toModel.unpack with
  | notANumber =>
    have hnan := isNaN_magnitude (isNaN_iff_unpack.mpr hunpack)
    rw [isNaN_eq_false_of_lt_left h] at hnan
    cases hnan
  | infinity s => exact absurd h ((isPositiveInfinity_magnitude hunpack).not_lt t)
  | zero s => exact ⟨_, rational?_of_unpack hunpack⟩
  | finite s m e hm => exact ⟨_, rational?_of_unpack hunpack⟩

/-- A difference with what is not finite is not finite either. -/
theorem rational?_sub_eq_none (h : rational? x = none ∨ rational? y = none) :
    rational? (x - y) = none := by
  have hnan : rational? (.ofModel (.pack .notANumber)) = none :=
    rational?_of_unpack (u := .notANumber) rfl
  have hinfinite : ∀ s : Sign, rational? (.ofModel (.pack (.infinity s))) = none := fun s =>
    rational?_of_unpack (unpack_pack_infinity s)
  have hmodel : x - y
      = .ofModel (.pack (UnpackedFloat.sub Format.binary64 x.toModel.unpack y.toModel.unpack)) := rfl
  rw [rational?, rational?] at h
  rw [hmodel]
  cases hx : x.toModel.unpack with
  | notANumber => exact hnan
  | infinity s =>
    cases y.toModel.unpack with
    | notANumber => exact hnan
    | infinity t =>
      rw [UnpackedFloat.sub]
      split
      · exact hinfinite s
      · exact hnan
    | zero t | finite t m e hm => exact hinfinite s
  | zero s | finite s m e hm =>
    cases hy : y.toModel.unpack with
    | notANumber => exact hnan
    | infinity t => exact hinfinite (-t)
    | zero t | finite t n f hn =>
      rw [hx, hy] at h
      rcases h with h | h <;> cases h

/-- Only finite numbers are close: an infinity differs from all by an infinity, or by no number. -/
theorem isFinite_of_magnitude_sub_lt (h : Scalar.magnitude (x - y) < t) :
    x.isFinite = true ∧ y.isFinite = true := by
  obtain ⟨d, hd⟩ := exists_rational?_of_magnitude_lt h
  have hsome : ¬(rational? x = none ∨ rational? y = none) := fun hnone => by
    rw [rational?_sub_eq_none hnone] at hd
    cases hd
  rwa [not_or, ← ne_eq, ← ne_eq, ← Option.isSome_iff_ne_none, ← Option.isSome_iff_ne_none,
    isSome_rational?, isSome_rational?] at hsome

theorem rational?_nearTolerance : rational? Point.nearTolerance = some (toDouble (1 / 100)) := by
  have hvalue := rational?_ofScientific_fraction 1 2
  have hsmall : |toDouble ((1 : ℕ) / 10 ^ 2)| < 2 ^ (1024 : ℤ) :=
    (abs_toDouble_le isDouble_one (by norm_num)).trans_lt (two_zpow_lt (e := 0) (by norm_num))
  rw [withinRange, if_pos hsmall] at hvalue
  norm_num at hvalue
  exact hvalue

/-- Finite numbers are close when their difference, rounded to a double, is below the tolerance. -/
theorem magnitude_sub_lt_iff (hx : x.isFinite = true ∨ x.isNaN = true)
    (hy : y.isFinite = true ∨ y.isNaN = true) :
    Scalar.magnitude (x - y) < Point.nearTolerance ↔
      ∃ p q, rational? x = some p ∧ rational? y = some q ∧ |toDouble (p - q)| < toDouble (1 / 100) := by
  constructor
  · intro h
    obtain ⟨d, hd⟩ := exists_rational?_of_magnitude_lt h
    have hnumber := isNaN_eq_false_of_rational? hd
    have hxfinite : x.isFinite = true := hx.resolve_right fun hnan => by
      rw [isNaN_sub (Or.inl hnan)] at hnumber
      cases hnumber
    have hyfinite : y.isFinite = true := hy.resolve_right fun hnan => by
      rw [isNaN_sub (Or.inr hnan)] at hnumber
      cases hnumber
    obtain ⟨p, hp⟩ := exists_rational? hxfinite
    obtain ⟨q, hq⟩ := exists_rational? hyfinite
    have hvalue := rational?_sub hp hq
    rw [hd, eq_comm, withinRange_eq_some] at hvalue
    rw [lt_iff_rational (rational?_magnitude hd) rational?_nearTolerance, ← hvalue.2] at h
    exact ⟨p, q, hp, hq, h⟩
  · rintro ⟨p, q, hp, hq, h⟩
    have hsmall : toDouble (1 / 100) < 2 ^ (1024 : ℤ) :=
      (le_abs_self _).trans_lt (abs_rational?_lt rational?_nearTolerance)
    have hd := (rational?_sub hp hq).trans (if_pos (h.trans hsmall))
    exact (lt_iff_rational (rational?_magnitude hd) rational?_nearTolerance).mpr h

theorem magnitude_sub_lt_comm (hx : x.isFinite = true ∨ x.isNaN = true)
    (hy : y.isFinite = true ∨ y.isNaN = true) (h : Scalar.magnitude (x - y) < Point.nearTolerance) :
    Scalar.magnitude (y - x) < Point.nearTolerance := by
  obtain ⟨p, q, hp, hq, hclose⟩ := (magnitude_sub_lt_iff hx hy).mp h
  refine (magnitude_sub_lt_iff hy hx).mpr ⟨q, p, hq, hp, ?_⟩
  rwa [← neg_sub, toDouble_neg, abs_neg]

theorem beq_eq_false_of_isNaN (hx : x.isNaN = true) (y : Float) : (x == y) = false := by
  change (x.toModel.unpack.compare y.toModel.unpack == some .eq) = false
  rw [isNaN_iff_unpack.mp hx]
  rfl

theorem zero_lt_toDouble_hundredth : 0 < toDouble (1 / 100) := by
  have hpower : (2 : ℚ) ^ (-7 : ℤ) ≤ 1 / 100 := by norm_num
  exact (two_zpow_pos (-7)).trans_le (le_toDouble (isDouble_two_zpow (by norm_num)) hpower)

/-- A number with two decimals is near zero only if it is zero. -/
theorem magnitude_roundHundredths_lt_iff (x : Float) :
    Scalar.magnitude (Scalar.roundHundredths x - 0) < Point.nearTolerance
      ↔ Scalar.roundHundredths x == 0 := by
  have hzero : (0 : Float).isFinite = true ∨ (0 : Float).isNaN = true :=
    Or.inl isFinite_zero
  rw [magnitude_sub_lt_iff (isFinite_or_isNaN_roundHundredths x) hzero]
  constructor
  · rintro ⟨p, q, hp, hq, hclose⟩
    obtain rfl : (0 : ℚ) = q := Option.some.inj (rational?_zero.symm.trans hq)
    have hfinite : (hundredfold x).isFinite = true := by
      rw [← isFinite_roundHundredths]
      exact isFinite_of_rational? hp
    obtain ⟨r, hr⟩ := exists_rational? hfinite
    have hvalue : p = toDouble (nearestAway r / 100) :=
      Option.some.inj (hp.symm.trans (rational?_roundHundredths hr))
    have hnone : nearestAway r = 0 := by
      by_contra hsome
      rw [sub_zero, toDouble_rational? hp, hvalue] at hclose
      exact (toDouble_hundredth_le hsome).not_gt hclose
    rw [beq_iff_rational hp hq, hvalue, hnone, Int.cast_zero, zero_div, toDouble_zero]
  · intro hsame
    rcases isFinite_or_isNaN_roundHundredths x with hfinite | hnan
    · obtain ⟨p, hp⟩ := exists_rational? hfinite
      obtain rfl := (beq_iff_rational hp rational?_zero).mp hsame
      refine ⟨0, 0, hp, rational?_zero, ?_⟩
      rw [sub_zero, toDouble_zero, abs_zero]
      exact zero_lt_toDouble_hundredth
    · rw [beq_eq_false_of_isNaN hnan] at hsame
      cases hsame

end Near

end Number

namespace Point

variable {p q : Point Float}

theorem near_iff : p.near nearTolerance q ↔
    Scalar.magnitude (p.x - q.x) < nearTolerance ∧ Scalar.magnitude (p.y - q.y) < nearTolerance := by
  rw [near, Bool.and_eq_true, decide_eq_true_eq, decide_eq_true_eq]

theorem near_symm (hp : Landmark.IsRounded p) (hq : Landmark.IsRounded q)
    (h : p.near nearTolerance q) : q.near nearTolerance p := by
  obtain ⟨hx, hy⟩ := near_iff.mp h
  exact near_iff.mpr
    ⟨Number.magnitude_sub_lt_comm hp.1 hq.1 hx, Number.magnitude_sub_lt_comm hp.2 hq.2 hy⟩

theorem isFinite_of_near (h : p.near nearTolerance q) :
    (p.x.isFinite = true ∧ p.y.isFinite = true) ∧ q.x.isFinite = true ∧ q.y.isFinite = true := by
  obtain ⟨hx, hy⟩ := near_iff.mp h
  obtain ⟨hpx, hqx⟩ := Number.isFinite_of_magnitude_sub_lt hx
  obtain ⟨hpy, hqy⟩ := Number.isFinite_of_magnitude_sub_lt hy
  exact ⟨⟨hpx, hpy⟩, hqx, hqy⟩

theorem near_comm : p.near nearTolerance q ↔ q.near nearTolerance p := by
  have hsymm : ∀ {p q : Point Float}, p.near nearTolerance q → q.near nearTolerance p := by
    intro p q h
    obtain ⟨⟨hpx, hpy⟩, hqx, hqy⟩ := isFinite_of_near h
    exact near_symm ⟨Or.inl hpx, Or.inl hpy⟩ ⟨Or.inl hqx, Or.inl hqy⟩ h
  exact ⟨hsymm, hsymm⟩

end Point

end FunctionGraph
