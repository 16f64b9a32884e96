import FunctionGraph.Axis.Canvas
import FunctionGraph.Proofs.Axis.Usable
import FunctionGraph.Proofs.Number.Spacing
import FunctionGraph.Proofs.Number.Truncation

/-!
# Placing points on a canvas

Where a point falls on a canvas is found by dividing by the spans of the bounds. Ascending bounds have
spans that are not zero, and rounding does not make them zero: two doubles that differ do so by at least
the least positive double, which is a double itself. The height inside the margins is divided by as well,
but only where it has been found to be positive.
-/

namespace FunctionGraph

namespace Number

section Differences

variable {x y : Float} {p q : ℚ}

/-- Doubles that differ have a difference that is not zero. -/
theorem sub_beq_zero_eq_false (hx : x.isFinite = true) (hy : y.isFinite = true)
    (hspan : (y - x).isFinite = true) (h : x < y) : (y - x == Scalar.ofInt 0) = false := by
  obtain ⟨p, hp⟩ := exists_rational? hx
  obtain ⟨q, hq⟩ := exists_rational? hy
  have hd := rational?_sub_of_isFinite hq hp hspan
  have hpos := toDouble_sub_pos (isDouble_of_rational? hp) (isDouble_of_rational? hq)
    ((lt_iff_rational hp hq).mp h)
  rw [← Bool.not_eq_true, beq_iff_rational hd rational?_ofInt_constants.1]
  exact hpos.ne'

/-- A positive number, also an infinite one, is not zero. -/
theorem beq_zero_eq_false_of_pos (h : Scalar.ofInt 0 < x) : (x == Scalar.ofInt 0) = false := by
  cases hx : rational? x with
  | some q =>
    rw [← Bool.not_eq_true, beq_iff_rational hx rational?_ofInt_constants.1]
    exact ((lt_iff_rational rational?_ofInt_constants.1 hx).mp h).ne'
  | none =>
    rw [rational?] at hx
    change (x.toModel.unpack.compare (Scalar.ofInt 0 : Float).toModel.unpack == some .eq) = false
    cases hunpack : x.toModel.unpack with
    | notANumber => rfl
    | infinity sign => cases sign <;> decide
    | zero sign => rw [hunpack] at hx; cases hx
    | finite sign m e hm => rw [hunpack] at hx; cases hx

end Differences

end Number

/-! ### Bounds that can be drawn over -/

namespace Bounds

/-- Usable bounds whose spans are not zero, as computed. -/
structure IsPlottable (b : Bounds Float) : Prop extends IsUsable b where
  width_ne : (b.width == Scalar.ofInt 0) = false
  height_ne : (b.height == Scalar.ofInt 0) = false

section Plottable

variable {b : Bounds Float}

theorem IsUsable.isPlottable (h : b.IsUsable) : b.IsPlottable where
  toIsUsable := h
  width_ne := Number.sub_beq_zero_eq_false (h.finite .xMin) (h.finite .xMax) h.width h.xMin_lt
  height_ne := Number.sub_beq_zero_eq_false (h.finite .yMin) (h.finite .yMax) h.height h.yMin_lt

/-- The check accepts all bounds that can be drawn over, and no others. -/
theorem exists_checked_iff : (∃ c, b.checked = .ok c) ↔ b.IsPlottable := by
  constructor
  · rintro ⟨c, hc⟩
    exact (checked_eq_ok_iff.mp hc).2.isPlottable
  · intro h
    exact ⟨b, h.checked⟩

end Plottable

end Bounds

/-! ### Divisions -/

section Divisions

variable {α : Type} [Scalar α] {x y lo hi length : α}

theorem Canvas.fromLeft_of_ne (h : (hi - lo == Scalar.ofInt 0) = false) :
    fromLeft x lo hi length = .ok ((x - lo) / (hi - lo) * length) := by
  rw [fromLeft, Scalar.divide_of_ne h]
  rfl

theorem Canvas.fromTop_of_ne (h : (hi - lo == Scalar.ofInt 0) = false) :
    fromTop y lo hi length = .ok (length - (y - lo) / (hi - lo) * length) := by
  rw [fromTop, Scalar.divide_of_ne h]
  rfl

end Divisions

namespace Bounds

/-- Everything that is divided on the way to a drawing over the bounds has a quotient, on a canvas of
any size. -/
structure HasPlaces (b : Bounds Float) : Prop where
  left : ∀ x length, Canvas.fromLeft x b.xMin b.xMax length
    = .ok ((x - b.xMin) / (b.xMax - b.xMin) * length)
  top : ∀ y length, Canvas.fromTop y b.yMin b.yMax length
    = .ok (length - (y - b.yMin) / (b.yMax - b.yMin) * length)
  place : ∀ (c : Canvas Float) (p : Point Float), ∃ place, c.place b p = .ok place
  lift : ∀ c : Canvas Float, c.insideHeight > Scalar.ofInt 0 →
    Scalar.divide (Canvas.labelOffset * b.height) c.insideHeight = .ok (c.labelLift b)

theorem IsPlottable.hasPlaces {b : Bounds Float} (h : b.IsPlottable) : b.HasPlaces where
  left _ _ := Canvas.fromLeft_of_ne h.width_ne
  top _ _ := Canvas.fromTop_of_ne h.height_ne
  place c p := by
    rw [Canvas.place, Canvas.fromLeft_of_ne h.width_ne, Canvas.fromTop_of_ne h.height_ne]
    exact ⟨_, rfl⟩
  lift c hinside := by
    rw [Canvas.labelLift, if_pos hinside]
    exact Scalar.divide_of_ne (Number.beq_zero_eq_false_of_pos hinside)

end Bounds

end FunctionGraph
