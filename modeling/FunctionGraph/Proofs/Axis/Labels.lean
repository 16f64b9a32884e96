import FunctionGraph.Proofs.Axis.Usable
import FunctionGraph.Proofs.Number.RoundTrip

/-!
# Bounds read back

What becomes of the bounds of an axis when their labels are read. Each comes back or moves to the
number next to it, so two bounds that are not too near each other still ascend, and their span stays
finite.
-/

namespace FunctionGraph

open Number (IsTiny IsPreserved ReturnsAs)

/-! ### One axis -/

namespace Axis

/-- The two bounds come back unchanged, or there is room for each to come back as its neighbour. -/
def IsRoomy (lo hi : Float) : Prop :=
  IsPreserved lo ∧ IsPreserved hi ∨ ∃ u v : Float, lo < u ∧ u < v ∧ v < hi

section Axis

variable {lo hi lo' hi' : Float}
variable (hlo : ReturnsAs lo lo') (hhi : ReturnsAs hi hi') (hlofinite : lo.isFinite = true)
  (hhifinite : hi.isFinite = true) (hlotiny : ¬IsTiny lo) (hhitiny : ¬IsTiny hi)

include hlo hhi hlofinite hhifinite hlotiny hhitiny

theorem lt_of_returnsAs (hlt : lo < hi) (hroom : IsRoomy lo hi) : lo' < hi' := by
  obtain ⟨p, hp⟩ := Number.exists_rational? hlofinite
  obtain ⟨q, hq⟩ := Number.exists_rational? hhifinite
  obtain ⟨p', hp', hsamep, hbesidep⟩ := hlo.exists_rational hp hlotiny
  obtain ⟨q', hq', hsameq, hbesideq⟩ := hhi.exists_rational hq hhitiny
  rw [Number.lt_iff_rational hp' hq']
  rcases hroom with ⟨hlosame, hhisame⟩ | ⟨u, v, hlou, huv, hvhi⟩
  · rw [hsamep hlosame, hsameq hhisame, ← Number.lt_iff_rational hp hq]
    exact hlt
  · obtain ⟨r, hr⟩ := Number.exists_rational?_of_between hlou huv
    obtain ⟨s, hs⟩ := Number.exists_rational?_of_between huv hvhi
    rw [Number.lt_iff_rational hp hr] at hlou
    rw [Number.lt_iff_rational hr hs] at huv
    rw [Number.lt_iff_rational hs hq] at hvhi
    have hp'r : p' ≤ r := not_lt.mp fun h => (hbesidep hr).1 ⟨hlou, h⟩
    have hsq' : s ≤ q' := not_lt.mp fun h => (hbesideq hs).2 ⟨h, hvhi⟩
    exact (hp'r.trans_lt huv).trans_le hsq'

theorem isFinite_span_of_returnsAs (hspan : (hi - lo).isFinite = true) :
    (hi' - lo').isFinite = true := by
  obtain ⟨p, hp⟩ := Number.exists_rational? hlofinite
  obtain ⟨q, hq⟩ := Number.exists_rational? hhifinite
  obtain ⟨p', hp', hpcases⟩ := hlo.eq_or_abs_le hp hlotiny
  obtain ⟨q', hq', hqcases⟩ := hhi.eq_or_abs_le hq hhitiny
  rw [← Number.isSome_rational?, Number.rational?_sub hq hp] at hspan
  rw [← Number.isSome_rational?, Number.rational?_sub hq' hp']
  have hsum : |q' - p'| ≤ |q'| + |p'| := abs_sub q' p'
  rcases hpcases with rfl | hpsmall
  · rcases hqcases with rfl | hqsmall
    · exact hspan
    · rw [add_comm] at hsum
      have hplarge := Number.abs_rational?_le hp'
      exact Number.isSome_withinRange_toDouble (hsum.trans (add_le_add hplarge hqsmall))
  · have hqlarge := Number.abs_rational?_le hq'
    exact Number.isSome_withinRange_toDouble (hsum.trans (add_le_add hqlarge hpsmall))

end Axis

end Axis

/-! ### The four bounds -/

namespace Bounds

def Ascends (b : Bounds Float) : Prop :=
  b.xMin < b.xMax ∧ b.yMin < b.yMax

def IsRoomy (b : Bounds Float) : Prop :=
  Axis.IsRoomy b.xMin b.xMax ∧ Axis.IsRoomy b.yMin b.yMax

/-- The numbers in the fields of the dialog. -/
def readTexts (texts : Bounds String) : Bounds Float :=
  ⟨Number.read texts.xMin.toList, Number.read texts.xMax.toList, Number.read texts.yMin.toList,
    Number.read texts.yMax.toList⟩

section Texts

variable {b c : Bounds Float}

theorem exists_toTexts (h : ∀ side, (b.side side).isFinite = true) :
    ∃ shown, b.toTexts = .ok shown ∧
      ∀ side, ReturnsAs (b.side side) ((readTexts shown).side side) := by
  obtain ⟨xMin, hxMin, hrxMin⟩ := Number.exists_label_returnsAs (h .xMin)
  obtain ⟨xMax, hxMax, hrxMax⟩ := Number.exists_label_returnsAs (h .xMax)
  obtain ⟨yMin, hyMin, hryMin⟩ := Number.exists_label_returnsAs (h .yMin)
  obtain ⟨yMax, hyMax, hryMax⟩ := Number.exists_label_returnsAs (h .yMax)
  simp only [side] at hxMin hxMax hyMin hyMax
  refine ⟨⟨xMin, xMax, yMin, yMax⟩, ?_, ?_⟩
  · rw [toTexts, hxMin, hxMax, hyMin, hyMax]
    rfl
  · rintro (_ | _ | _ | _)
    · exact hrxMin
    · exact hrxMax
    · exact hryMin
    · exact hryMax

theorem ofTexts_eq (texts : Bounds String) : ofTexts texts = (readTexts texts).checked :=
  rfl

theorem ascends_of_returnsAs (h : b.IsUsable)
    (hreturns : ∀ side, ReturnsAs (b.side side) (c.side side))
    (htiny : ∀ side, ¬IsTiny (b.side side)) (hroomy : b.IsRoomy) : c.Ascends :=
  ⟨Axis.lt_of_returnsAs (hreturns .xMin) (hreturns .xMax) (h.finite .xMin) (h.finite .xMax)
      (htiny .xMin) (htiny .xMax) h.xMin_lt hroomy.1,
    Axis.lt_of_returnsAs (hreturns .yMin) (hreturns .yMax) (h.finite .yMin) (h.finite .yMax)
      (htiny .yMin) (htiny .yMax) h.yMin_lt hroomy.2⟩

/-- What is no number does not ascend. -/
theorem Ascends.isNaN_eq_false (h : b.Ascends) (side : Side) : (b.side side).isNaN = false := by
  cases side
  · exact Number.isNaN_eq_false_of_lt_left h.1
  · exact Number.isNaN_eq_false_of_lt_right h.1
  · exact Number.isNaN_eq_false_of_lt_left h.2
  · exact Number.isNaN_eq_false_of_lt_right h.2

theorem Ascends.not_isTiny (h : c.Ascends) (hreturns : ∀ side, ReturnsAs (b.side side) (c.side side))
    (side : Side) : ¬IsTiny (b.side side) := fun htiny =>
  Bool.false_ne_true ((h.isNaN_eq_false side).symm.trans ((hreturns side).tiny htiny))

/-- Bounds that ascend when they come back can be plotted. -/
theorem Ascends.isUsable (h : c.Ascends) (husable : b.IsUsable)
    (hreturns : ∀ side, ReturnsAs (b.side side) (c.side side)) : c.IsUsable where
  finite side := (hreturns side).finite (h.not_isTiny hreturns side)
  xMin_lt := h.1
  yMin_lt := h.2
  width := Axis.isFinite_span_of_returnsAs (hreturns .xMin) (hreturns .xMax) (husable.finite .xMin)
    (husable.finite .xMax) (h.not_isTiny hreturns .xMin) (h.not_isTiny hreturns .xMax) husable.width
  height := Axis.isFinite_span_of_returnsAs (hreturns .yMin) (hreturns .yMax) (husable.finite .yMin)
    (husable.finite .yMax) (h.not_isTiny hreturns .yMin) (h.not_isTiny hreturns .yMax) husable.height

end Texts

end Bounds

end FunctionGraph
