import FunctionGraph.Proofs.Axis.Frame
import FunctionGraph.Proofs.Axis.InSight
import FunctionGraph.Proofs.Curve.Landmarks
import FunctionGraph.Proofs.Number.Hundredths
import FunctionGraph.Proofs.Plot.OnScreen
import FunctionGraph.Screen.Window

/-!
# Markers of landmarks

The ends of a curve are taken from the samples that are on the screen, but they are rounded to two
decimals before they are placed. So rounding may carry a landmark off the screen. The right and the lower
margin then hide its marker; the left and the upper margin do not hide anything. Where rounding moves no
bound outwards every landmark is marked.
-/

namespace FunctionGraph

open Number (rational? hair Reaches)

def Point.StandsFor (p : Point Float) (q : Point ℚ) : Prop :=
  rational? p.x = some q.x ∧ rational? p.y = some q.y

namespace Drawing

variable {c : Canvas Float} {b : Bounds Float} {p : Point Float}

theorem isMarked_iff (h : b.IsUsable) (c : Canvas Float) (p : Point Float) : isMarked c b p = true ↔
    c.margin + (p.x - b.xMin) / (b.xMax - b.xMin) * c.insideWidth ≤ c.width - c.margin ∧
      c.margin + (c.insideHeight - (p.y - b.yMin) / (b.yMax - b.yMin) * c.insideHeight)
        ≤ c.height - c.margin := by
  have hplaces := h.isPlottable.hasPlaces
  rw [isMarked, Canvas.place, hplaces.left, hplaces.top]
  change (_ && _) = true ↔ _
  rw [Bool.and_eq_true, decide_eq_true_eq, decide_eq_true_eq]

/-- A point that is no number has no marker. -/
theorem isMarked_of_isNaN (h : b.IsUsable) (hp : p.x.isNaN = true ∨ p.y.isNaN = true) :
    isMarked c b p = false := by
  rw [← Bool.not_eq_true, isMarked_iff h]
  rintro ⟨hx, hy⟩
  have hpart : ∀ {x : Float}, x.isNaN = true → ∀ lo span inside : Float,
      ((x - lo) / span * inside).isNaN = true := fun hx lo span inside =>
    Number.isNaN_mul (Number.isNaN_div (Number.isNaN_sub (Or.inl hx)) span) inside
  rcases hp with hp | hp
  · exact Number.not_isNaN_le (Number.isNaN_add (Or.inr (hpart hp _ _ _))) _ hx
  · exact Number.not_isNaN_le
      (Number.isNaN_add (Or.inr (Number.isNaN_sub (Or.inr (hpart hp _ _ _))))) _ hy

end Drawing

/-! ### Markers by place -/

namespace Window

open Drawing (isMarked)

/-- Whether the window marks a point goes by where the point is. Where the margins leave nothing of an
axis, this speaks of the points that are not before the axis only. -/
structure MarksByPlace (w : Window) (b : Bounds Float) (p : Point Float) : Prop where
  inSight : p.x ≤ b.xMax → b.yMin ≤ p.y → (80 < w.width ∨ b.xMin ≤ p.x) →
    (80 < w.height ∨ p.y ≤ b.yMax) → isMarked w.canvas b p = true
  right : 80 < w.width → ∀ e q, b.StandFor e → p.StandsFor q → e.xMax + hair e.xMin e.xMax < q.x →
    isMarked w.canvas b p = false
  below : 80 < w.height → ∀ e q, b.StandFor e → p.StandsFor q → q.y < e.yMin - hair e.yMin e.yMax →
    isMarked w.canvas b p = false
  noNumber : p.x.isNaN = true ∨ p.y.isNaN = true → isMarked w.canvas b p = false

section Place

variable {w : Window} {b : Bounds Float} {p : Point Float} {e : Bounds ℚ} {q : Point ℚ}

theorem isSide_width (h : Canvas.IsPixelCount w.width) : Canvas.IsSide w.canvas.margin
    w.canvas.insideWidth (w.canvas.width - w.canvas.margin) (w.width - 80) :=
  h.isSide

theorem isSide_height (h : Canvas.IsPixelCount w.height) : Canvas.IsSide w.canvas.margin
    w.canvas.insideHeight (w.canvas.height - w.canvas.margin) (w.height - 80) :=
  h.isSide

variable (h : b.IsUsable)

include h

theorem isMarked_of_right (hwidth : Canvas.IsPixelCount w.width) (hroom : 80 < w.width)
    (he : b.StandFor e) (hq : p.StandsFor q) (hpast : e.xMax + hair e.xMin e.xMax < q.x) :
    isMarked w.canvas b p = false := by
  have hlt := (Number.lt_iff_rational (he .xMin) (he .xMax)).mp h.xMin_lt
  have hpart := Number.reaches_part_of_past (he .xMin) (he .xMax) hq.1 hlt h.width hpast
  rw [← Bool.not_eq_true, Drawing.isMarked_iff h]
  rintro ⟨hx, -⟩
  exact (isSide_width hwidth).not_forward_le_edge (Canvas.one_le_length hroom) hpart hx

theorem isMarked_of_below (hheight : Canvas.IsPixelCount w.height) (hroom : 80 < w.height)
    (he : b.StandFor e) (hq : p.StandsFor q) (hpast : q.y < e.yMin - hair e.yMin e.yMax) :
    isMarked w.canvas b p = false := by
  have hlt := (Number.lt_iff_rational (he .yMin) (he .yMax)).mp h.yMin_lt
  have hpart := Number.reaches_part_of_before (he .yMin) (he .yMax) hq.2 hlt h.height hpast
  rw [← Bool.not_eq_true, Drawing.isMarked_iff h]
  rintro ⟨-, hy⟩
  exact (isSide_height hheight).not_backward_le_edge (Canvas.one_le_length hroom) hpart hy

variable (hwidth : Canvas.IsPixelCount w.width) (hheight : Canvas.IsPixelCount w.height)

include hwidth hheight

theorem isMarked_of_inSight (hx : p.x.isFinite = true) (hy : p.y.isFinite = true)
    (hright : p.x ≤ b.xMax) (hbelow : b.yMin ≤ p.y) (hleft : 80 < w.width ∨ b.xMin ≤ p.x)
    (habove : 80 < w.height ∨ p.y ≤ b.yMax) : isMarked w.canvas b p = true := by
  obtain ⟨e, he, hascending⟩ := h.exists_standFor
  obtain ⟨x, hx⟩ := Number.exists_rational? hx
  obtain ⟨y, hy⟩ := Number.exists_rational? hy
  have hright' := (Number.le_iff_rational hx (he .xMax)).mp hright
  have hbelow' := (Number.le_iff_rational (he .yMin) hy).mp hbelow
  have hxPart := Number.reaches_part_of_le (he .xMin) (he .xMax) hx hascending.xMin_lt h.width hright'
  have hyPart := Number.reaches_part_of_ge (he .yMin) (he .yMax) hy hascending.yMin_lt h.height hbelow'
  refine (Drawing.isMarked_iff h _ _).mpr ⟨?_, ?_⟩
  · apply (isSide_width hwidth).forward_le_edge hxPart
    refine hwidth.hasLength (hleft.imp_right fun hle => ?_)
    exact Number.isFinite_part (he .xMin) (he .xMax) hx hascending.xMin_lt h.width
      ((Number.le_iff_rational (he .xMin) hx).mp hle) hright'
  · apply (isSide_height hheight).backward_le_edge hyPart
    refine hheight.hasLength (habove.imp_right fun hle => ?_)
    exact Number.isFinite_part (he .yMin) (he .yMax) hy hascending.yMin_lt h.height hbelow'
      ((Number.le_iff_rational hy (he .yMax)).mp hle)

/-- Points inside the bounds are marked on a window of any size. -/
theorem isMarked_of_holds (hp : b.Holds p) : isMarked w.canvas b p = true :=
  isMarked_of_inSight h hwidth hheight hp.x_finite hp.y_finite hp.le_xMax hp.yMin_le
    (Or.inr hp.xMin_le) (Or.inr hp.le_yMax)

theorem marksByPlace (hp : Landmark.IsRounded p) : w.MarksByPlace b p where
  inSight hright hbelow hleft habove := by
    have hx : p.x.isFinite = true := hp.1.resolve_right fun hnan => Number.not_isNaN_le hnan _ hright
    have hy : p.y.isFinite = true := hp.2.resolve_right fun hnan => Number.not_le_of_isNaN hnan _ hbelow
    exact isMarked_of_inSight h hwidth hheight hx hy hright hbelow hleft habove
  right hroom _ _ := isMarked_of_right h hwidth hroom
  below hroom _ _ := isMarked_of_below h hheight hroom
  noNumber := Drawing.isMarked_of_isNaN h

end Place

end Window

/-! ### Landmarks -/

/-- Rounding to two decimals moves no bound outwards. -/
structure Bounds.RoundsInward (b : Bounds Float) : Prop where
  xMin_le : b.xMin ≤ Scalar.roundHundredths b.xMin
  xMax_le : Scalar.roundHundredths b.xMax ≤ b.xMax
  yMin_le : b.yMin ≤ Scalar.roundHundredths b.yMin
  yMax_le : Scalar.roundHundredths b.yMax ≤ b.yMax

theorem Bounds.RoundsInward.holds_rounded {b : Bounds Float} (hinward : b.RoundsInward)
    (h : b.IsUsable) {p : Point Float} (hp : b.Holds p) : b.Holds p.rounded := by
  obtain ⟨hx, hleft, hright⟩ := Number.roundHundredths_between (h.finite .xMin) (h.finite .xMax)
    hp.x_finite hp.xMin_le hp.le_xMax hinward.xMin_le hinward.xMax_le
  obtain ⟨hy, hbelow, habove⟩ := Number.roundHundredths_between (h.finite .yMin) (h.finite .yMax)
    hp.y_finite hp.yMin_le hp.le_yMax hinward.yMin_le hinward.yMax_le
  exact ⟨hx, hy, hleft, hright, hbelow, habove⟩

namespace Plot

section Landmarks

variable {b : Bounds Float} {entry : Entry}

theorem holds_of_zero?_eq_some (h : b.IsUsable) {zero : Point Float}
    (hzero : zero? b entry = some zero) : b.Holds zero := by
  obtain ⟨y, -, hpoint, hfinite, hinside⟩ := eq_of_zero?_eq_some hzero
  have hx : zero.x.isFinite = true := by
    rw [x_of_zero?_eq_some hzero]
    exact Number.isFinite_zero
  simp only [Landmark.isInside, Bool.and_eq_true, decide_eq_true_eq] at hinside
  obtain ⟨⟨⟨hleft, hright⟩, hbelow⟩, habove⟩ := hinside
  exact ⟨hx, hfinite, Number.le_of_lt_of_isFinite (h.finite .xMin) hx hleft,
    Number.le_of_lt_of_isFinite hx (h.finite .xMax) hright, hbelow, habove⟩

/-- The landmarks are rounded points from the screen, and the point at zero. -/
theorem mem_landmarks_cases (h : b.IsUsable) {p : Point Float} (hp : p ∈ (trace b entry).landmarks) :
    zero? b entry = some p ∨ ∃ q, b.Holds q ∧ p = q.rounded := by
  have hends : p ∈ ends b entry → ∃ q, b.Holds q ∧ p = q.rounded := by
    intro hp
    obtain ⟨-, hnone⟩ | ⟨first, hfirst, last, hlast, -, hpair⟩ := ends_cases h entry
    · rw [hnone] at hp
      exact absurd hp List.not_mem_nil
    · rw [hpair] at hp
      rcases List.mem_pair.mp (Landmark.separate_subset _ hp) with rfl | rfl
      · exact ⟨first, holds_of_mem_visiblePoints h entry hfirst, rfl⟩
      · exact ⟨last, holds_of_mem_visiblePoints h entry hlast, rfl⟩
  cases hzero : zero? b entry with
  | none =>
    rw [landmarks_of_zero?_eq_none hzero] at hp
    exact Or.inr (hends hp)
  | some zero =>
    rw [landmarks_of_zero?_eq_some hzero] at hp
    rcases Landmark.mem_insertZero hp with rfl | hmem
    · exact Or.inl rfl
    · exact Or.inr (hends hmem)

end Landmarks

end Plot

namespace Window

open Drawing (isMarked)

/-- **Markers.** Each landmark is marked by the place that it has when it is rounded: where it is neither
right of the bounds nor below them it is marked, and where it is past one of these ends by more than a
hair, or no number, it is not. So the point at zero always has its marker, and all landmarks have theirs
where rounding moves no bound outwards. -/
theorem isMarked_landmarks {w : Window} (h : w.session.bounds.IsUsable)
    (hwidth : Canvas.IsPixelCount w.width) (hheight : Canvas.IsPixelCount w.height) (entry : Entry) :
    (∀ p ∈ (Plot.trace w.session.bounds entry).landmarks, w.MarksByPlace w.session.bounds p) ∧
      (∀ zero, Plot.zero? w.session.bounds entry = some zero →
        isMarked w.canvas w.session.bounds zero = true) ∧
      (w.session.bounds.RoundsInward → ∀ p ∈ (Plot.trace w.session.bounds entry).landmarks,
        isMarked w.canvas w.session.bounds p = true) := by
  have hzeroMarked : ∀ zero, Plot.zero? w.session.bounds entry = some zero →
      isMarked w.canvas w.session.bounds zero = true := fun zero hzero =>
    isMarked_of_holds h hwidth hheight (Plot.holds_of_zero?_eq_some h hzero)
  refine ⟨fun p hp => ?_, hzeroMarked, fun hinward p hp => ?_⟩
  · exact marksByPlace h hwidth hheight (Plot.isRounded_of_mem_landmarks hp)
  · rcases Plot.mem_landmarks_cases h hp with hzero | ⟨q, hq, rfl⟩
    · exact hzeroMarked p hzero
    · exact isMarked_of_holds h hwidth hheight (hinward.holds_rounded h hq)

theorem isMarked_landmarks_initial :
    let w : Window := .blank .initial 800 600
    w.session.bounds.IsUsable ∧ Canvas.IsPixelCount w.width ∧ Canvas.IsPixelCount w.height ∧
      ∀ p ∈ (Plot.trace w.session.bounds Plot.diagonal).landmarks,
        isMarked w.canvas w.session.bounds p = true := by
  intro w
  have husable : w.session.bounds.IsUsable := Session.isUsable_initial
  have hwidth : Canvas.IsPixelCount w.width := ⟨by decide, by decide⟩
  have hheight : Canvas.IsPixelCount w.height := ⟨by decide, by decide⟩
  have hinward : w.session.bounds.RoundsInward := by
    constructor <;> decide +kernel
  exact ⟨husable, hwidth, hheight, (isMarked_landmarks husable hwidth hheight Plot.diagonal).2.2 hinward⟩

/-- Bounds whose right end two decimals move outwards. -/
def outwardBounds : Bounds Float :=
  ⟨-10, 9.996, -10, 10⟩

theorem isUsable_outwardBounds : outwardBounds.IsUsable := by
  decide +kernel

/-- The right end of the diagonal is on the screen, but it is rounded to a point that is not. -/
theorem landmarks_outwardBounds_not_marked :
    let w : Window := .blank ⟨.empty .standard, outwardBounds⟩ 800 600
    (FunctionList.empty .standard).entryOf "x" = .ok Plot.diagonal ∧ w.session.bounds.IsUsable ∧
      80 ≤ w.width ∧ 80 ≤ w.height ∧
      ⟨10, 10⟩ ∈ (Plot.trace w.session.bounds Plot.diagonal).landmarks ∧
      isMarked w.canvas w.session.bounds ⟨10, 10⟩ = false := by
  have hfirst : Grid.point (-10) 9.996 Plot.intervals 0 = -10 := by decide +kernel
  have hlast : Grid.point (-10) 9.996 Plot.intervals Plot.intervals = 9.996 := by decide +kernel
  have hends : Plot.ends outwardBounds Plot.diagonal = [⟨-10, -10⟩, ⟨10, 10⟩] := by
    rw [Plot.ends_diagonal isUsable_outwardBounds hfirst hlast (by decide +kernel) (by decide +kernel)]
    decide +kernel
  have hzero : Plot.zero? outwardBounds Plot.diagonal = some ⟨0, 0⟩ := by decide +kernel
  have hlandmarks : (Plot.trace outwardBounds Plot.diagonal).landmarks
      = [⟨-10, -10⟩, ⟨0, 0⟩, ⟨10, 10⟩] := by
    rw [Plot.landmarks_of_zero?_eq_some hzero, hends]
    rfl
  intro w
  have hmem : ⟨10, 10⟩ ∈ (Plot.trace outwardBounds Plot.diagonal).landmarks := by
    rw [hlandmarks]
    exact List.mem_cons_of_mem _ (List.mem_cons_of_mem _ List.mem_cons_self)
  exact ⟨Plot.entryOf_diagonal, isUsable_outwardBounds, by decide, by decide, hmem, by decide +kernel⟩

end Window

end FunctionGraph
