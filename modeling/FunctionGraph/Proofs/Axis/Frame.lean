import FunctionGraph.Proofs.Axis.Placement
import Mathlib.Data.Set.Function

/-!
# The frame of a canvas

Over the exact rationals a canvas with room inside its margins shows the plane undistorted: the bounds
fill the frame that the margins leave, with the left end of the horizontal axis on the left and the upper
end of the vertical axis on top. The ends of the axes fall on the edges of the frame and places are in
the order of the points, so a point is inside the bounds just when its place is inside the frame.
-/

namespace FunctionGraph

/-- Both axes run upwards. -/
structure Bounds.IsAscending (b : Bounds ℚ) : Prop where
  xMin_lt : b.xMin < b.xMax
  yMin_lt : b.yMin < b.yMax

def Bounds.rectangle (b : Bounds ℚ) : Set (Point ℚ) :=
  {p | b.xMin ≤ p.x ∧ p.x ≤ b.xMax ∧ b.yMin ≤ p.y ∧ p.y ≤ b.yMax}

/-- The exact numbers that the bounds stand for. -/
def Bounds.StandFor (b : Bounds Float) (e : Bounds ℚ) : Prop :=
  ∀ side, Number.rational? (b.side side) = some (e.side side)

/-- Bounds that can be plotted stand for ascending ones. -/
theorem Bounds.IsUsable.exists_standFor {b : Bounds Float} (h : b.IsUsable) :
    ∃ e, b.StandFor e ∧ e.IsAscending := by
  have hexact := fun side => Number.exists_rational? (h.finite side)
  choose value hvalue using hexact
  have hx := (Number.lt_iff_rational (hvalue .xMin) (hvalue .xMax)).mp h.xMin_lt
  have hy := (Number.lt_iff_rational (hvalue .yMin) (hvalue .yMax)).mp h.yMin_lt
  refine ⟨⟨value .xMin, value .xMax, value .yMin, value .yMax⟩, fun side => ?_, hx, hy⟩
  cases side <;> exact hvalue _

namespace Canvas

/-- What the margins leave of a canvas. -/
def frame (c : Canvas ℚ) : Set (Point ℚ) :=
  {p | c.margin ≤ p.x ∧ p.x ≤ c.width - c.margin ∧ c.margin ≤ p.y ∧ p.y ≤ c.height - c.margin}

/-! ### One axis -/

/-- Which part of the axis from `lo` to `hi` is in front of `x`. -/
def share (lo hi x : ℚ) : ℚ :=
  (x - lo) / (hi - lo)

section Axis

variable {lo hi x y : ℚ}

theorem share_lo : share lo hi lo = 0 := by
  rw [share, sub_self, zero_div]

theorem share_hi (h : lo < hi) : share lo hi hi = 1 :=
  div_self (sub_pos.mpr h).ne'

theorem share_lt_share_iff (h : lo < hi) : share lo hi x < share lo hi y ↔ x < y := by
  rw [share, share, div_lt_div_iff_of_pos_right (sub_pos.mpr h), sub_lt_sub_iff_right]

theorem exists_share_eq (h : lo < hi) (s : ℚ) : ∃ x, share lo hi x = s := by
  refine ⟨lo + s * (hi - lo), ?_⟩
  rw [share, add_sub_cancel_left, mul_div_cancel_right₀ _ (sub_pos.mpr h).ne']

theorem share_add (x d : ℚ) : share lo hi (x + d) = share lo hi x + d / (hi - lo) := by
  rw [share, share, ← add_div, add_sub_right_comm]

end Axis

/-! ### Places -/

/-- Where a point falls. -/
def placed (c : Canvas ℚ) (b : Bounds ℚ) (p : Point ℚ) : Point ℚ :=
  ⟨c.margin + share b.xMin b.xMax p.x * c.insideWidth,
    c.margin + (c.insideHeight - share b.yMin b.yMax p.y * c.insideHeight)⟩

section Places

variable {c : Canvas ℚ} {b : Bounds ℚ} {p q : Point ℚ}

theorem margin_add_insideWidth (c : Canvas ℚ) : c.margin + c.insideWidth = c.width - c.margin := by
  change c.margin + (c.width - c.margin * ((2 : ℤ) : ℚ)) = _
  push_cast
  ring

theorem margin_add_insideHeight (c : Canvas ℚ) : c.margin + c.insideHeight = c.height - c.margin := by
  change c.margin + (c.height - c.margin * ((2 : ℤ) : ℚ)) = _
  push_cast
  ring

theorem placed_xMin (c : Canvas ℚ) (b : Bounds ℚ) (y : ℚ) :
    (c.placed b ⟨b.xMin, y⟩).x = c.margin := by
  rw [placed, share_lo, zero_mul, add_zero]

theorem placed_yMin (c : Canvas ℚ) (b : Bounds ℚ) (x : ℚ) :
    (c.placed b ⟨x, b.yMin⟩).y = c.height - c.margin := by
  rw [placed, share_lo, zero_mul, sub_zero, margin_add_insideHeight]

variable (h : b.IsAscending)

include h

theorem placed_xMax (c : Canvas ℚ) (y : ℚ) : (c.placed b ⟨b.xMax, y⟩).x = c.width - c.margin := by
  rw [placed, share_hi h.xMin_lt, one_mul, margin_add_insideWidth]

theorem placed_yMax (c : Canvas ℚ) (x : ℚ) : (c.placed b ⟨x, b.yMax⟩).y = c.margin := by
  rw [placed, share_hi h.yMin_lt, one_mul, sub_self, add_zero]

theorem place_eq_placed (c : Canvas ℚ) (p : Point ℚ) : c.place b p = .ok (c.placed b p) := by
  have hspan : ∀ {lo hi : ℚ}, lo < hi → (hi - lo == Scalar.ofInt 0) = false := fun hlt =>
    beq_eq_false_iff_ne.mpr (sub_pos.mpr hlt).ne'
  rw [place, fromLeft_of_ne (hspan h.xMin_lt), fromTop_of_ne (hspan h.yMin_lt)]
  rfl

section Width

variable (hwidth : 0 < c.insideWidth)

include hwidth

theorem placed_x_lt_iff : (c.placed b p).x < (c.placed b q).x ↔ p.x < q.x := by
  rw [placed, placed, add_lt_add_iff_left, mul_lt_mul_iff_left₀ hwidth, share_lt_share_iff h.xMin_lt]

theorem placed_x_le_iff : (c.placed b p).x ≤ (c.placed b q).x ↔ p.x ≤ q.x := by
  rw [← not_lt, placed_x_lt_iff h hwidth, not_lt]

theorem margin_le_placed_x_iff : c.margin ≤ (c.placed b p).x ↔ b.xMin ≤ p.x := by
  have hedge := placed_x_le_iff h hwidth (p := ⟨b.xMin, p.y⟩) (q := p)
  rwa [placed_xMin] at hedge

theorem placed_x_le_margin_iff : (c.placed b p).x ≤ c.width - c.margin ↔ p.x ≤ b.xMax := by
  have hedge := placed_x_le_iff h hwidth (p := p) (q := ⟨b.xMax, p.y⟩)
  rwa [placed_xMax h] at hedge

end Width

/-! The vertical axis points down. -/

section Height

variable (hheight : 0 < c.insideHeight)

include hheight

theorem placed_y_lt_iff : (c.placed b p).y < (c.placed b q).y ↔ q.y < p.y := by
  rw [placed, placed, add_lt_add_iff_left, sub_lt_sub_iff_left, mul_lt_mul_iff_left₀ hheight,
    share_lt_share_iff h.yMin_lt]

theorem placed_y_le_iff : (c.placed b p).y ≤ (c.placed b q).y ↔ q.y ≤ p.y := by
  rw [← not_lt, placed_y_lt_iff h hheight, not_lt]

theorem margin_le_placed_y_iff : c.margin ≤ (c.placed b p).y ↔ p.y ≤ b.yMax := by
  have hedge := placed_y_le_iff h hheight (p := ⟨p.x, b.yMax⟩) (q := p)
  rwa [placed_yMax h] at hedge

theorem placed_y_le_margin_iff : (c.placed b p).y ≤ c.height - c.margin ↔ b.yMin ≤ p.y := by
  have hedge := placed_y_le_iff h hheight (p := p) (q := ⟨p.x, b.yMin⟩)
  rwa [placed_yMin] at hedge

/-- The label of a marker is above it by as many pixels as it should be. -/
theorem placed_lift (p : Point ℚ) : c.placed b ⟨p.x, p.y + c.labelLift b⟩
    = ⟨(c.placed b p).x, (c.placed b p).y - labelOffset⟩ := by
  have hspan : b.yMax - b.yMin ≠ 0 := (sub_pos.mpr h.yMin_lt).ne'
  have hlift : c.labelLift b = labelOffset * (b.yMax - b.yMin) / c.insideHeight := if_pos hheight
  have hpixels : labelOffset * (b.yMax - b.yMin) / c.insideHeight / (b.yMax - b.yMin) * c.insideHeight
      = labelOffset := by
    field_simp
  rw [placed, placed, hlift, share_add, add_mul, hpixels]
  congr 1
  ring

end Height

section Frame

variable (hwidth : 0 < c.insideWidth) (hheight : 0 < c.insideHeight)

include hwidth hheight

theorem placed_mem_frame_iff : c.placed b p ∈ c.frame ↔ p ∈ b.rectangle := by
  rw [frame, Set.mem_ofPred_eq, margin_le_placed_x_iff h hwidth, placed_x_le_margin_iff h hwidth,
    margin_le_placed_y_iff h hheight, placed_y_le_margin_iff h hheight, and_comm (a := p.y ≤ b.yMax)]
  rfl

theorem shows_placed_iff : c.shows (c.placed b p) = true ↔ p.x ≤ b.xMax ∧ b.yMin ≤ p.y := by
  rw [← placed_x_le_margin_iff h hwidth, ← placed_y_le_margin_iff h hheight, shows, Bool.and_eq_true,
    decide_eq_true_eq, decide_eq_true_eq]

theorem placed_injective : Function.Injective (c.placed b) := by
  intro p q hpq
  have hx : p.x = q.x := by
    apply le_antisymm
    · exact (placed_x_le_iff h hwidth).mp (congrArg Point.x hpq).le
    · exact (placed_x_le_iff h hwidth).mp (congrArg Point.x hpq).ge
  have hy : p.y = q.y := by
    apply le_antisymm
    · exact (placed_y_le_iff h hheight).mp (congrArg Point.y hpq).ge
    · exact (placed_y_le_iff h hheight).mp (congrArg Point.y hpq).le
  cases p
  cases q
  exact congrArg₂ Point.mk hx hy

theorem placed_surjective : Function.Surjective (c.placed b) := by
  intro q
  obtain ⟨x, hx⟩ := exists_share_eq h.xMin_lt ((q.x - c.margin) / c.insideWidth)
  obtain ⟨y, hy⟩ := exists_share_eq h.yMin_lt (1 - (q.y - c.margin) / c.insideHeight)
  refine ⟨⟨x, y⟩, ?_⟩
  rw [placed, hx, hy, sub_mul, div_mul_cancel₀ _ hwidth.ne', div_mul_cancel₀ _ hheight.ne', one_mul,
    sub_sub_cancel, add_sub_cancel, add_sub_cancel]

theorem placed_bijOn : Set.BijOn (c.placed b) b.rectangle c.frame := by
  refine ⟨fun p hp => (placed_mem_frame_iff h hwidth hheight).mpr hp,
    (placed_injective h hwidth hheight).injOn, fun q hq => ?_⟩
  obtain ⟨p, rfl⟩ := placed_surjective h hwidth hheight q
  exact ⟨p, (placed_mem_frame_iff h hwidth hheight).mp hq, rfl⟩

end Frame

end Places

/-! ### The whole of it -/

/-- `f` gives each point its place, and lays the bounds over the frame as they are. -/
structure LaysOver (c : Canvas ℚ) (b : Bounds ℚ) (f : Point ℚ → Point ℚ) : Prop where
  place_eq : ∀ p, c.place b p = .ok (f p)
  bijOn : Set.BijOn f b.rectangle c.frame
  left : ∀ y, (f ⟨b.xMin, y⟩).x = c.margin
  right : ∀ y, (f ⟨b.xMax, y⟩).x = c.width - c.margin
  top : ∀ x, (f ⟨x, b.yMax⟩).y = c.margin
  bottom : ∀ x, (f ⟨x, b.yMin⟩).y = c.height - c.margin
  x_lt_iff : ∀ p q, (f p).x < (f q).x ↔ p.x < q.x
  y_lt_iff : ∀ p q, (f p).y < (f q).y ↔ q.y < p.y
  shows_iff : ∀ p, c.shows (f p) = true ↔ p.x ≤ b.xMax ∧ b.yMin ≤ p.y
  shows_inside : ∀ p ∈ b.rectangle, c.shows (f p) = true
  lift : ∀ p, f ⟨p.x, p.y + c.labelLift b⟩ = ⟨(f p).x, (f p).y - 15⟩

/-- **The frame.** A canvas with room inside its margins lays ascending bounds over its frame, one to one
and upright. It shows the points that are neither right of the bounds nor below them, and a label stands
fifteen pixels above its marker. -/
theorem exists_laysOver {c : Canvas ℚ} {b : Bounds ℚ} (h : b.IsAscending) (hwidth : 0 < c.insideWidth)
    (hheight : 0 < c.insideHeight) : ∃ f, LaysOver c b f := by
  have hshows : ∀ p, c.shows (c.placed b p) = true ↔ p.x ≤ b.xMax ∧ b.yMin ≤ p.y := fun p =>
    shows_placed_iff h hwidth hheight
  refine ⟨c.placed b, ?_⟩
  exact
    { place_eq := place_eq_placed h c
      bijOn := placed_bijOn h hwidth hheight
      left := placed_xMin c b
      right := placed_xMax h c
      top := placed_yMax h c
      bottom := placed_yMin c b
      x_lt_iff := fun p q => placed_x_lt_iff h hwidth
      y_lt_iff := fun p q => placed_y_lt_iff h hheight
      shows_iff := hshows
      shows_inside := fun p hp => (hshows p).mpr ⟨hp.2.1, hp.2.2.1⟩
      lift := placed_lift h hheight }

/-- The bounds that a session begins with, on a canvas of 800 by 600 pixels. -/
theorem exists_laysOver_initial :
    let c : Canvas ℚ := ⟨800, 600, standardMargin⟩
    let e : Bounds ℚ := ⟨-10, 10, -10, 10⟩
    Bounds.initial.StandFor e ∧ e.IsAscending ∧ 0 < c.insideWidth ∧ 0 < c.insideHeight ∧
      ∃ f, LaysOver c e f ∧ f ⟨5, -5⟩ = ⟨580, 430⟩ := by
  intro c e
  have hstand : Bounds.initial.StandFor e := by
    intro side
    cases side <;> decide +kernel
  have hascending : e.IsAscending := ⟨by decide +kernel, by decide +kernel⟩
  have hwidth : 0 < c.insideWidth := by decide +kernel
  have hheight : 0 < c.insideHeight := by decide +kernel
  obtain ⟨f, hf⟩ := exists_laysOver hascending hwidth hheight
  have hplace : c.place e ⟨5, -5⟩ = .ok ⟨580, 430⟩ := by decide +kernel
  rw [hf.place_eq, Except.ok.injEq] at hplace
  exact ⟨hstand, hascending, hwidth, hheight, f, hf, hplace⟩

end Canvas

end FunctionGraph
