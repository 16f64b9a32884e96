import FunctionGraph.Plot.Pass
import FunctionGraph.Proofs.Axis.Usable
import FunctionGraph.Proofs.Curve.VisibleEnds
import FunctionGraph.Proofs.Curve.WideGrid

/-!
# What of a curve is on the screen

On bounds that can be plotted the visible points of a curve are finite, lie within the bounds and are
ordered from left to right. The landmarks are the ends of these points and, where it is inside the plot,
the point at zero.
-/

namespace FunctionGraph

/-- The point is finite and within the bounds. -/
structure Bounds.Holds (b : Bounds Float) (p : Point Float) : Prop where
  x_finite : p.x.isFinite = true
  y_finite : p.y.isFinite = true
  xMin_le : b.xMin ≤ p.x
  le_xMax : p.x ≤ b.xMax
  yMin_le : b.yMin ≤ p.y
  le_yMax : p.y ≤ b.yMax

namespace Plot

def visiblePoints (b : Bounds Float) (entry : Entry) : List (Point Float) :=
  Sample.visiblePoints b.yMin b.yMax (trace b entry).samples

def ends (b : Bounds Float) (entry : Entry) : List (Point Float) :=
  Landmark.ends b.yMin b.yMax (trace b entry).samples

/-- The point of the curve at zero, when it is inside the plot. -/
def zero? (b : Bounds Float) (entry : Entry) : Option (Point Float) :=
  (Landmark.atZero (outcome entry.formula 0)).filter fun zero =>
    zero.y.isFinite && Landmark.isInside b zero

section Landmarks

variable {b : Bounds Float} {entry : Entry} {zero : Point Float}

theorem samples_trace : (trace b entry).samples
    = Sample.along (outcome entry.formula) (Grid.points b.xMin b.xMax intervals) := by
  rw [trace]

theorem landmarks_trace : (trace b entry).landmarks
    = Landmark.withZero b (ends b entry) (Landmark.atZero (outcome entry.formula 0)) := by
  rw [ends, samples_trace, trace]

theorem landmarks_of_zero?_eq_none (h : zero? b entry = none) :
    (trace b entry).landmarks = ends b entry := by
  rw [zero?] at h
  rw [landmarks_trace]
  cases hzero : Landmark.atZero (outcome entry.formula 0) with
  | none => rw [Landmark.withZero]
  | some zero =>
    rw [hzero, Option.filter_eq_none_iff] at h
    rw [Landmark.withZero, if_neg (h zero rfl)]

theorem landmarks_of_zero?_eq_some (h : zero? b entry = some zero) :
    (trace b entry).landmarks = Landmark.insertZero zero (ends b entry) := by
  obtain ⟨hzero, hinside⟩ := Option.filter_eq_some_iff.mp h
  rw [landmarks_trace, hzero, Landmark.withZero, if_pos hinside]

/-- The point at zero has two decimals of the value there. -/
theorem eq_of_zero?_eq_some (h : zero? b entry = some zero) :
    ∃ y, outcome entry.formula 0 = some y ∧ zero = ⟨0, Scalar.roundHundredths y⟩
      ∧ zero.y.isFinite = true ∧ Landmark.isInside b zero = true := by
  obtain ⟨hzero, hinside⟩ := Option.filter_eq_some_iff.mp h
  obtain ⟨hfinite, hinside⟩ := Bool.and_eq_true_iff.mp hinside
  cases hvalue : outcome entry.formula 0 with
  | none =>
    rw [hvalue] at hzero
    cases hzero
  | some y =>
    rw [hvalue, Landmark.atZero, Option.ite_none_right_eq_some, Option.some.injEq] at hzero
    exact ⟨y, rfl, hzero.2.symm, hfinite, hinside⟩

theorem x_of_zero?_eq_some (h : zero? b entry = some zero) : zero.x = 0 := by
  obtain ⟨y, -, rfl, -, -⟩ := eq_of_zero?_eq_some h
  rfl

end Landmarks

section Usable

variable {b : Bounds Float} (h : b.IsUsable) (entry : Entry)

include h

theorem exists_domain :
    ∃ p q, Number.rational? b.xMin = some p ∧ Number.rational? b.xMax = some q ∧ p ≤ q := by
  obtain ⟨p, hp⟩ := Number.exists_rational? (h.finite .xMin)
  obtain ⟨q, hq⟩ := Number.exists_rational? (h.finite .xMax)
  exact ⟨p, q, hp, hq, ((Number.lt_iff_rational hp hq).mp h.xMin_lt).le⟩

theorem grid_point_le {i j : ℕ} (hij : i ≤ j) (hj : j ≤ intervals) :
    Grid.point b.xMin b.xMax intervals i ≤ Grid.point b.xMin b.xMax intervals j := by
  obtain ⟨p, q, hp, hq, hpq⟩ := exists_domain h
  exact Grid.point_le_point hp hq (by decide) (by decide) hpq hij hj

theorem grid_spec :
    (Grid.points b.xMin b.xMax intervals).Pairwise (· ≤ ·) ∧
      ∀ x ∈ Grid.points b.xMin b.xMax intervals, x.isFinite = true ∧ b.xMin ≤ x ∧ x ≤ b.xMax := by
  obtain ⟨p, q, hp, hq, hpq⟩ := exists_domain h
  refine ⟨Grid.pairwise_points hp hq (by decide) (by decide) hpq, fun x hx => ?_⟩
  obtain ⟨r, hr, hpr, hrq⟩ :=
    Grid.exists_rational?_of_mem_points hp hq (by decide) (by decide) hpq hx
  exact ⟨Number.isFinite_of_rational? hr, (Number.le_iff_rational hp hr).mpr hpr,
    (Number.le_iff_rational hr hq).mpr hrq⟩

theorem pairwise_visiblePoints : (visiblePoints b entry).Pairwise fun p q => p.x ≤ q.x := by
  obtain ⟨hordered, hgrid⟩ := grid_spec h
  rw [visiblePoints, samples_trace]
  refine Sample.pairwise_visiblePoints_along hordered (fun x hx => ?_) b.yMin b.yMax
  obtain ⟨r, hr⟩ := Number.exists_rational? (hgrid x hx).1
  exact (Number.le_iff_rational hr hr).mpr le_rfl

theorem holds_of_mem_visiblePoints {p : Point Float} (hp : p ∈ visiblePoints b entry) : b.Holds p := by
  rw [visiblePoints, samples_trace] at hp
  obtain ⟨hx, -, hy, hlo, hhi⟩ := Sample.mem_visiblePoints_along hp
  obtain ⟨hfinite, hmin, hmax⟩ := (grid_spec h).2 _ hx
  exact ⟨hfinite, hy, hmin, hmax, hlo, hhi⟩

theorem x_le_self {p : Point Float} (hp : p ∈ visiblePoints b entry) : p.x ≤ p.x := by
  obtain ⟨r, hr⟩ := Number.exists_rational? (holds_of_mem_visiblePoints h entry hp).x_finite
  exact (Number.le_iff_rational hr hr).mpr le_rfl

/-- The ends come from the leftmost and the rightmost visible point. -/
theorem ends_cases :
    visiblePoints b entry = [] ∧ ends b entry = [] ∨
      ∃ first ∈ visiblePoints b entry, ∃ last ∈ visiblePoints b entry,
        (∀ p ∈ visiblePoints b entry, first.x ≤ p.x ∧ p.x ≤ last.x) ∧
        ends b entry = Landmark.separate [first.rounded, last.rounded] := by
  rcases Landmark.ends_cases b.yMin b.yMax (trace b entry).samples with
    hnone | ⟨first, last, hfirst, hlast, hends⟩
  · exact Or.inl hnone
  change (visiblePoints b entry).head? = some first at hfirst
  change (visiblePoints b entry).getLast? = some last at hlast
  have hordered := pairwise_visiblePoints h entry
  obtain ⟨rest, hrest⟩ := List.head?_eq_some_iff.mp hfirst
  obtain ⟨init, hinit⟩ := List.getLast?_eq_some_iff.mp hlast
  refine Or.inr ⟨first, List.mem_of_mem_head? hfirst, last, List.mem_of_mem_getLast? hlast,
    fun p hp => ⟨?_, ?_⟩, hends⟩
  · rcases List.mem_cons.mp (hrest ▸ hp) with rfl | hmem
    · exact x_le_self h entry hp
    · rw [hrest] at hordered
      exact List.rel_of_pairwise_cons hordered hmem
  · rcases List.mem_append.mp (hinit ▸ hp) with hmem | hmem
    · rw [hinit] at hordered
      exact (List.pairwise_append.mp hordered).2.2 p hmem last (List.mem_singleton_self last)
    · rw [List.mem_singleton.mp hmem]
      exact x_le_self h entry (List.mem_of_mem_getLast? hlast)

end Usable

/-! ### The diagonal -/

section Diagonal

/-- The function `x`. -/
def diagonal : Entry where
  expression := "x"
  formula := ⟨['x'], ⟨[], .ok .variable⟩⟩
  color := "#e74c3c"
  enabled := true

theorem entryOf_diagonal : (FunctionList.empty .standard).entryOf "x" = .ok diagonal := by
  cbv

theorem outcome_diagonal (x : Float) : outcome diagonal.formula x = some x := by
  rfl

variable {b : Bounds Float} (h : b.IsUsable)

include h

theorem visiblePoints_diagonal :
    visiblePoints b diagonal
      = ((Grid.points b.xMin b.xMax intervals).filter fun x => b.yMin ≤ x && x ≤ b.yMax).map
          fun x => ⟨x, x⟩ := by
  rw [visiblePoints, samples_trace]
  exact Sample.visiblePoints_along_of_finite (fun x _ => outcome_diagonal x)
    (fun x hx => ((grid_spec h).2 x hx).1) b.yMin b.yMax

/-- A diagonal that is on the screen at both ends of the domain ends there. -/
theorem ends_diagonal {first last : Float} (hfirst : Grid.point b.xMin b.xMax intervals 0 = first)
    (hlast : Grid.point b.xMin b.xMax intervals intervals = last)
    (hfirstVisible : b.yMin ≤ first ∧ first ≤ b.yMax) (hlastVisible : b.yMin ≤ last ∧ last ≤ b.yMax) :
    ends b diagonal
      = Landmark.separate [Point.rounded ⟨first, first⟩, Point.rounded ⟨last, last⟩] := by
  refine Landmark.ends_of_visible ?_ ?_
  · change (visiblePoints b diagonal).head? = _
    rw [visiblePoints_diagonal h, Grid.points, List.range_succ_eq_map, List.map_cons, hfirst,
      List.filter_cons_of_pos (by simpa using hfirstVisible)]
    rfl
  · change (visiblePoints b diagonal).getLast? = _
    rw [visiblePoints_diagonal h, Grid.points, List.range_succ, List.map_append, List.map_singleton,
      hlast, List.filter_append, List.filter_cons_of_pos (by simpa using hlastVisible)]
    simp

end Diagonal

end Plot

end FunctionGraph
