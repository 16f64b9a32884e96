import FunctionGraph.Proofs.Number.Hundredths
import FunctionGraph.Proofs.Plot.OnScreen

/-!
# Landmarks from left to right

The ends of a curve keep their order when they are rounded. The point at zero stands between two ends and
behind fewer, by its place in the list and not by its coordinate, so a single end to the right of zero
has zero behind it. A curve that is seen on both sides of zero has all its landmarks in order, whether
or not zero is a point of the grid.
-/

namespace FunctionGraph

/-- No point stands to the left of one before it. -/
def IsLeftToRight (points : List (Point Float)) : Prop :=
  points.Pairwise fun p q => ¬q.x < p.x

theorem isLeftToRight_between_iff {p zero q : Point Float} (h : IsLeftToRight [p, q]) :
    IsLeftToRight [p, zero, q] ↔ ¬zero.x < p.x ∧ ¬q.x < zero.x := by
  rw [IsLeftToRight, List.pairwise_cons, List.pairwise_pair, List.forall_mem_cons,
    List.forall_mem_singleton, and_iff_left (List.pairwise_pair.mp h)]

namespace Plot

/-- How the landmarks of a curve are ordered. -/
structure HasOrderedLandmarks (b : Bounds Float) (entry : Entry) : Prop where
  ends_order : IsLeftToRight (ends b entry)
  ends_length : (ends b entry).length ≤ 2
  zero_x : ∀ zero ∈ zero? b entry, zero.x = 0
  without : zero? b entry = none → (trace b entry).landmarks = ends b entry
  alone : ∀ zero ∈ zero? b entry, ends b entry = [] → (trace b entry).landmarks = [zero]
  behind : ∀ zero ∈ zero? b entry, ∀ p, ends b entry = [p] →
    (trace b entry).landmarks = [p, zero] ∧ (IsLeftToRight (trace b entry).landmarks ↔ ¬0 < p.x)
  between : ∀ zero ∈ zero? b entry, ∀ p q, ends b entry = [p, q] →
    (trace b entry).landmarks = [p, zero, q] ∧
      (IsLeftToRight (trace b entry).landmarks ↔ ¬0 < p.x ∧ ¬q.x < 0)
  onBothSides : (∃ p ∈ visiblePoints b entry, p.x ≤ 0) → (∃ p ∈ visiblePoints b entry, 0 ≤ p.x) →
    IsLeftToRight (trace b entry).landmarks

section Order

variable {b : Bounds Float} (h : b.IsUsable)

include h

/-- At most two ends, which come from two visible points that no other stands outside of. -/
theorem ends_forms (entry : Entry) :
    visiblePoints b entry = [] ∧ ends b entry = [] ∨
      ∃ first ∈ visiblePoints b entry, ∃ last ∈ visiblePoints b entry,
        (∀ p ∈ visiblePoints b entry, first.x ≤ p.x ∧ p.x ≤ last.x) ∧
        (ends b entry = [first.rounded] ∨ ends b entry = [first.rounded, last.rounded]) := by
  rcases ends_cases h entry with hnone | ⟨first, hfirst, last, hlast, houter, hends⟩
  · exact Or.inl hnone
  · refine Or.inr ⟨first, hfirst, last, hlast, houter, ?_⟩
    rw [hends, Landmark.separate_pair]
    split
    · exact Or.inl rfl
    · exact Or.inr rfl

theorem ends_leftToRight (entry : Entry) :
    IsLeftToRight (ends b entry) ∧ (ends b entry).length ≤ 2 := by
  rcases ends_forms h entry with ⟨-, hends⟩ | ⟨first, hfirst, last, hlast, houter, hends | hends⟩ <;>
    rw [hends]
  · exact ⟨List.Pairwise.nil, Nat.zero_le 2⟩
  · exact ⟨List.pairwise_singleton _ _, one_le_two⟩
  · have hfinite := fun {p} hp => (holds_of_mem_visiblePoints (p := p) h entry hp).x_finite
    exact ⟨List.pairwise_pair.mpr (Number.not_roundHundredths_lt (hfinite hfirst) (hfinite hlast)
      (houter first hfirst).2), le_rfl⟩

/-- Zero is between the outermost visible points, so it is between the ends. -/
theorem landmarks_leftToRight_of_onBothSides (entry : Entry)
    (hleft : ∃ p ∈ visiblePoints b entry, p.x ≤ 0) (hright : ∃ p ∈ visiblePoints b entry, 0 ≤ p.x) :
    IsLeftToRight (trace b entry).landmarks := by
  obtain ⟨hordered, -⟩ := ends_leftToRight h entry
  cases hzero : zero? b entry with
  | none => rwa [landmarks_of_zero?_eq_none hzero]
  | some zero =>
    obtain ⟨p, hp, hple⟩ := hleft
    obtain ⟨q, hq, hleq⟩ := hright
    have hfinite := fun {p} hp => (holds_of_mem_visiblePoints (p := p) h entry hp).x_finite
    rw [landmarks_of_zero?_eq_some hzero]
    rcases ends_forms h entry with ⟨hnone, -⟩ | ⟨first, hfirst, last, hlast, houter, hends⟩
    · rw [hnone] at hp
      exact absurd hp List.not_mem_nil
    have hfirst0 : ¬zero.x < first.rounded.x := by
      rw [x_of_zero?_eq_some hzero]
      exact Number.not_zero_lt_roundHundredths (hfinite hfirst) (Number.le_trans_of_isFinite
        (hfinite hfirst) (hfinite hp) Number.isFinite_zero (houter p hp).1 hple)
    have hlast0 : ¬last.rounded.x < zero.x := by
      rw [x_of_zero?_eq_some hzero]
      exact Number.not_roundHundredths_lt_zero (hfinite hlast) (Number.le_trans_of_isFinite
        Number.isFinite_zero (hfinite hq) (hfinite hlast) hleq (houter q hq).2)
    rcases hends with hends | hends <;> rw [hends] at hordered ⊢
    · exact List.pairwise_pair.mpr hfirst0
    · exact (isLeftToRight_between_iff hordered).mpr ⟨hfirst0, hlast0⟩

/-- The ends are ordered, and so are all landmarks when the curve is seen on both sides of zero. A single
end to the right of zero keeps the point at zero behind it. -/
theorem landmarks_leftToRight (entry : Entry) : HasOrderedLandmarks b entry where
  ends_order := (ends_leftToRight h entry).1
  ends_length := (ends_leftToRight h entry).2
  zero_x zero hzero := x_of_zero?_eq_some hzero
  without hzero := landmarks_of_zero?_eq_none hzero
  alone zero hzero hends := by
    rw [landmarks_of_zero?_eq_some hzero, hends]
    rfl
  behind zero hzero p hends := by
    have hlandmarks : (trace b entry).landmarks = [p, zero] := by
      rw [landmarks_of_zero?_eq_some hzero, hends]
      rfl
    refine ⟨hlandmarks, ?_⟩
    rw [hlandmarks, IsLeftToRight, List.pairwise_pair, x_of_zero?_eq_some hzero]
  between zero hzero p q hends := by
    have hlandmarks : (trace b entry).landmarks = [p, zero, q] := by
      rw [landmarks_of_zero?_eq_some hzero, hends]
      rfl
    have hordered : IsLeftToRight [p, q] := hends ▸ (ends_leftToRight h entry).1
    refine ⟨hlandmarks, ?_⟩
    rw [hlandmarks, isLeftToRight_between_iff hordered, x_of_zero?_eq_some hzero]
  onBothSides := landmarks_leftToRight_of_onBothSides h entry

end Order

theorem landmarks_leftToRight_initial :
    Bounds.initial.IsUsable ∧ HasOrderedLandmarks Bounds.initial diagonal :=
  ⟨Session.isUsable_initial, landmarks_leftToRight Session.isUsable_initial diagonal⟩

/-- Bounds on which the diagonal is too low everywhere but at its right end. -/
def cornerBounds : Bounds Float :=
  ⟨-2000, 2, 0, 2⟩

theorem isUsable_cornerBounds : cornerBounds.IsUsable := by
  decide +kernel

theorem visiblePoints_cornerBounds : visiblePoints cornerBounds diagonal = [⟨2, 2⟩] := by
  have hlast : Grid.point cornerBounds.xMin cornerBounds.xMax intervals intervals = 2 := by
    decide +kernel
  have hnext : ¬cornerBounds.yMin ≤ Grid.point cornerBounds.xMin cornerBounds.xMax intervals 799 := by
    decide +kernel
  -- The grid ascends, so with its last point but one all points before are too low.
  have hlow : ∀ i < intervals,
      ¬cornerBounds.yMin ≤ Grid.point cornerBounds.xMin cornerBounds.xMax intervals i := by
    intro i hi hvisible
    have hgrid : ∀ j ≤ intervals,
        (Grid.point cornerBounds.xMin cornerBounds.xMax intervals j).isFinite = true := fun j hj =>
      ((grid_spec isUsable_cornerBounds).2 _ (List.mem_map_of_mem
        (List.mem_range.mpr (Nat.lt_succ_of_le hj)))).1
    exact hnext (Number.le_trans_of_isFinite (isUsable_cornerBounds.finite .yMin)
      (hgrid i hi.le) (hgrid 799 (by decide)) hvisible
      (grid_point_le isUsable_cornerBounds (Nat.le_pred_of_lt hi) (by decide)))
  rw [visiblePoints_diagonal isUsable_cornerBounds, Grid.points, List.range_succ, List.map_append,
    List.filter_append, List.filter_eq_nil_iff.mpr]
  · rw [List.map_singleton, hlast]
    decide +kernel
  · intro x hx
    obtain ⟨i, hi, rfl⟩ := List.mem_map.mp hx
    simp [hlow i (List.mem_range.mp hi)]

theorem ends_cornerBounds : ends cornerBounds diagonal = [⟨2, 2⟩] := by
  have hends : ends cornerBounds diagonal
      = Landmark.separate [Point.rounded ⟨2, 2⟩, Point.rounded ⟨2, 2⟩] :=
    Landmark.ends_of_visible (congrArg List.head? visiblePoints_cornerBounds)
      (congrArg List.getLast? visiblePoints_cornerBounds)
  rw [hends]
  decide +kernel

/-- The end of a curve that is seen only to the right of zero stands in front of the point at zero. -/
theorem landmarks_cornerBounds_not_leftToRight :
    (FunctionList.empty .standard).entryOf "x" = .ok diagonal ∧ cornerBounds.IsUsable ∧
      (trace cornerBounds diagonal).landmarks = [⟨2, 2⟩, ⟨0, 0⟩] ∧
      ¬IsLeftToRight (trace cornerBounds diagonal).landmarks := by
  have hzero : zero? cornerBounds diagonal = some ⟨0, 0⟩ := by decide +kernel
  have hlandmarks : (trace cornerBounds diagonal).landmarks = [⟨2, 2⟩, ⟨0, 0⟩] := by
    rw [landmarks_of_zero?_eq_some hzero, ends_cornerBounds]
    rfl
  refine ⟨entryOf_diagonal, isUsable_cornerBounds, hlandmarks, ?_⟩
  rw [hlandmarks, IsLeftToRight, List.pairwise_pair]
  decide +kernel

end Plot

end FunctionGraph
