import FunctionGraph.Proofs.Curve.Separated
import FunctionGraph.Proofs.Plot.OnScreen

/-!
# Landmarks that can be told apart

The ends of a curve are kept apart by the tolerance of points. The point at zero is added behind that
check, so it may repeat an end: exactly an end that two decimals put at zero, at nearly the same height.
-/

namespace FunctionGraph

namespace Landmark

theorem areSeparated_ends (lo hi : Float) (samples : List Sample) :
    AreSeparated (ends lo hi samples) := by
  rcases ends_cases lo hi samples with ⟨-, hends⟩ | ⟨first, last, -, -, hends⟩ <;> rw [hends]
  · exact List.Pairwise.nil
  · exact areSeparated_separate [first.rounded, last.rounded]

theorem exists_rounded_of_mem_ends {lo hi : Float} {samples : List Sample} {p : Point Float}
    (h : p ∈ ends lo hi samples) : ∃ q : Point Float, p = q.rounded := by
  rcases ends_cases lo hi samples with ⟨-, hends⟩ | ⟨first, last, -, -, hends⟩ <;> rw [hends] at h
  · exact absurd h List.not_mem_nil
  · rcases List.mem_pair.mp (separate_subset _ h) with rfl | rfl
    · exact ⟨first, rfl⟩
    · exact ⟨last, rfl⟩

theorem areSeparated_insertZero_iff {zero : Point Float} {points : List (Point Float)}
    (h : AreSeparated points) : AreSeparated (insertZero zero points) ↔
      ∀ p ∈ points, ¬zero.near Point.nearTolerance p ∧ ¬p.near Point.nearTolerance zero := by
  rw [AreSeparated, (insertZero_perm zero points).pairwise_iff And.symm, List.pairwise_cons]
  exact and_iff_left h

end Landmark

namespace Plot

variable (b : Bounds Float) (entry : Entry)

/-- The ends are separated. The point at zero repeats an end just where that end is at zero too and
closer to it in height than the tolerance. -/
theorem landmarks_separated_iff :
    AreSeparated (ends b entry) ∧
      (zero? b entry = none → (trace b entry).landmarks = ends b entry) ∧
      ∀ zero ∈ zero? b entry, AreSeparated (trace b entry).landmarks ↔
        ∀ p ∈ ends b entry, ¬(p.x == 0 ∧ Scalar.magnitude (p.y - zero.y) < Point.nearTolerance) := by
  have hends := Landmark.areSeparated_ends b.yMin b.yMax (trace b entry).samples
  refine ⟨hends, fun hnone => landmarks_of_zero?_eq_none hnone, fun zero hzero => ?_⟩
  rw [landmarks_of_zero?_eq_some hzero, ends, Landmark.areSeparated_insertZero_iff hends]
  refine forall₂_congr fun p hp => ?_
  obtain ⟨q, rfl⟩ := Landmark.exists_rounded_of_mem_ends hp
  have hzeroRounded : Landmark.IsRounded zero :=
    Landmark.isRounded_atZero (Option.filter_eq_some_iff.mp hzero).1
  have hsymm := Point.near_symm hzeroRounded (Landmark.isRounded_rounded q)
  have hsame : Scalar.magnitude (q.rounded.x - zero.x) < Point.nearTolerance ↔ q.rounded.x == 0 := by
    rw [x_of_zero?_eq_some hzero]
    exact Number.magnitude_roundHundredths_lt_iff q.x
  rw [← hsame, ← Point.near_iff]
  exact ⟨And.right, fun hfar => ⟨fun hnear => hfar (hsymm hnear), hfar⟩⟩

theorem landmarks_separated_initial :
    zero? Bounds.initial diagonal = some ⟨0, 0⟩ ∧
      AreSeparated (trace Bounds.initial diagonal).landmarks := by
  have husable : Bounds.initial.IsUsable := Session.isUsable_initial
  have hzero : zero? Bounds.initial diagonal = some ⟨0, 0⟩ := by decide +kernel
  have hfirst : Grid.point (-10) 10 intervals 0 = -10 := by decide +kernel
  have hlast : Grid.point (-10) 10 intervals intervals = 10 := by decide +kernel
  have hends : ends Bounds.initial diagonal = [⟨-10, -10⟩, ⟨10, 10⟩] := by
    rw [ends_diagonal husable hfirst hlast (by decide +kernel) (by decide +kernel)]
    decide +kernel
  refine ⟨hzero, ((landmarks_separated_iff Bounds.initial diagonal).2.2 ⟨0, 0⟩ hzero).mpr ?_⟩
  rw [hends]
  decide +kernel

/-- Bounds that begin a little to the left of zero. -/
def narrowLeftBounds : Bounds Float :=
  ⟨-0.001, 10, -10, 10⟩

theorem isUsable_narrowLeftBounds : narrowLeftBounds.IsUsable := by
  decide +kernel

/-- The left end of the diagonal is at the origin when it is rounded, and so is the point at zero. -/
theorem landmarks_narrowLeftBounds_not_separated :
    (FunctionList.empty .standard).entryOf "x" = .ok diagonal ∧ narrowLeftBounds.IsUsable ∧
      (trace narrowLeftBounds diagonal).landmarks = [⟨0, 0⟩, ⟨0, 0⟩, ⟨10, 10⟩] ∧
      ¬AreSeparated (trace narrowLeftBounds diagonal).landmarks := by
  have hfirst : Grid.point (-0.001) 10 intervals 0 = -0.001 := by decide +kernel
  have hlast : Grid.point (-0.001) 10 intervals intervals = 10 := by decide +kernel
  have hends : ends narrowLeftBounds diagonal = [⟨0, 0⟩, ⟨10, 10⟩] := by
    rw [ends_diagonal isUsable_narrowLeftBounds hfirst hlast (by decide +kernel) (by decide +kernel)]
    decide +kernel
  have hzero : zero? narrowLeftBounds diagonal = some ⟨0, 0⟩ := by decide +kernel
  have hlandmarks : (trace narrowLeftBounds diagonal).landmarks = [⟨0, 0⟩, ⟨0, 0⟩, ⟨10, 10⟩] := by
    rw [landmarks_of_zero?_eq_some hzero, hends]
    rfl
  refine ⟨entryOf_diagonal, isUsable_narrowLeftBounds, hlandmarks, fun hseparated => ?_⟩
  rw [hlandmarks] at hseparated
  have hnear : Point.near Point.nearTolerance ⟨0, 0⟩ ⟨0, 0⟩ = true := by decide +kernel
  exact (List.rel_of_pairwise_cons hseparated List.mem_cons_self).1 hnear

end Plot

end FunctionGraph
