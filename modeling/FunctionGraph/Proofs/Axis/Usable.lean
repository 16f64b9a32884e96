import FunctionGraph.Plot.Session
import FunctionGraph.Proofs.Number.Comparison

/-!
# Bounds that can be plotted

What the check of bounds asks for, and that only bounds that passed it are ever stored.
-/

namespace FunctionGraph

namespace Bounds

/-- The bounds are finite and ascend on both axes, and so are the spans finite. -/
structure IsUsable (b : Bounds Float) : Prop where
  finite : ∀ side, (b.side side).isFinite = true
  xMin_lt : b.xMin < b.xMax
  yMin_lt : b.yMin < b.yMax
  width : b.width.isFinite = true
  height : b.height.isFinite = true

section Checked

variable {b c : Bounds Float} {x y : Float}

theorem ge_iff_not_lt (hx : x.isFinite = true) (hy : y.isFinite = true) : x ≥ y ↔ ¬x < y := by
  obtain ⟨p, hp⟩ := Number.exists_rational? hx
  obtain ⟨q, hq⟩ := Number.exists_rational? hy
  rw [ge_iff_le, Number.le_iff_rational hq hp, Number.lt_iff_rational hp hq, not_lt]

theorem find?_notFinite :
    [Side.xMin, .xMax, .yMin, .yMax].find? (fun side => !(b.side side).isFinite) = none
      ↔ ∀ side, (b.side side).isFinite = true := by
  rw [List.find?_eq_none]
  constructor
  · intro h side
    have := h side (by cases side <;> decide)
    simpa using this
  · intro h side _
    simp [h side]

/-- The check passes bounds on as they are, or not at all. -/
theorem checked_eq_ok_iff : b.checked = .ok c ↔ c = b ∧ b.IsUsable := by
  rw [checked]
  split
  · next side hside =>
    refine iff_of_false (fun h => by cases h) fun ⟨_, h⟩ => ?_
    rw [find?_notFinite.mpr h.finite] at hside
    cases hside
  · next hnone =>
    have hfinite := find?_notFinite.mp hnone
    have hx : b.xMin ≥ b.xMax ↔ ¬b.xMin < b.xMax := ge_iff_not_lt (hfinite .xMin) (hfinite .xMax)
    have hy : b.yMin ≥ b.yMax ↔ ¬b.yMin < b.yMax := ge_iff_not_lt (hfinite .yMin) (hfinite .yMax)
    by_cases hxlt : b.xMin < b.xMax
    · by_cases hylt : b.yMin < b.yMax
      · rw [if_neg (by rwa [hx, not_not]), if_neg (by rwa [hy, not_not])]
        split
        · next hspan =>
          obtain ⟨hwidth, hheight⟩ := Bool.and_eq_true_iff.mp hspan
          rw [Except.ok.injEq, eq_comm]
          exact (and_iff_left ⟨hfinite, hxlt, hylt, hwidth, hheight⟩).symm
        · next hspan =>
          exact iff_of_false (fun h => by cases h) fun ⟨_, h⟩ =>
            hspan (Bool.and_eq_true_iff.mpr ⟨h.width, h.height⟩)
      · rw [if_neg (by rwa [hx, not_not]), if_pos (hy.mpr hylt)]
        exact iff_of_false (fun h => by cases h) fun ⟨_, h⟩ => hylt h.yMin_lt
    · rw [if_pos (hx.mpr hxlt)]
      exact iff_of_false (fun h => by cases h) fun ⟨_, h⟩ => hxlt h.xMin_lt

theorem IsUsable.checked (h : b.IsUsable) : b.checked = .ok b :=
  checked_eq_ok_iff.mpr ⟨rfl, h⟩

theorem isUsable_of_checked (h : b.checked = .ok c) : c.IsUsable := by
  obtain ⟨rfl, husable⟩ := checked_eq_ok_iff.mp h
  exact husable

instance : DecidablePred IsUsable := fun b =>
  decidable_of_iff (b.checked.isOk = true) <| by
    constructor
    · intro h
      cases hchecked : b.checked with
      | ok c => exact (checked_eq_ok_iff.mp hchecked).2
      | error reason => rw [hchecked] at h; cases h
    · intro h
      rw [h.checked]
      rfl

end Checked

end Bounds

namespace Session

variable {s : Session}

theorem isUsable_initial : initial.bounds.IsUsable := by
  decide +kernel

/-- No step stores bounds without checking them. -/
theorem isUsable_after (h : s.bounds.IsUsable) (step : Step) : (s.after step).bounds.IsUsable := by
  have hkeeps (made : Except Error FunctionList) : (s.keep withFunctions made).1.bounds.IsUsable := by
    cases made <;> exact h
  have hstores {made : Except Bounds.Unusable (Bounds Float)} (hmade : ∀ b, made = .ok b → b.IsUsable) :
      (s.keep withBounds (made.mapError .unusable)).1.bounds.IsUsable := by
    cases made with
    | error reason => exact h
    | ok b => exact hmade b rfl
  cases step with
  | add text => exact hkeeps _
  | remove index => exact hkeeps _
  | toggle index enabled => exact hkeeps _
  | configure bounds => exact hstores fun b => Bounds.isUsable_of_checked
  | configureTexts texts => exact hstores fun b => Bounds.isUsable_of_checked
  | plot => exact h

theorem isUsable_run (h : s.bounds.IsUsable) (steps : List Step) : (s.run steps).bounds.IsUsable :=
  List.foldlRecOn (motive := fun t : Session => t.bounds.IsUsable) steps after h
    fun _ ht step _ => isUsable_after ht step

end Session

end FunctionGraph
