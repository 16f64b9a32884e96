import FunctionGraph.Proofs.Curve.Near
import FunctionGraph.Proofs.Plot.OnScreen

/-!
# Landmarks that can be shown

A landmark is shown with its label, for which its coordinates have to be finite. Rounding to two decimals
starts with a multiplication by a hundred, so the ends of a curve can be shown just when their hundredfold
is a double, and all landmarks can when that is so for the bounds. The point at zero always can.
-/

namespace FunctionGraph

open Number (hundredfold)

namespace Point

/-- The point is finite and has a label. -/
def IsShowable (p : Point Float) : Prop :=
  p.x.isFinite = true ∧ p.y.isFinite = true ∧ ∀ separator, ∃ text, p.label separator = .ok text

/-- A hundred times as far out the point still has finite coordinates. -/
def HasHundredfold (p : Point Float) : Prop :=
  (hundredfold p.x).isFinite = true ∧ (hundredfold p.y).isFinite = true

variable {p q : Point Float}

theorem hasNumbers_of_isFinite (hx : p.x.isFinite = true) (hy : p.y.isFinite = true) :
    Landmark.HasNumbers p := by
  have hnumber : ∀ {x : Float}, x.isFinite = true → x.isNaN = false := fun hx => by
    obtain ⟨q, hq⟩ := Number.exists_rational? hx
    exact Number.isNaN_eq_false_of_rational? hq
  exact ⟨hnumber hx, hnumber hy⟩

theorem IsShowable.hasNumbers (h : p.IsShowable) : Landmark.HasNumbers p :=
  hasNumbers_of_isFinite h.1 h.2.1

theorem isShowable_of_isFinite (hx : p.x.isFinite = true) (hy : p.y.isFinite = true) :
    p.IsShowable :=
  ⟨hx, hy, exists_label ⟨Or.inl hx, Or.inl hy⟩ (hasNumbers_of_isFinite hx hy)⟩

theorem isShowable_rounded_iff : p.rounded.IsShowable ↔ p.HasHundredfold := by
  rw [HasHundredfold, ← Number.isFinite_roundHundredths, ← Number.isFinite_roundHundredths]
  exact ⟨fun h => ⟨h.1, h.2.1⟩, fun h => isShowable_of_isFinite h.1 h.2⟩

theorem isShowable_of_near (h : p.near nearTolerance q) : p.IsShowable ∧ q.IsShowable := by
  obtain ⟨⟨hpx, hpy⟩, hqx, hqy⟩ := isFinite_of_near h
  exact ⟨isShowable_of_isFinite hpx hpy, isShowable_of_isFinite hqx hqy⟩

end Point

namespace Landmark

theorem isShowable_separate_iff {p q : Point Float} :
    (∀ r ∈ separate [p, q], r.IsShowable) ↔ p.IsShowable ∧ q.IsShowable := by
  rw [separate_pair]
  split
  · next hnear =>
    have hboth := Point.isShowable_of_near hnear
    exact iff_of_true (fun r hr => List.mem_singleton.mp hr ▸ hboth.1) hboth
  · rw [List.forall_mem_cons, List.forall_mem_singleton]

end Landmark

namespace Plot

section Showable

variable {b : Bounds Float} {entry : Entry}

theorem isShowable_of_zero?_eq_some {zero : Point Float} (h : zero? b entry = some zero) :
    zero.IsShowable := by
  obtain ⟨y, -, -, hfinite, -⟩ := eq_of_zero?_eq_some h
  refine Point.isShowable_of_isFinite ?_ hfinite
  rw [x_of_zero?_eq_some h]
  exact Number.isFinite_zero

theorem isShowable_ends_iff :
    (∀ p ∈ ends b entry, p.IsShowable) ↔
      ∀ p, (visiblePoints b entry).head? = some p ∨ (visiblePoints b entry).getLast? = some p →
        p.HasHundredfold := by
  rcases Landmark.ends_cases b.yMin b.yMax (trace b entry).samples with
    ⟨hnone, hends⟩ | ⟨first, last, hfirst, hlast, hends⟩
  · change visiblePoints b entry = [] at hnone
    rw [ends, hends, hnone]
    simp
  · change (visiblePoints b entry).head? = some first at hfirst
    change (visiblePoints b entry).getLast? = some last at hlast
    rw [ends, hends, hfirst, hlast, Landmark.isShowable_separate_iff, Point.isShowable_rounded_iff,
      Point.isShowable_rounded_iff]
    constructor
    · rintro ⟨hfirst', hlast'⟩ p (hp | hp)
      · exact Option.some.inj hp ▸ hfirst'
      · exact Option.some.inj hp ▸ hlast'
    · exact fun h => ⟨h first (Or.inl rfl), h last (Or.inr rfl)⟩

theorem isShowable_landmarks_iff_ends :
    (∀ p ∈ (trace b entry).landmarks, p.IsShowable) ↔ ∀ p ∈ ends b entry, p.IsShowable := by
  cases hzero : zero? b entry with
  | none => rw [landmarks_of_zero?_eq_none hzero]
  | some zero =>
    have hperm := Landmark.insertZero_perm zero (ends b entry)
    rw [landmarks_of_zero?_eq_some hzero]
    constructor
    · exact fun h p hp => h p (hperm.mem_iff.mpr (List.mem_cons_of_mem zero hp))
    · intro h p hp
      rcases List.mem_cons.mp (hperm.mem_iff.mp hp) with rfl | hmem
      · exact isShowable_of_zero?_eq_some hzero
      · exact h p hmem

variable (h : b.IsUsable)

include h

/-- Visible points are within the bounds, and so are their hundredfolds. -/
theorem hasHundredfold_of_bounds (hbounds : ∀ side, (hundredfold (b.side side)).isFinite = true)
    (entry : Entry) {p : Point Float} (hp : p ∈ visiblePoints b entry) : p.HasHundredfold := by
  have hholds := holds_of_mem_visiblePoints h entry hp
  exact ⟨Number.isFinite_hundredfold_of_between (h.finite .xMin) (h.finite .xMax) hholds.x_finite
      hholds.xMin_le hholds.le_xMax (hbounds .xMin) (hbounds .xMax),
    Number.isFinite_hundredfold_of_between (h.finite .yMin) (h.finite .yMax) hholds.y_finite
      hholds.yMin_le hholds.le_yMax (hbounds .yMin) (hbounds .yMax)⟩

theorem isShowable_landmarks_of_bounds (hbounds : ∀ side, (hundredfold (b.side side)).isFinite = true)
    (entry : Entry) : ∀ p ∈ (trace b entry).landmarks, p.IsShowable := by
  refine isShowable_landmarks_iff_ends.mpr (isShowable_ends_iff.mpr fun p hp => ?_)
  exact hasHundredfold_of_bounds h hbounds entry
    (hp.elim List.mem_of_mem_head? List.mem_of_mem_getLast?)

/-- On bounds with hundredfolds the landmarks are numbers, whatever the functions are. -/
theorem hasNumbers_of_bounds (hbounds : ∀ side, (hundredfold (b.side side)).isFinite = true)
    (entries : List Entry) : (pass entries b).HasNumbers := by
  intro t ht p hp
  obtain ⟨entry, -, rfl⟩ := List.mem_map.mp ht
  exact (isShowable_landmarks_of_bounds h hbounds entry p hp).hasNumbers

/-- The landmarks can be shown just when the hundredfolds of the first and the last visible point are
doubles, and so whenever the hundredfolds of the bounds are. -/
theorem isShowable_landmarks_iff (entry : Entry) :
    ((∀ p ∈ (trace b entry).landmarks, p.IsShowable) ↔
      ∀ p, (visiblePoints b entry).head? = some p ∨ (visiblePoints b entry).getLast? = some p →
        p.HasHundredfold) ∧
      ((∀ side, (hundredfold (b.side side)).isFinite = true) →
        ∀ p ∈ (trace b entry).landmarks, p.IsShowable) :=
  ⟨isShowable_landmarks_iff_ends.trans isShowable_ends_iff,
    fun hbounds => isShowable_landmarks_of_bounds h hbounds entry⟩

end Showable

theorem isShowable_landmarks_initial : Bounds.initial.IsUsable ∧
    ∀ p ∈ (trace Bounds.initial diagonal).landmarks, p.IsShowable := by
  have husable : Bounds.initial.IsUsable := Session.isUsable_initial
  refine ⟨husable, (isShowable_landmarks_iff husable diagonal).2 fun side => ?_⟩
  cases side <;> decide +kernel

/-- Bounds that are doubles, but whose hundredfolds are not. -/
def farBounds : Bounds Float :=
  ⟨-1e307, 1e307, -1e307, 1e307⟩

theorem isUsable_farBounds : farBounds.IsUsable := by
  decide +kernel

theorem landmarks_farBounds_not_showable :
    (FunctionList.empty .standard).entryOf "x" = .ok diagonal ∧ farBounds.IsUsable ∧
      ∃ p ∈ (trace farBounds diagonal).landmarks,
        p.x.isNaN = true ∧ p.y.isNaN = true ∧ p.label "," = .error .nanToInteger := by
  have hfirst : Grid.point (-1e307) 1e307 intervals 0 = -1e307 := by decide +kernel
  have hlast : Grid.point (-1e307) 1e307 intervals intervals = 1e307 := by decide +kernel
  have hends := ends_diagonal isUsable_farBounds hfirst hlast (by decide +kernel) (by decide +kernel)
  rw [Landmark.separate_pair, if_neg (by decide +kernel)] at hends
  have hzero : zero? farBounds diagonal = some ⟨0, 0⟩ := by decide +kernel
  refine ⟨entryOf_diagonal, isUsable_farBounds, Point.rounded ⟨-1e307, -1e307⟩, ?_,
    by decide +kernel, by decide +kernel, by decide +kernel⟩
  rw [landmarks_of_zero?_eq_some hzero, hends]
  exact List.mem_cons_self

end Plot

end FunctionGraph
