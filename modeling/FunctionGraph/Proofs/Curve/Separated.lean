import FunctionGraph.Proofs.Curve.Near
import Mathlib.Data.List.Sigma

/-!
# Points kept apart

Of a list of points each is kept that is near none kept before it. Nearness does not carry on from point
to point, so the points do not fall into classes of which one each is kept, and a point with a coordinate
that is no number is not even near itself. What is kept is described by its places in the list: the kept
points are apart, and a point left out is near one that is kept in front of it. This determines the kept
points.
-/

namespace FunctionGraph

/-- No point is near another one of the list. -/
def AreSeparated (points : List (Point Float)) : Prop :=
  points.Pairwise fun p q => ¬p.near Point.nearTolerance q ∧ ¬q.near Point.nearTolerance p

theorem areSeparated_concat_iff {points : List (Point Float)} {p : Point Float} :
    AreSeparated (points ++ [p]) ↔
      AreSeparated points ∧ ∀ q ∈ points, ¬q.near Point.nearTolerance p := by
  rw [AreSeparated, List.pairwise_append, ← AreSeparated]
  refine and_congr_right fun _ => ?_
  rw [and_iff_right (List.pairwise_singleton _ p)]
  refine forall₂_congr fun q _ => ?_
  rw [List.forall_mem_singleton, Point.near_comm (p := p), and_self]

namespace Landmark

/-- What may be kept of `points`, each kept point with its place: none is near another, and every point
left out is near one that is kept in front of it. -/
structure IsSeparation (points : List (Point Float)) (kept : List (Point Float × ℕ)) : Prop where
  sublist : kept.Sublist points.zipIdx
  separated : AreSeparated (kept.map Prod.fst)
  near_before : ∀ a ∈ points.zipIdx, a ∉ kept →
    ∃ b ∈ kept, b.2 < a.2 ∧ a.1.near Point.nearTolerance b.1

theorem zipIdx_concat (points : List (Point Float)) (p : Point Float) :
    (points ++ [p]).zipIdx = points.zipIdx ++ [(p, points.length)] := by
  rw [List.zipIdx_append, List.zipIdx_singleton, Nat.zero_add]

/-- Kept at two places, points are not near each other. -/
theorem not_near_of_areSeparated {kept : List (Point Float × ℕ)} {a b : Point Float × ℕ}
    (h : AreSeparated (kept.map Prod.fst)) (ha : a ∈ kept) (hb : b ∈ kept) (hne : a ≠ b) :
    ¬a.1.near Point.nearTolerance b.1 := by
  have hsymm : Std.Symm fun a b : Point Float × ℕ =>
      ¬a.1.near Point.nearTolerance b.1 ∧ ¬b.1.near Point.nearTolerance a.1 :=
    ⟨fun _ _ => And.symm⟩
  exact ((List.pairwise_map.mp h).forall ha hb hne).1

/-! ### One more point -/

section Concat

variable {points : List (Point Float)} {kept : List (Point Float × ℕ)} {p : Point Float}

theorem separate_concat_of_near (h : ∃ q ∈ separate points, q.near Point.nearTolerance p) :
    separate (points ++ [p]) = separate points := by
  rw [separate, List.foldl_append]
  exact if_pos (List.any_eq_true.mpr h)

theorem separate_concat_of_far (h : ∀ q ∈ separate points, ¬q.near Point.nearTolerance p) :
    separate (points ++ [p]) = separate points ++ [p] := by
  rw [separate, List.foldl_append]
  exact if_neg fun hany => by
    obtain ⟨q, hq, hnear⟩ := List.any_eq_true.mp hany
    exact h q hq hnear

theorem isSeparation_nil_iff : IsSeparation [] kept ↔ kept = [] := by
  constructor
  · intro h
    exact List.eq_nil_of_sublist_nil h.sublist
  · rintro rfl
    exact ⟨List.Sublist.refl _, List.Pairwise.nil, fun a ha => absurd ha List.not_mem_nil⟩

namespace IsSeparation

theorem drop (h : IsSeparation points kept)
    (hnear : ∃ q ∈ kept.map Prod.fst, q.near Point.nearTolerance p) :
    IsSeparation (points ++ [p]) kept where
  sublist := by
    rw [zipIdx_concat]
    exact h.sublist.trans (List.sublist_append_left _ _)
  separated := h.separated
  near_before := by
    intro a ha hleft
    rw [zipIdx_concat, List.mem_append, List.mem_singleton] at ha
    rcases ha with ha | rfl
    · exact h.near_before a ha hleft
    · obtain ⟨q, hq, hnear⟩ := hnear
      obtain ⟨b, hb, rfl⟩ := List.mem_map.mp hq
      exact ⟨b, hb, List.snd_lt_of_mem_zipIdx (h.sublist.subset hb), Point.near_comm.mp hnear⟩

theorem keep (h : IsSeparation points kept)
    (hfar : ∀ q ∈ kept.map Prod.fst, ¬q.near Point.nearTolerance p) :
    IsSeparation (points ++ [p]) (kept ++ [(p, points.length)]) where
  sublist := by
    rw [zipIdx_concat]
    exact h.sublist.append (List.Sublist.refl _)
  separated := by
    rw [List.map_append]
    exact areSeparated_concat_iff.mpr ⟨h.separated, hfar⟩
  near_before := by
    intro a ha hleft
    rw [List.mem_append, not_or] at hleft
    rw [zipIdx_concat, List.mem_append] at ha
    obtain ⟨b, hb, hbefore, hnear⟩ := h.near_before a (ha.resolve_right hleft.2) hleft.1
    exact ⟨b, List.mem_append_left _ hb, hbefore, hnear⟩

/-- The last point is left out or kept, as the points kept in front of it decide. -/
theorem concat_cases (h : IsSeparation (points ++ [p]) kept) :
    (IsSeparation points kept ∧ ∃ q ∈ kept.map Prod.fst, q.near Point.nearTolerance p) ∨
      ∃ earlier, kept = earlier ++ [(p, points.length)] ∧ IsSeparation points earlier ∧
        ∀ q ∈ earlier.map Prod.fst, ¬q.near Point.nearTolerance p := by
  obtain ⟨hsublist, hseparated, hbefore⟩ := h
  rw [zipIdx_concat] at hsublist hbefore
  obtain ⟨earlier, last, rfl, hearlier, hlast⟩ := List.sublist_append_iff.mp hsublist
  rcases List.sublist_singleton.mp hlast with rfl | rfl
  · rw [List.append_nil] at hseparated hbefore ⊢
    refine Or.inl ⟨⟨hearlier, hseparated, fun a ha => hbefore a (List.mem_append_left _ ha)⟩, ?_⟩
    have hleft : (p, points.length) ∉ earlier := fun hmem =>
      lt_irrefl _ (List.snd_lt_of_mem_zipIdx (hearlier.subset hmem))
    obtain ⟨b, hb, -, hnear⟩ := hbefore _ (List.mem_append_right _ (List.mem_singleton_self _)) hleft
    exact ⟨b.1, List.mem_map_of_mem hb, Point.near_comm.mp hnear⟩
  · rw [List.map_append] at hseparated
    obtain ⟨hapart, hfar⟩ := areSeparated_concat_iff.mp hseparated
    refine Or.inr ⟨earlier, rfl, ⟨hearlier, hapart, fun a ha hleft => ?_⟩, hfar⟩
    -- The last point is behind `a`, so it is neither `a` nor what `a` is near.
    have hearlier_of_lt : ∀ {c : Point Float × ℕ}, c.2 < points.length →
        c ∈ earlier ++ [(p, points.length)] → c ∈ earlier := fun hc hmem =>
      (List.mem_append.mp hmem).resolve_right fun hlast =>
        hc.ne (congrArg Prod.snd (List.mem_singleton.mp hlast))
    have hplace : a.2 < points.length := List.snd_lt_of_mem_zipIdx ha
    obtain ⟨b, hb, hlt, hnear⟩ :=
      hbefore a (List.mem_append_left _ ha) fun hmem => hleft (hearlier_of_lt hplace hmem)
    exact ⟨b, hearlier_of_lt (hlt.trans hplace) hb, hlt, hnear⟩

end IsSeparation

end Concat

/-! ### The whole list -/

section Separate

variable {points : List (Point Float)} {kept : List (Point Float × ℕ)}

theorem exists_isSeparation (points : List (Point Float)) :
    ∃ kept, kept.map Prod.fst = separate points ∧ IsSeparation points kept := by
  -- Points are taken from the front, so the induction adds one at the end.
  induction points using List.reverseRecOn with
  | nil => exact ⟨[], rfl, isSeparation_nil_iff.mpr rfl⟩
  | append_singleton points p ih =>
    obtain ⟨kept, hkept, hseparation⟩ := ih
    by_cases hnear : ∃ q ∈ kept.map Prod.fst, q.near Point.nearTolerance p
    · refine ⟨kept, ?_, hseparation.drop hnear⟩
      rw [separate_concat_of_near (hkept ▸ hnear), hkept]
    · have hfar : ∀ q ∈ kept.map Prod.fst, ¬q.near Point.nearTolerance p := fun q hq hq' =>
        hnear ⟨q, hq, hq'⟩
      refine ⟨kept ++ [(p, points.length)], ?_, hseparation.keep hfar⟩
      rw [separate_concat_of_far (hkept ▸ hfar), List.map_append, hkept]
      rfl

/-- There is no choice in what is kept. -/
theorem IsSeparation.map_fst_eq (h : IsSeparation points kept) :
    kept.map Prod.fst = separate points := by
  induction points using List.reverseRecOn generalizing kept with
  | nil =>
    obtain rfl := isSeparation_nil_iff.mp h
    rfl
  | append_singleton points p ih =>
    rcases h.concat_cases with ⟨hkept, hnear⟩ | ⟨earlier, rfl, hearlier, hfar⟩
    · rw [separate_concat_of_near (ih hkept ▸ hnear), ih hkept]
    · rw [separate_concat_of_far (ih hearlier ▸ hfar), List.map_append, ih hearlier]
      rfl

/-- No point in front of the first could be near it. -/
theorem IsSeparation.head?_eq (h : IsSeparation points kept) : kept.head? = points.zipIdx.head? := by
  cases points with
  | nil => rw [isSeparation_nil_iff.mp h, List.zipIdx_nil]
  | cons p rest =>
    have hfirst : (p, 0) ∈ kept := by
      by_contra hleft
      obtain ⟨b, -, hbefore, -⟩ := h.near_before (p, 0) List.mem_cons_self hleft
      exact Nat.not_lt_zero _ hbefore
    have hsublist := h.sublist
    rw [List.zipIdx_cons] at hsublist ⊢
    cases hsublist with
    | cons _ hrest =>
      have hplace : 1 ≤ 0 := List.le_snd_of_mem_zipIdx (hrest.subset hfirst)
      exact absurd hplace (Nat.not_succ_le_zero 0)
    | cons_cons _ _ => rfl

/-- Nothing that was left out can be put back. -/
theorem IsSeparation.eq_of_sublist (h : IsSeparation points kept) {larger : List (Point Float × ℕ)}
    (hkept : kept.Sublist larger) (hlarger : larger.Sublist points.zipIdx)
    (hseparated : AreSeparated (larger.map Prod.fst)) : larger = kept := by
  have hsubset : larger ⊆ kept := by
    intro a ha
    by_contra hleft
    obtain ⟨b, hb, -, hnear⟩ := h.near_before a (hlarger.subset ha) hleft
    have hne : a ≠ b := fun heq => hleft (heq ▸ hb)
    exact not_near_of_areSeparated hseparated ha (hkept.subset hb) hne hnear
  have hnodup : points.zipIdx.Nodup := List.Nodup.of_map Prod.snd (List.nodup_zipIdx_map_snd points)
  have hlength := ((hnodup.sublist hlarger).subperm hsubset).length_le
  exact (hkept.eq_of_length_le hlength).symm

theorem areSeparated_separate (points : List (Point Float)) : AreSeparated (separate points) := by
  obtain ⟨kept, hkept, hseparation⟩ := exists_isSeparation points
  exact hkept ▸ hseparation.separated

/-- Points that are apart are all kept. -/
theorem separate_eq_self (h : AreSeparated points) : separate points = points := by
  have hall : points.zipIdx.map Prod.fst = points := List.zipIdx_map_fst 0 points
  have hseparation : IsSeparation points points.zipIdx :=
    ⟨List.Sublist.refl _, hall.symm ▸ h, fun a ha hleft => absurd ha hleft⟩
  rw [← hseparation.map_fst_eq, hall]

/-- The kept points are a sublist that starts with the first point and has no two points near each other,
every point left out is near one kept in front of it, so no larger sublist has its points apart, and in
what is kept there is nothing to leave out. -/
theorem separate_keepsApart (points : List (Point Float)) :
    (∃ kept, kept.map Prod.fst = separate points ∧ IsSeparation points kept ∧
      kept.head? = points.zipIdx.head? ∧
      ∀ larger, kept.Sublist larger → larger.Sublist points.zipIdx →
        AreSeparated (larger.map Prod.fst) → larger = kept) ∧
      separate (separate points) = separate points := by
  obtain ⟨kept, hkept, hseparation⟩ := exists_isSeparation points
  refine ⟨⟨kept, hkept, hseparation, hseparation.head?_eq, ?_⟩, ?_⟩
  · intro larger hsublist hlarger hseparated
    exact hseparation.eq_of_sublist hsublist hlarger hseparated
  · exact separate_eq_self (areSeparated_separate points)

/-- The third point is near the second, which is not kept, and a point that is no number is near nothing. -/
example : separate [⟨0, 0⟩, ⟨0.008, 0⟩, ⟨0.016, 0⟩, ⟨Number.nan, 0⟩, ⟨Number.nan, 0⟩]
    = [⟨0, 0⟩, ⟨0.016, 0⟩, ⟨Number.nan, 0⟩, ⟨Number.nan, 0⟩] := by
  decide +kernel

end Separate

end Landmark

end FunctionGraph
