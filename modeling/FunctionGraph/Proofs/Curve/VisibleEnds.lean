import FunctionGraph.Curve.Landmark
import FunctionGraph.Proofs.Curve.Marks
import FunctionGraph.Proofs.Number.Comparison

/-!
# The visible ends of a curve

The samples of a curve repeat the points of the grid in their order, some of them twice. So the first
and the last visible sample are the leftmost and the rightmost, and the ends of the curve are these two,
or one point where they are too near each other to be told apart.
-/

namespace FunctionGraph

/-! ### Samples in the order of the grid -/

namespace Sample

/-- What a sample shows, its marks apart. -/
def shown (s : Sample) : Point Float × Bool :=
  (s.point, s.valid)

/-- What an outcome makes its samples show. -/
def shownOf (o : Outcome) : Point Float × Bool :=
  (⟨o.1, o.2.getD Number.nan⟩, isValid o)

section Order

variable {s : Sample} {last : Option Sample} {outcomes : List Outcome}

theorem map_shown_markAfter_held_sublist (o next : Outcome) :
    ((markAfter (held o) next).map shown).Sublist [shownOf o] := by
  rw [markAfter_held]
  split
  · next hvalid =>
    have hshown : shownOf o = (⟨o.1, o.2.getD Number.nan⟩, true) := by
      rw [shownOf, (Bool.and_eq_true_iff.mp hvalid).1]
    rw [hshown]
    exact List.Sublist.refl _
  · exact List.nil_sublist _

/-- Behind an outcome its mark may follow, and then its successors. -/
theorem map_shown_classifyAfter_sublist (o : Outcome) (outcomes : List Outcome) :
    ((classifyAfter (held o) outcomes).map shown).Sublist
      (shownOf o :: outcomes.flatMap fun o => [shownOf o, shownOf o]) := by
  induction outcomes generalizing o with
  | nil => exact List.nil_sublist _
  | cons next rest ih =>
    rw [classifyAfter_cons, List.map_append, List.map_cons, List.flatMap_cons]
    exact (map_shown_markAfter_held_sublist o next).append ((ih next).cons_cons (shownOf next))

theorem map_shown_classify_sublist (outcomes : List Outcome) :
    ((classify outcomes).map shown).Sublist (outcomes.flatMap fun o => [shownOf o, shownOf o]) := by
  cases outcomes with
  | nil => exact List.nil_sublist _
  | cons o rest =>
    have hmark : markAfter none o = [] := by
      rw [markAfter]
      exact ite_self []
    rw [classify, classifyAfter_cons, hmark, List.flatMap_cons]
    exact (map_shown_classifyAfter_sublist o rest).cons_cons (shownOf o)

theorem exists_outcome_of_mem_classify (h : s ∈ classify outcomes) :
    ∃ o ∈ outcomes, s.shown = shownOf o := by
  have hmem := (map_shown_classify_sublist outcomes).subset (List.mem_map_of_mem h)
  obtain ⟨o, ho, hpair⟩ := List.mem_flatMap.mp hmem
  exact ⟨o, ho, (List.mem_pair.mp hpair).elim id id⟩

/-- Where every value is finite there are no marks, and each outcome has one sample. -/
theorem map_shown_classifyAfter_of_valid (h : ∀ o ∈ outcomes, isValid o = true) :
    (classifyAfter last outcomes).map shown = outcomes.map shownOf := by
  induction outcomes generalizing last with
  | nil => rfl
  | cons o rest ih =>
    obtain ⟨ho, hrest⟩ := List.forall_mem_cons.mp h
    have hmark : markAfter last o = [] := if_pos ho
    rw [classifyAfter_cons, hmark, List.nil_append, List.map_cons, ih hrest, List.map_cons]
    rfl

end Order

section Along

variable {curve : Float → Option Float} {grid : List Float} {s : Sample}

theorem mem_grid_of_mem_along (h : s ∈ along curve grid) :
    s.x ∈ grid ∧ (s.valid = true → curve s.x = some s.y ∧ s.y.isFinite = true) := by
  obtain ⟨o, ho, hshown⟩ := exists_outcome_of_mem_classify h
  obtain ⟨x, hx, rfl⟩ := List.mem_map.mp ho
  have hpoint : s.point = ⟨x, (curve x).getD Number.nan⟩ := congrArg Prod.fst hshown
  have hvalid : s.valid = (curve x).any Float.isFinite := congrArg Prod.snd hshown
  have hsx : s.x = x := congrArg Point.x hpoint
  have hsy : s.y = (curve x).getD Number.nan := congrArg Point.y hpoint
  refine ⟨hsx ▸ hx, fun h => ?_⟩
  rw [hvalid, Option.any_eq_true] at h
  obtain ⟨y, hy, hfinite⟩ := h
  rw [hsx, hsy, hy]
  exact ⟨rfl, hfinite⟩

/-- The samples do not turn back. -/
theorem pairwise_along (hgrid : grid.Pairwise (· ≤ ·)) (hself : ∀ x ∈ grid, x ≤ x) :
    (along curve grid).Pairwise fun s t => s.x ≤ t.x := by
  have hsublist := map_shown_classify_sublist (grid.map fun x => (x, curve x))
  have hordered : ((along curve grid).map shown).Pairwise fun s t => s.1.x ≤ t.1.x := by
    refine List.Pairwise.sublist hsublist (List.pairwise_flatMap.mpr ⟨?_, ?_⟩)
    · intro o ho
      obtain ⟨x, hx, rfl⟩ := List.mem_map.mp ho
      exact List.pairwise_pair.mpr (hself x hx)
    · rw [List.pairwise_map]
      refine hgrid.imp fun {x x'} hle p hp q hq => ?_
      rw [(List.mem_pair.mp hp).elim id id, (List.mem_pair.mp hq).elim id id]
      exact hle
  rw [List.pairwise_map] at hordered
  exact hordered

/-- The visible points, from left to right. -/
def visiblePoints (lo hi : Float) (samples : List Sample) : List (Point Float) :=
  (samples.filter (isVisible lo hi)).map point

theorem mem_visiblePoints_along {lo hi : Float} {p : Point Float}
    (h : p ∈ visiblePoints lo hi (along curve grid)) :
    p.x ∈ grid ∧ curve p.x = some p.y ∧ p.y.isFinite = true ∧ lo ≤ p.y ∧ p.y ≤ hi := by
  obtain ⟨s, hs, rfl⟩ := List.mem_map.mp h
  obtain ⟨hmem, hvisible⟩ := List.mem_filter.mp hs
  simp only [isVisible, Bool.and_eq_true, decide_eq_true_eq] at hvisible
  obtain ⟨⟨hvalid, hlo⟩, hhi⟩ := hvisible
  obtain ⟨hgrid, hvalue⟩ := mem_grid_of_mem_along hmem
  exact ⟨hgrid, (hvalue hvalid).1, (hvalue hvalid).2, hlo, hhi⟩

theorem pairwise_visiblePoints_along (hgrid : grid.Pairwise (· ≤ ·)) (hself : ∀ x ∈ grid, x ≤ x)
    (lo hi : Float) : (visiblePoints lo hi (along curve grid)).Pairwise fun p q => p.x ≤ q.x := by
  rw [visiblePoints, List.pairwise_map]
  exact (pairwise_along hgrid hself).filter _

/-- A curve of finite values shows every point of its grid that is high and low enough. -/
theorem visiblePoints_along_of_finite {f : Float → Float} (hcurve : ∀ x ∈ grid, curve x = some (f x))
    (hfinite : ∀ x ∈ grid, (f x).isFinite = true) (lo hi : Float) :
    visiblePoints lo hi (along curve grid)
      = (grid.filter fun x => lo ≤ f x && f x ≤ hi).map fun x => ⟨x, f x⟩ := by
  have hvalid : ∀ o ∈ grid.map (fun x => (x, curve x)), isValid o = true := by
    intro o ho
    obtain ⟨x, hx, rfl⟩ := List.mem_map.mp ho
    rw [isValid, hcurve x hx]
    exact hfinite x hx
  have hshown : (along curve grid).map shown = grid.map fun x => (⟨x, f x⟩, true) := by
    rw [along, classify, map_shown_classifyAfter_of_valid hvalid, List.map_map]
    refine List.map_congr_left fun x hx => ?_
    rw [Function.comp_apply, shownOf, isValid, hcurve x hx]
    exact congrArg (Prod.mk _) (hfinite x hx)
  calc visiblePoints lo hi (along curve grid)
      = (((along curve grid).map shown).filter
          fun s => s.2 && lo ≤ s.1.y && s.1.y ≤ hi).map Prod.fst := by
        rw [List.filter_map, List.map_map]
        rfl
    _ = (grid.filter fun x => lo ≤ f x && f x ≤ hi).map fun x => ⟨x, f x⟩ := by
        rw [hshown, List.filter_map, List.map_map]
        rfl

end Along

end Sample

/-! ### The first and the last visible sample -/

namespace Landmark

section Ends

variable {lo hi : Float} {samples : List Sample} {first last : Point Float}

theorem separate_pair (p q : Point Float) :
    separate [p, q] = if p.near Point.nearTolerance q then [p] else [p, q] := by
  simp [separate]

theorem insertZero_perm (zero : Point Float) (points : List (Point Float)) :
    (insertZero zero points).Perm (zero :: points) := by
  unfold insertZero
  split
  · exact List.Perm.swap _ _ _
  · exact List.perm_append_singleton _ _

theorem ends_of_visible (hfirst : (Sample.visiblePoints lo hi samples).head? = some first)
    (hlast : (Sample.visiblePoints lo hi samples).getLast? = some last) :
    ends lo hi samples = separate [first.rounded, last.rounded] := by
  rw [Sample.visiblePoints] at hfirst hlast
  rw [List.head?_map, Option.map_eq_some_iff] at hfirst
  rw [List.getLast?_map, Option.map_eq_some_iff] at hlast
  obtain ⟨s, hs, rfl⟩ := hfirst
  obtain ⟨t, ht, rfl⟩ := hlast
  simp only [ends, hs, ht]

theorem ends_cases (lo hi : Float) (samples : List Sample) :
    Sample.visiblePoints lo hi samples = [] ∧ ends lo hi samples = [] ∨
      ∃ first last, (Sample.visiblePoints lo hi samples).head? = some first ∧
        (Sample.visiblePoints lo hi samples).getLast? = some last ∧
        ends lo hi samples = separate [first.rounded, last.rounded] := by
  cases hvisible : Sample.visiblePoints lo hi samples with
  | nil =>
    refine Or.inl ⟨rfl, ?_⟩
    simp only [ends, List.map_eq_nil_iff.mp hvisible, List.head?_nil]
  | cons first rest =>
    have hlast := List.getLast?_eq_some_getLast (List.cons_ne_nil first rest)
    refine Or.inr ⟨first, _, rfl, hlast, ends_of_visible ?_ ?_⟩
    · rw [hvisible]
      rfl
    · rw [hvisible]
      exact hlast

end Ends

end Landmark

end FunctionGraph
