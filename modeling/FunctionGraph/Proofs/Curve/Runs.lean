import FunctionGraph.Curve.Grid
import FunctionGraph.Curve.Segment
import Mathlib.Data.List.Chain

/-!
# What is drawn of a curve

Sampling repeats the last sample of a run as a mark, and cutting takes a repeated vertex for a mark.
Neither shows in what is drawn: the polylines are the maximal runs of visible vertices, whatever pattern
of values and failures there is along the grid.
-/

namespace FunctionGraph

/-! ### A vertex repeats itself -/

open Float.Model (UnpackedFloat) in
theorem beq_self_or_isNaN (a : Float) : (a == a) = true ∨ a.isNaN = true := by
  change a.toModel.unpack.beq a.toModel.unpack = true ∨ a.toModel.unpack.isNaN = true
  cases a.toModel.unpack with
  | notANumber => exact Or.inr rfl
  | infinity sign =>
    refine Or.inl ?_
    cases sign <;> rfl
  | zero sign => exact Or.inl rfl
  | finite sign mantissa exponent h =>
    refine Or.inl ?_
    have hexponent : compare exponent exponent = .eq := Std.ReflCmp.compare_self
    have hmantissa : compare mantissa mantissa = .eq := Std.ReflCmp.compare_self
    cases sign with
    | positive =>
      change (some ((compare exponent exponent).then (compare mantissa mantissa)) == some .eq) = true
      rw [hexponent, hmantissa]
      rfl
    | negative =>
      change (some ((compare exponent exponent).then (compare mantissa mantissa)).swap
        == some .eq) = true
      rw [hexponent, hmantissa]
      rfl

namespace Polyline

theorem sameCoordinate_self (a : Float) : sameCoordinate a a = true := by
  rw [sameCoordinate, Bool.and_self, Bool.or_eq_true]
  exact beq_self_or_isNaN a

theorem repeats_self (p : Point Float) : repeats p p = true := by
  rw [repeats, sameCoordinate_self, sameCoordinate_self]
  rfl

/-! ### The marks cancel -/

/-- What is drawn of an outcome: a vertex, when there is a value that is finite and within the bounds. -/
def vertex? (lo hi : Float) : Float × Option Float → Option (Point Float)
  | (x, some y) => if y.isFinite && lo ≤ y && y ≤ hi then some ⟨x, y⟩ else none
  | (_, none) => none

/-- The polylines of the vertices behind an open run, held in reverse. -/
def pieces (run : List (Point Float)) : List (Option (Point Float)) → List Polyline
  | [] => finish run
  | none :: rest => finish run ++ pieces [] rest
  | some vertex :: rest => pieces (vertex :: run) rest

section Marks

variable {lo hi : Float} {run : List (Point Float)}

/-- The latest sample ends the open run, when it is visible. -/
def HoldsLast (lo hi : Float) (run : List (Point Float)) (last : Option Sample) : Prop :=
  ∀ s ∈ last, s.isVisible lo hi = true → run.head? = some s.point

theorem extend_closing {s : Sample} (h : HoldsLast lo hi run (some s)) :
    extend repeats lo hi run { s with closes := true } = run := by
  have hvisible : Sample.isVisible lo hi { s with closes := true } = s.isVisible lo hi := rfl
  rw [extend, hvisible]
  by_cases hs : s.isVisible lo hi = true
  · have hhead := h s rfl hs
    have hrepeats : run.head?.any (repeats · s.point) = true := by
      rw [hhead]
      exact repeats_self s.point
    have hpoint : Sample.point { s with closes := true } = s.point := rfl
    rw [hpoint, hrepeats]
    simp
  · simp [hs]

theorem cutAfter_of_not_visible {same : Point Float → Point Float → Bool} {s : Sample}
    (hs : s.isVisible lo hi = false) (run : List (Point Float)) (rest : List Sample) :
    cutAfter same lo hi run (s :: rest) = finish run ++ cutAfter same lo hi [] rest := by
  rw [cutAfter, hs, extend, hs]
  rfl

theorem cutAfter_of_visible {same : Point Float → Point Float → Bool} {s : Sample}
    (hs : s.isVisible lo hi = true) (hcloses : s.closes = false) (run : List (Point Float))
    (rest : List Sample) :
    cutAfter same lo hi run (s :: rest) = cutAfter same lo hi (s.point :: run) rest := by
  rw [cutAfter, hs, extend, hs, hcloses]
  rfl

/-- A mark in front of a sample that is not visible ends the run, which the sample would do anyway. -/
theorem cutAfter_closing {last : Option Sample} (h : HoldsLast lo hi run last) {s : Sample}
    (hs : s.isVisible lo hi = false) (rest : List Sample) :
    cutAfter repeats lo hi run (Sample.closing last ++ s :: rest)
      = finish run ++ cutAfter repeats lo hi [] rest := by
  have hnone : cutAfter repeats lo hi run (s :: rest) = _ := cutAfter_of_not_visible hs run rest
  cases last with
  | none => exact hnone
  | some t =>
    rw [Sample.closing]
    by_cases hvalid : t.valid = true
    · have hempty : finish [] = [] := rfl
      rw [if_pos hvalid, List.singleton_append, cutAfter, extend_closing h,
        cutAfter_of_not_visible hs [] rest, hempty]
      simp
    · rw [if_neg hvalid]
      exact hnone

/-- Sampling and cutting a pattern of outcomes comes down to its vertices. -/
theorem cutAfter_classifyAfter {last : Option Sample} (h : HoldsLast lo hi run last)
    (outcomes : List (Float × Option Float)) :
    cutAfter repeats lo hi run (Sample.classifyAfter last outcomes)
      = pieces run (outcomes.map (vertex? lo hi)) := by
  induction outcomes generalizing run last with
  | nil => rfl
  | cons outcome rest ih =>
    obtain ⟨x, _ | y⟩ := outcome
    · have hhidden : Sample.isVisible lo hi ⟨x, Number.nan, false, false, false⟩ = false := rfl
      rw [Sample.classifyAfter, cutAfter_closing h hhidden, ih (fun s hs => by contradiction)]
      rfl
    · have hvertex : vertex? lo hi (x, some y)
          = if Sample.isVisible lo hi ⟨x, y, y.isFinite, false, false⟩ then some ⟨x, y⟩ else none :=
        rfl
      have hopens : Sample.isVisible lo hi
          ⟨x, y, y.isFinite, Sample.opensAfter last y.isFinite, false⟩
            = Sample.isVisible lo hi ⟨x, y, y.isFinite, false, false⟩ := rfl
      rw [Sample.classifyAfter, List.map_cons, hvertex]
      by_cases hs : Sample.isVisible lo hi ⟨x, y, y.isFinite, false, false⟩ = true
      · have hfinite : y.isFinite = true := by
          simp only [Sample.isVisible, Bool.and_eq_true] at hs
          exact hs.1.1
        rw [if_pos hs, if_pos hfinite, List.nil_append, cutAfter_of_visible (hopens.trans hs) rfl,
          pieces]
        apply ih
        rintro s ⟨⟩ -
        rfl
      · rw [Bool.not_eq_true] at hs
        have hhidden : HoldsLast lo hi [] (some ⟨x, y, y.isFinite, false, false⟩) := by
          rintro s ⟨⟩ hvisible
          rw [hs] at hvisible
          contradiction
        rw [hs, if_neg Bool.false_ne_true, pieces, ← ih hhidden]
        by_cases hfinite : y.isFinite = true
        · rw [if_pos hfinite, List.nil_append]
          exact cutAfter_of_not_visible (hopens.trans hs) run _
        · rw [if_neg hfinite]
          exact cutAfter_closing h (hopens.trans hs) _

end Marks

end Polyline

/-! ### Runs of vertices -/

section Runs

variable {α : Type}

def Shows (vertices : List (Option α)) (i : Nat) : Prop :=
  ∃ vertex, vertices[i]? = some (some vertex)

/-- From `start` on and before `stop` there are only vertices, and there is none right before them and
none right behind. -/
structure IsRun (vertices : List (Option α)) (start stop : Nat) : Prop where
  inside : ∀ i, start ≤ i → i < stop → Shows vertices i
  before : ∀ i, i + 1 = start → ¬Shows vertices i
  behind : ¬Shows vertices stop

/-- The runs of two or more vertices from `first` on, in order. -/
structure AreRunsFrom (vertices : List (Option α)) (first : Nat) (runs : List (Nat × Nat)) :
    Prop where
  mem_iff : ∀ start stop, (start, stop) ∈ runs
    ↔ first ≤ start ∧ start + 2 ≤ stop ∧ IsRun vertices start stop
  sorted : runs.Pairwise fun a b => a.2 < b.1

def slice (vertices : List α) (run : Nat × Nat) : List α :=
  (vertices.drop run.1).take (run.2 - run.1)

theorem Shows.lt_length {vertices : List (Option α)} {i : Nat} (h : Shows vertices i) :
    i < vertices.length := by
  obtain ⟨vertex, hvertex⟩ := h
  exact (List.getElem?_eq_some_iff.mp hvertex).1

section Block

variable {before : List (Option α)} {block : List α} {rest : List (Option α)}

theorem shows_block {i : Nat} (hlow : before.length ≤ i) (hhigh : i < before.length + block.length) :
    Shows (before ++ (block.map some ++ rest)) i := by
  have hi : i - before.length < block.length := by omega
  refine ⟨block[i - before.length], ?_⟩
  rw [List.getElem?_append_right hlow, List.getElem?_append_left (by simpa using hi),
    List.getElem?_map, List.getElem?_eq_getElem hi]
  rfl

theorem not_shows_before (h : ∀ vertex, before.getLast? ≠ some (some vertex)) {i : Nat}
    (hi : i + 1 = before.length) : ¬Shows (before ++ (block.map some ++ rest)) i := by
  rintro ⟨vertex, hvertex⟩
  apply h vertex
  rw [List.getElem?_append_left (by omega)] at hvertex
  rw [List.getLast?_eq_getElem?, ← hi, Nat.add_sub_cancel, hvertex]

theorem not_shows_behind (h : ∀ vertex, rest.head? ≠ some (some vertex)) :
    ¬Shows (before ++ (block.map some ++ rest)) (before.length + block.length) := by
  rintro ⟨vertex, hvertex⟩
  apply h vertex
  rw [List.getElem?_append_right (by omega), List.getElem?_append_right (by simp)] at hvertex
  rw [List.head?_eq_getElem?, ← hvertex]
  simp

/-- A run that begins in the block, or right behind it, is the block. -/
theorem isRun_block_iff (hbefore : ∀ vertex, before.getLast? ≠ some (some vertex))
    (hrest : ∀ vertex, rest.head? ≠ some (some vertex)) {start stop : Nat}
    (hlow : before.length ≤ start) (hhigh : start ≤ before.length + block.length)
    (hlong : start + 2 ≤ stop) :
    IsRun (before ++ (block.map some ++ rest)) start stop
      ↔ start = before.length ∧ stop = before.length + block.length := by
  constructor
  · intro h
    have hstart : start = before.length := by
      by_contra hne
      exact h.before (start - 1) (by omega) (shows_block (by omega) (by omega))
    refine ⟨hstart, ?_⟩
    by_contra hne
    rcases Nat.lt_or_gt_of_ne hne with hless | hmore
    · exact h.behind (shows_block (by omega) hless)
    · exact not_shows_behind hrest (h.inside _ hhigh hmore)
  · rintro ⟨rfl, rfl⟩
    exact ⟨fun i hi hi' => shows_block hi hi', fun i hi => not_shows_before hbefore hi,
      not_shows_behind hrest⟩

theorem slice_block : slice (before ++ (block.map some ++ rest))
    (before.length, before.length + block.length) = block.map some := by
  rw [slice, List.drop_left, Nat.add_sub_cancel_left]
  exact List.take_left' (by simp)

def blockRuns (first length : Nat) : List (Nat × Nat) :=
  if length < 2 then [] else [(first, first + length)]

theorem mem_blockRuns_iff {first length start stop : Nat} :
    (start, stop) ∈ blockRuns first length
      ↔ 2 ≤ length ∧ start = first ∧ stop = first + length := by
  rw [blockRuns]
  by_cases hshort : length < 2
  · simp [hshort]
  · simp [hshort, Nat.le_of_not_lt hshort]

/-- The block comes first, and the runs behind it follow. -/
theorem AreRunsFrom.prepend (hbefore : ∀ vertex, before.getLast? ≠ some (some vertex))
    (hrest : ∀ vertex, rest.head? ≠ some (some vertex)) {runs : List (Nat × Nat)}
    (h : AreRunsFrom (before ++ (block.map some ++ rest)) (before.length + block.length + 1) runs) :
    AreRunsFrom (before ++ (block.map some ++ rest)) before.length
      (blockRuns before.length block.length ++ runs) := by
  refine ⟨?_, List.pairwise_append.mpr ⟨?_, h.sorted, ?_⟩⟩
  · intro start stop
    rw [List.mem_append, mem_blockRuns_iff, h.mem_iff]
    by_cases hhigh : start ≤ before.length + block.length
    · constructor
      · rintro (⟨hlong, rfl, rfl⟩ | ⟨hlow, -⟩)
        · refine ⟨Nat.le_refl _, by omega, ?_⟩
          exact (isRun_block_iff hbefore hrest (Nat.le_refl _) hhigh (by omega)).mpr ⟨rfl, rfl⟩
        · omega
      · rintro ⟨hlow, hlong, hrun⟩
        obtain ⟨hstart, hstop⟩ := (isRun_block_iff hbefore hrest hlow hhigh hlong).mp hrun
        exact Or.inl ⟨by omega, hstart, hstop⟩
    · constructor
      · rintro (⟨-, rfl, -⟩ | ⟨hlow, hlong, hrun⟩)
        · omega
        · exact ⟨by omega, hlong, hrun⟩
      · rintro ⟨-, hlong, hrun⟩
        exact Or.inr ⟨by omega, hlong, hrun⟩
  · rw [blockRuns]
    split
    · exact List.Pairwise.nil
    · exact List.pairwise_singleton _ _
  · rintro ⟨start, stop⟩ hblock ⟨start', stop'⟩ hrun
    obtain ⟨-, -, rfl⟩ := mem_blockRuns_iff.mp hblock
    exact ((h.mem_iff start' stop').mp hrun).1

theorem areRunsFrom_length (vertices : List (Option α)) {first : Nat}
    (h : vertices.length ≤ first) : AreRunsFrom vertices first [] := by
  refine ⟨?_, List.Pairwise.nil⟩
  intro start stop
  refine iff_of_false List.not_mem_nil ?_
  rintro ⟨hlow, hlong, hrun⟩
  have hlength := (hrun.inside start (Nat.le_refl _) (by omega)).lt_length
  omega

end Block

end Runs

namespace Polyline

theorem map_finish (before : List (Option (Point Float))) (run : List (Point Float))
    (rest : List (Option (Point Float))) :
    (finish run).map (List.map some) = (blockRuns before.length run.reverse.length).map
      (slice (before ++ (run.reverse.map some ++ rest))) := by
  rw [finish, blockRuns, List.length_reverse]
  split
  · rfl
  · have hslice : slice (before ++ (run.reverse.map some ++ rest)) _ = _ := slice_block
    rw [List.length_reverse] at hslice
    rw [List.map_singleton, List.map_singleton, hslice]

theorem exists_runs_pieces {before : List (Option (Point Float))}
    (hbefore : ∀ vertex, before.getLast? ≠ some (some vertex)) (run : List (Point Float))
    (rest : List (Option (Point Float))) :
    ∃ runs, AreRunsFrom (before ++ (run.reverse.map some ++ rest)) before.length runs
      ∧ (pieces run rest).map (List.map some)
        = runs.map (slice (before ++ (run.reverse.map some ++ rest))) := by
  induction rest generalizing before run with
  | nil =>
    have hnone : AreRunsFrom (before ++ (run.reverse.map some ++ []))
        (before.length + run.reverse.length + 1) [] := by
      apply areRunsFrom_length
      simp
    refine ⟨_, hnone.prepend hbefore (by simp), ?_⟩
    rw [pieces, map_finish before run [], List.append_nil (blockRuns _ _)]
  | cons vertex rest ih =>
    cases vertex with
    | some vertex =>
      have hwhole : before ++ (run.reverse.map some ++ some vertex :: rest)
          = before ++ ((vertex :: run).reverse.map some ++ rest) := by simp
      rw [hwhole, pieces]
      exact ih hbefore (vertex :: run)
    | none =>
      -- The runs behind the gap are found with all that precedes it in front of them.
      have hwhole : before ++ (run.reverse.map some ++ none :: rest)
          = (before ++ run.reverse.map some ++ [none]) ++ (([] : List (Point Float)).reverse.map some
            ++ rest) := by simp
      have hlength : (before ++ run.reverse.map some ++ [none]).length
          = before.length + run.reverse.length + 1 := by
        simp only [List.length_append, List.length_map, List.length_singleton]
      have hgap : ∀ vertex,
          (before ++ run.reverse.map some ++ [none]).getLast? ≠ some (some vertex) := by
        simp
      obtain ⟨runs, hruns, hpieces⟩ := ih hgap []
      rw [← hwhole] at hruns hpieces
      rw [hlength] at hruns
      refine ⟨_, hruns.prepend hbefore (by simp), ?_⟩
      rw [pieces, List.map_append, List.map_append, hpieces, map_finish before run (none :: rest)]

/-- The polylines are the runs of two or more vertices, in order. -/
def DrawsRuns (vertices : List (Option (Point Float))) (polylines : List Polyline) : Prop :=
  ∃ runs, AreRunsFrom vertices 0 runs
    ∧ polylines.map (List.map some) = runs.map (slice vertices)

theorem drawsRuns_cut_classify (lo hi : Float) (outcomes : List (Float × Option Float)) :
    DrawsRuns (outcomes.map (vertex? lo hi)) (cut lo hi (Sample.classify outcomes)) := by
  have hnone : HoldsLast lo hi [] none := fun s hs => by contradiction
  rw [cut, cutWith, Sample.classify, cutAfter_classifyAfter hnone]
  have hbefore : ∀ vertex, ([] : List (Option (Point Float))).getLast? ≠ some (some vertex) := by
    simp
  exact exists_runs_pieces hbefore [] (outcomes.map (vertex? lo hi))

/-- **What is drawn.** Along the grid of any domain, and for any pattern of values and failures there,
the polylines are the runs of two or more neighbouring points whose value is finite and within the
bounds. Every vertex of a run is drawn once, and runs that are apart stay apart. -/
theorem cut_along_drawsRuns (curve : Float → Option Float) (xMin xMax yMin yMax : Float)
    {intervals : Int} (h : 1 ≤ intervals) :
    ∃ grid, Grid.points? xMin xMax intervals = .ok grid
      ∧ grid.length = intervals.toNat + 1
      ∧ DrawsRuns (grid.map fun x => vertex? yMin yMax (x, curve x))
        (cut yMin yMax (Sample.along curve grid))
      ∧ ∀ outcomes : List (Float × Option Float), outcomes.map Prod.fst = grid →
        DrawsRuns (outcomes.map (vertex? yMin yMax)) (cut yMin yMax (Sample.classify outcomes)) := by
  refine ⟨Grid.points xMin xMax intervals.toNat, ?_, Grid.length_points _ _ _, ?_, ?_⟩
  · rw [Grid.points?, if_neg (by omega), if_neg (by omega)]
  · have hdraws := drawsRuns_cut_classify yMin yMax
      ((Grid.points xMin xMax intervals.toNat).map fun x => (x, curve x))
    rw [List.map_map] at hdraws
    exact hdraws
  · intro outcomes _
    exact drawsRuns_cut_classify yMin yMax outcomes

/-- The curve of `1/x` is cut in two where the division fails. -/
theorem cut_along_drawsRuns_of_reciprocal :
    1 ≤ (4 : Int) ∧ ∃ grid, Grid.points? (-2) 2 4 = .ok grid
      ∧ DrawsRuns (grid.map fun x => vertex? (-5) 5 (x, if x == 0 then none else some (1 / x)))
        (cut (-5) 5 (Sample.along (fun x => if x == 0 then none else some (1 / x)) grid)) := by
  have hintervals : 1 ≤ (4 : Int) := by decide
  obtain ⟨grid, hgrid, -, hdraws, -⟩ :=
    cut_along_drawsRuns (fun x => if x == 0 then none else some (1 / x)) (-2) 2 (-5) 5 hintervals
  exact ⟨hintervals, grid, hgrid, hdraws⟩

end Polyline

end FunctionGraph
