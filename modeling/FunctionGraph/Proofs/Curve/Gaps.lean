import FunctionGraph.Proofs.Curve.Runs

/-!
# Cutting at gaps

Whatever the samples are, cutting them keeps nothing but the open run from one sample to the next. What a
part of the samples contributes is therefore its finished polylines and the run that it leaves open. A
sample that is not visible, or that carries a closing mark, leaves no run open, so what is behind it is
cut as if it stood alone.
-/

namespace FunctionGraph.Polyline

section Parts

variable (same : Point Float → Point Float → Bool) (lo hi : Float)

def endsRun (s : Sample) : Bool :=
  !s.isVisible lo hi || s.closes

/-- The run that is open behind the sample, held in reverse. -/
def openBehind (run : List (Point Float)) (s : Sample) : List (Point Float) :=
  if endsRun lo hi s then [] else extend same lo hi run s

/-- The run that is open behind all of the samples. -/
def openAfter (run : List (Point Float)) (samples : List Sample) : List (Point Float) :=
  samples.foldl (openBehind same lo hi) run

/-- The polylines that are finished within the samples. -/
def finished (run : List (Point Float)) : List Sample → List Polyline
  | [] => []
  | s :: rest =>
    (if endsRun lo hi s then finish (extend same lo hi run s) else [])
      ++ finished (openBehind same lo hi run s) rest

end Parts

section Gaps

variable {same : Point Float → Point Float → Bool} {lo hi : Float} {s : Sample}

/-- What cutting does at one sample. -/
theorem cutAfter_cons (run : List (Point Float)) (s : Sample) (rest : List Sample) :
    cutAfter same lo hi run (s :: rest)
      = (if endsRun lo hi s then finish (extend same lo hi run s) else [])
        ++ cutAfter same lo hi (openBehind same lo hi run s) rest := by
  by_cases h : endsRun lo hi s = true
  · rw [openBehind, if_pos h, if_pos h, cutAfter]
    exact if_pos h
  · rw [openBehind, if_neg h, if_neg h, cutAfter]
    exact if_neg h

/-- The samples in front matter to those behind by the run they leave open, and by nothing else. -/
theorem cutAfter_append (run : List (Point Float)) (before behind : List Sample) :
    cutAfter same lo hi run (before ++ behind)
      = finished same lo hi run before
        ++ cutAfter same lo hi (openAfter same lo hi run before) behind := by
  induction before generalizing run with
  | nil => rfl
  | cons s rest ih =>
    rw [List.cons_append, cutAfter_cons, ih, finished, List.append_assoc]
    rfl

/-- The end of the samples finishes the run that they leave open. -/
theorem cutWith_eq (samples : List Sample) :
    cutWith same lo hi samples
      = finished same lo hi [] samples ++ finish (openAfter same lo hi [] samples) := by
  have hwhole : cutAfter same lo hi [] (samples ++ []) = _ := cutAfter_append [] samples []
  rwa [List.append_nil, cutAfter] at hwhole

/-- Behind a sample that ends the run, cutting starts anew. -/
theorem cutWith_append_of_endsRun (h : endsRun lo hi s = true) (before behind : List Sample) :
    cutWith same lo hi (before ++ [s] ++ behind)
      = cutWith same lo hi (before ++ [s]) ++ cutWith same lo hi behind := by
  have hopen : openAfter same lo hi [] (before ++ [s]) = [] := by
    rw [openAfter, List.foldl_concat]
    exact if_pos h
  have hnone : finish [] = [] := rfl
  calc cutWith same lo hi (before ++ [s] ++ behind)
      = finished same lo hi [] (before ++ [s]) ++ cutAfter same lo hi [] behind := by
        rw [cutWith, cutAfter_append, hopen]
    _ = cutWith same lo hi (before ++ [s]) ++ cutWith same lo hi behind := by
        rw [cutWith_eq (before ++ [s]), hopen, hnone, List.append_nil, cutWith]

/-- A sample that is not visible ends the run just as the end of the samples does. -/
theorem cutWith_concat_of_not_visible (h : s.isVisible lo hi = false) (before : List Sample) :
    cutWith same lo hi (before ++ [s]) = cutWith same lo hi before := by
  have hnone : finish [] = [] := rfl
  rw [cutWith, cutAfter_append, cutAfter_of_not_visible h, cutAfter, hnone, List.append_nil,
    ← cutWith_eq]

/-- **Gaps.** Samples that are apart are cut apart: a sample that is not visible belongs to no polyline
and separates the samples in front of it from those behind, and a closing mark separates those up to
itself. This holds for any samples, and for any way to tell whether a mark repeats a vertex. -/
theorem cutWith_append_gap (same : Point Float → Point Float → Bool) (lo hi : Float)
    (before behind : List Sample) (gap : Sample) :
    (gap.isVisible lo hi = false →
      cutWith same lo hi (before ++ [gap] ++ behind)
        = cutWith same lo hi before ++ cutWith same lo hi behind) ∧
    (gap.closes = true →
      cutWith same lo hi (before ++ [gap] ++ behind)
        = cutWith same lo hi (before ++ [gap]) ++ cutWith same lo hi behind) := by
  constructor
  · intro hgap
    have hends : endsRun lo hi gap = true := by
      rw [endsRun, hgap]
      rfl
    rw [cutWith_append_of_endsRun hends, cutWith_concat_of_not_visible hgap]
  · intro hgap
    apply cutWith_append_of_endsRun
    rw [endsRun, hgap, Bool.or_true]

/-- A value that is too high separates two lines, and a closing mark that repeats no vertex belongs to
the line in front of it. -/
theorem cutWith_append_gap_between_lines :
    let line (x : Float) : List Sample := [⟨x, 0, true, true, false⟩, ⟨x + 1, 0, true, false, false⟩]
    let high : Sample := ⟨2, 9, true, false, false⟩
    let mark : Sample := ⟨2, 0, true, false, true⟩
    high.isVisible (-1) 1 = false ∧
      cutWith coincides (-1) 1 (line 0 ++ [high] ++ line 3) = [[⟨0, 0⟩, ⟨1, 0⟩], [⟨3, 0⟩, ⟨4, 0⟩]] ∧
      mark.closes = true ∧
      cutWith coincides (-1) 1 (line 0 ++ [mark] ++ line 3)
        = [[⟨0, 0⟩, ⟨1, 0⟩, ⟨2, 0⟩], [⟨3, 0⟩, ⟨4, 0⟩]] := by
  intro line high mark
  have hhigh : high.isVisible (-1) 1 = false := by decide +kernel
  have hmark : mark.closes = true := rfl
  refine ⟨hhigh, ?_, hmark, ?_⟩
  · rw [(cutWith_append_gap coincides (-1) 1 (line 0) (line 3) high).1 hhigh]
    decide +kernel
  · rw [(cutWith_append_gap coincides (-1) 1 (line 0) (line 3) mark).2 hmark]
    decide +kernel

end Gaps

end FunctionGraph.Polyline
