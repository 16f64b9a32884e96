import FunctionGraph.Curve.Sample

/-!
# Segments

A curve is drawn as polylines, one for each run of visible samples. A run ends at a sample that is not
visible and at a closing mark, and a run of one vertex is not drawn.
-/

namespace FunctionGraph

abbrev Polyline := List (Point Float)

namespace Polyline

/-- The coordinates are the same number, or both are none. -/
def sameCoordinate (a b : Float) : Bool :=
  a == b || (a.isNaN && b.isNaN)

/-- A closing mark of a sampled curve repeats its vertex, even where the grid has no number. -/
def repeats (p q : Point Float) : Bool :=
  sameCoordinate p.x q.x && sameCoordinate p.y q.y

/-- Points given by their numbers alone: a coordinate that is no number equals nothing. -/
def coincides (p q : Point Float) : Bool :=
  p.x == q.x && p.y == q.y

/-- A finished run, held in reverse, as the polylines it gives. -/
def finish (run : List (Point Float)) : List Polyline :=
  if run.length < 2 then [] else [run.reverse]

/-- The run with the sample at its end, unless the sample is not visible or is a closing mark that
repeats the vertex before it. -/
def extend (same : Point Float → Point Float → Bool) (lo hi : Float) (run : List (Point Float))
    (s : Sample) : List (Point Float) :=
  if s.isVisible lo hi && !(s.closes && run.head?.any (same · s.point)) then s.point :: run else run

/-- Cuts the samples behind an open run, held in reverse. -/
def cutAfter (same : Point Float → Point Float → Bool) (lo hi : Float) (run : List (Point Float)) :
    List Sample → List Polyline
  | [] => finish run
  | s :: rest =>
    if !s.isVisible lo hi || s.closes then
      finish (extend same lo hi run s) ++ cutAfter same lo hi [] rest
    else
      cutAfter same lo hi (extend same lo hi run s) rest

/-- The polylines of samples seen between `lo` and `hi`, where `same` tells whether a closing mark
repeats a vertex. -/
def cutWith (same : Point Float → Point Float → Bool) (lo hi : Float) (samples : List Sample) :
    List Polyline :=
  cutAfter same lo hi [] samples

def cut (lo hi : Float) (samples : List Sample) : List Polyline :=
  cutWith repeats lo hi samples

end Polyline

end FunctionGraph
