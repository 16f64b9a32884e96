import FunctionGraph.Axis.Bounds
import FunctionGraph.Curve.Sample

/-!
# Landmarks

The significant points of a curve, which are marked and labelled: its visible ends and its value at
zero, with two decimals.
-/

namespace FunctionGraph.Landmark

/-- Drops every point that is near one kept before it. -/
def separate (points : List (Point Float)) : List (Point Float) :=
  points.foldl
    (fun kept p => if kept.any (·.near Point.nearTolerance p) then kept else kept ++ [p]) []

/-- The first and the last sample that is visible between `lo` and `hi`. -/
def ends (lo hi : Float) (samples : List Sample) : List (Point Float) :=
  let visible := samples.filter (Sample.isVisible lo hi)
  match visible.head?, visible.getLast? with
  | some first, some last => separate [first.point.rounded, last.point.rounded]
  | _, _ => []

/-- The point of a curve at zero, from the value it has there. -/
def atZero (value : Option Float) : Option (Point Float) :=
  match value with
  | some y => if y.isFinite then some ⟨0, Scalar.roundHundredths y⟩ else none
  | none => none

/-- The point lies between the left and the right end, and no lower or higher than the plot. -/
def isInside (b : Bounds Float) (p : Point Float) : Bool :=
  b.xMin < p.x && p.x < b.xMax && b.yMin ≤ p.y && p.y ≤ b.yMax

/-- Puts the point at zero between two ends, or behind fewer. -/
def insertZero (zero : Point Float) : List (Point Float) → List (Point Float)
  | first :: second :: rest => first :: zero :: second :: rest
  | points => points ++ [zero]

/-- Adds the point at zero when it is on the screen. -/
def withZero (b : Bounds Float) (points : List (Point Float)) (zero : Option (Point Float)) :
    List (Point Float) :=
  match zero with
  | some zero => if zero.y.isFinite && isInside b zero then insertZero zero points else points
  | none => points

end FunctionGraph.Landmark
