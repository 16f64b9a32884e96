import FunctionGraph.Curve.Grid
import FunctionGraph.Curve.Landmark
import FunctionGraph.Curve.Segment
import FunctionGraph.Plot.FunctionList

/-!
# Plot passes

One pass samples every enabled function over the bounds, cuts the samples into polylines and finds the
points to mark. A pass computes everything anew.
-/

namespace FunctionGraph

structure Trace where
  expression : String
  color : String
  samples : List Sample
  segments : List Polyline
  landmarks : List (Point Float)

structure Plot where
  bounds : Bounds Float
  traces : List Trace

namespace Plot

/-- How many intervals a plotted function is sampled at. -/
def intervals : Nat := 800

def outcome (formula : Formula) (x : Float) : Option Float :=
  (formula.evaluate x).toOption

def trace (bounds : Bounds Float) (entry : Entry) : Trace :=
  let curve := outcome entry.formula
  let samples := Sample.along curve (Grid.points bounds.xMin bounds.xMax intervals)
  let ends := Landmark.ends bounds.yMin bounds.yMax samples
  { expression := entry.expression
    color := entry.color
    samples
    segments := Polyline.cut bounds.yMin bounds.yMax samples
    landmarks := Landmark.withZero bounds ends (Landmark.atZero (curve 0)) }

/-- Plots the enabled functions over bounds that can be plotted. -/
def pass (entries : List Entry) (bounds : Bounds Float) : Plot :=
  ⟨bounds, (entries.filter Entry.enabled).map (trace bounds)⟩

def checkedPass (entries : List Entry) (bounds : Bounds Float) :
    Except Bounds.Unusable Plot := do
  return pass entries (← bounds.checked)

end Plot

end FunctionGraph
