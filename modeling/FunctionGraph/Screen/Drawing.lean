import FunctionGraph.Axis.Canvas
import FunctionGraph.Plot.Pass

/-!
# Drawings

What a plot puts on the screen, in the order of drawing: the axis lines that are in sight, and for
each function its polylines, the markers of its landmarks and their labels. The landmarks are listed
in a pane beside the plot as well.
-/

namespace FunctionGraph

structure Pen where
  color : String
  width : Nat
  deriving DecidableEq, Repr

inductive Item where
  /-- An endless line through zero; the angle is in degrees. -/
  | line (angle : Nat) (pen : Pen)
  | curve (pen : Pen) (vertices : Polyline)
  | markers (points : List (Point Float)) (size : Nat) (fill : String) (outline : Pen)
  /-- A text that is centred on a point. -/
  | caption (text : String) (color : String) (point : Point Float)

namespace Drawing

def axisPen : Pen := ⟨"#2c3e50", 2⟩

def captionColor : String := "#2c3e50"

def curveWidth : Nat := 3

def markerSize : Nat := 12

def markerOutline : Pen := ⟨"w", 2⟩

/-- The axis lines that cross the bounds, the vertical one first. -/
def axes (b : Bounds Float) : List Item :=
  (if b.xMin ≤ 0 && 0 ≤ b.xMax then [.line 90 axisPen] else [])
    ++ (if b.yMin ≤ 0 && 0 ≤ b.yMax then [.line 0 axisPen] else [])

/-- A landmark is marked when the canvas shows the place where it falls. -/
def isMarked (c : Canvas Float) (b : Bounds Float) (p : Point Float) : Bool :=
  match c.place b p with
  | .ok place => c.shows place
  | .error _ => false

def caption? (lift : Float) (p : Point Float) : Option Item :=
  (p.label Point.labelSeparator).toOption.map fun label =>
    .caption label captionColor ⟨p.x, p.y + lift⟩

/-- The markers of a function, and a label above each. -/
def landmarks (c : Canvas Float) (b : Bounds Float) (t : Trace) : List Item :=
  let marked := t.landmarks.filter (isMarked c b)
  if marked.isEmpty then []
  else
    .markers marked markerSize t.color markerOutline :: marked.filterMap (caption? (c.labelLift b))

def trace (c : Canvas Float) (b : Bounds Float) (t : Trace) : List Item :=
  t.segments.map (.curve ⟨t.color, curveWidth⟩) ++ landmarks c b t

def items (c : Canvas Float) (plot : Plot) : List Item :=
  axes plot.bounds ++ plot.traces.flatMap (trace c plot.bounds)

/-- The entry of a function in the list of landmarks. -/
def block (t : Trace) : Except Fault String := do
  let labels ← t.landmarks.mapM (Point.label ", ")
  return t.expression ++ ":\n    " ++ String.intercalate ", " labels

/-- The list of the landmarks of all functions that have some. -/
def summary (plot : Plot) : Except Fault String := do
  let blocks ← (plot.traces.filter fun t => !t.landmarks.isEmpty).mapM block
  return if blocks.isEmpty then "No significant points found"
    else String.intercalate "\n\n" blocks

end Drawing

end FunctionGraph
