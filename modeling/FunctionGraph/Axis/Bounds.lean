import FunctionGraph.Curve.Point
import FunctionGraph.Number.Reading

/-!
# Axis bounds

The rectangle of the plane that is shown. It can be plotted when its bounds are finite, ascend on both
axes, and are not farther apart than the largest double.
-/

namespace FunctionGraph

structure Bounds (α : Type) where
  xMin : α
  xMax : α
  yMin : α
  yMax : α
  deriving DecidableEq, Repr

namespace Bounds

variable {α : Type} [Scalar α]

def width (b : Bounds α) : α :=
  b.xMax - b.xMin

def height (b : Bounds α) : α :=
  b.yMax - b.yMin

def initial : Bounds Float :=
  ⟨-10, 10, -10, 10⟩

inductive Side where
  | xMin
  | xMax
  | yMin
  | yMax
  deriving DecidableEq, Repr

def Side.name : Side → String
  | .xMin => "x_min"
  | .xMax => "x_max"
  | .yMin => "y_min"
  | .yMax => "y_max"

def side (b : Bounds α) : Side → α
  | .xMin => b.xMin
  | .xMax => b.xMax
  | .yMin => b.yMin
  | .yMax => b.yMax

inductive Unusable where
  | notFinite (side : Side) (value : Float)
  | notAscending (lower upper : Side) (lo hi : Float)
  | spanNotFinite
  deriving DecidableEq

def Unusable.message : Unusable → String
  | .notFinite side value => side.name ++ " must be a finite number, got " ++ Number.text value
  | .notAscending lower upper lo hi =>
    lower.name ++ " (" ++ Number.text lo ++ ") must be < " ++ upper.name ++ " (" ++ Number.text hi
      ++ ")"
  | .spanNotFinite => "axis span must be a finite number"

/-- The bounds themselves, when they can be plotted. -/
def checked (b : Bounds Float) : Except Unusable (Bounds Float) :=
  match [Side.xMin, .xMax, .yMin, .yMax].find? fun side => !(b.side side).isFinite with
  | some side => .error (.notFinite side (b.side side))
  | none =>
    if b.xMin ≥ b.xMax then .error (.notAscending .xMin .xMax b.xMin b.xMax)
    else if b.yMin ≥ b.yMax then .error (.notAscending .yMin .yMax b.yMin b.yMax)
    else if b.width.isFinite && b.height.isFinite then .ok b
    else .error .spanNotFinite

def ofTexts (texts : Bounds String) : Except Unusable (Bounds Float) :=
  checked
    ⟨Number.read texts.xMin.toList, Number.read texts.xMax.toList, Number.read texts.yMin.toList,
      Number.read texts.yMax.toList⟩

def toTexts (b : Bounds Float) : Except Fault (Bounds String) := do
  return ⟨← Number.label b.xMin, ← Number.label b.xMax, ← Number.label b.yMin,
    ← Number.label b.yMax⟩

end Bounds

end FunctionGraph
