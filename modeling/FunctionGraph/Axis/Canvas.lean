import FunctionGraph.Axis.Bounds

/-!
# Canvases

How the plane is laid on a device: the bounds fill the canvas but for a margin on all four sides, and
the vertical axis points down.
-/

namespace FunctionGraph

structure Canvas (α : Type) where
  width : α
  height : α
  margin : α
  deriving DecidableEq, Repr

namespace Canvas

open Scalar (ofInt)

variable {α : Type} [Scalar α]

def standardMargin : α :=
  ofInt 40

def insideWidth (c : Canvas α) : α :=
  c.width - c.margin * ofInt 2

def insideHeight (c : Canvas α) : α :=
  c.height - c.margin * ofInt 2

/-- The distance of `x` from the left end of an axis that is `length` long. -/
def fromLeft (x lo hi length : α) : Except Fault α := do
  return (← Scalar.divide (x - lo) (hi - lo)) * length

/-- The distance of `y` from the top end of an axis that is `length` long. -/
def fromTop (y lo hi length : α) : Except Fault α := do
  return length - (← Scalar.divide (y - lo) (hi - lo)) * length

def place (c : Canvas α) (b : Bounds α) (p : Point α) : Except Fault (Point α) := do
  let left ← fromLeft p.x b.xMin b.xMax c.insideWidth
  let top ← fromTop p.y b.yMin b.yMax c.insideHeight
  return ⟨c.margin + left, c.margin + top⟩

/-- A place is in sight unless it is past the right or the bottom margin. -/
def shows (c : Canvas α) (place : Point α) : Bool :=
  place.x ≤ c.width - c.margin && place.y ≤ c.height - c.margin

/-- How far above its marker a label stands, on the device. -/
def labelOffset : α :=
  ofInt 15

/-- The same distance in the units of the vertical axis. -/
def labelLift (c : Canvas α) (b : Bounds α) : α :=
  if c.insideHeight > ofInt 0 then labelOffset * b.height / c.insideHeight else ofInt 0

end Canvas

end FunctionGraph
