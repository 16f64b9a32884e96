import FunctionGraph.Number.Fault

/-!
# Sample grids

A curve is sampled at evenly spaced points from one end of the domain to the other. Rounding can carry
the last point past the right end, so every point is kept inside. A domain wider than the largest
double is laid out at half its size and doubled.
-/

namespace FunctionGraph.Grid

/-- The value, or the bound where the value is past it. NaN stays. -/
def clampAbove (bound value : Float) : Float :=
  if value < bound || value.isNaN then value else bound

/-- Where the `i`-th point of the grid falls before it is kept inside the domain. -/
def place (lo hi : Float) (intervals i : Nat) : Float :=
  let step := (hi - lo) / Float.ofNat intervals
  if step.isFinite then
    lo + Float.ofNat i * step
  else
    let halfStep := (hi / 2 - lo / 2) / Float.ofNat intervals
    (lo / 2 + Float.ofNat i * halfStep) * 2

def point (lo hi : Float) (intervals i : Nat) : Float :=
  clampAbove hi (place lo hi intervals i)

def points (lo hi : Float) (intervals : Nat) : List Float :=
  (List.range (intervals + 1)).map (point lo hi intervals)

/-- A grid of no intervals has no step, and one of fewer has no points. -/
def points? (lo hi : Float) (intervals : Int) : Except Fault (List Float) :=
  if intervals = 0 then .error .divisionByZero
  else if intervals < 0 then .ok []
  else .ok (points lo hi intervals.toNat)

@[simp]
theorem length_points (lo hi : Float) (intervals : Nat) :
    (points lo hi intervals).length = intervals + 1 := by
  simp [points]

end FunctionGraph.Grid
