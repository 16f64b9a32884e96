import FunctionGraph.Curve.Point
import FunctionGraph.Number.Binary

/-!
# Samples

What is known of a curve after it has been evaluated along a grid. A sample is valid when its value is
finite. Runs of valid samples are marked, so that a polyline can be opened and closed exactly there:
the sample that opens a run says so, and the last sample of a run is repeated with a closing mark.
-/

namespace FunctionGraph

structure Sample where
  x : Float
  y : Float
  valid : Bool
  opens : Bool
  closes : Bool
  deriving DecidableEq

namespace Sample

def point (s : Sample) : Point Float :=
  ⟨s.x, s.y⟩

def isVisible (lo hi : Float) (s : Sample) : Bool :=
  s.valid && lo ≤ s.y && s.y ≤ hi

/-- The repetition that closes a run, when the run has ended. -/
def closing (last : Option Sample) : List Sample :=
  match last with
  | some s => if s.valid then [{ s with closes := true }] else []
  | none => []

/-- A sample opens a run at the start, behind a failed evaluation, and where values become finite. -/
def opensAfter (last : Option Sample) (valid : Bool) : Bool :=
  match last with
  | some s => !s.valid && valid
  | none => true

/-- Classifies the outcomes behind `last`, the latest sample that was evaluated without failing.
An outcome is a value, or nothing where the evaluation failed. -/
def classifyAfter (last : Option Sample) : List (Float × Option Float) → List Sample
  | [] => []
  | (x, none) :: rest =>
    closing last ++ ⟨x, Number.nan, false, false, false⟩ :: classifyAfter none rest
  | (x, some y) :: rest =>
    let valid := y.isFinite
    (if valid then [] else closing last)
      ++ ⟨x, y, valid, opensAfter last valid, false⟩
      :: classifyAfter (some ⟨x, y, valid, false, false⟩) rest

def classify (outcomes : List (Float × Option Float)) : List Sample :=
  classifyAfter none outcomes

def along (curve : Float → Option Float) (grid : List Float) : List Sample :=
  classify (grid.map fun x => (x, curve x))

end Sample

end FunctionGraph
