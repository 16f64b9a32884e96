import FunctionGraph.Number.Rounding
import FunctionGraph.Number.Written

/-!
# Points

A point of the plane: a vertex of a drawn curve, or a point that is marked and labelled.
-/

namespace FunctionGraph

structure Point (α : Type) where
  x : α
  y : α
  deriving DecidableEq, Repr

namespace Point

/-- Two points closer than this on both axes are not told apart. -/
def nearTolerance : Float := 0.01

def near (tolerance : Float) (p q : Point Float) : Bool :=
  Scalar.magnitude (p.x - q.x) < tolerance && Scalar.magnitude (p.y - q.y) < tolerance

def label (separator : String) (p : Point Float) : Except Fault String := do
  let x ← Number.label p.x
  let y ← Number.label p.y
  return "(" ++ x ++ separator ++ y ++ ")"

def labelSeparator : String := ","

def rounded (p : Point Float) : Point Float :=
  ⟨Scalar.roundHundredths p.x, Scalar.roundHundredths p.y⟩

end Point

end FunctionGraph
