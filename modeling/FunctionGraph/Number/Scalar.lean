import FunctionGraph.Number.Binary

/-!
# Scalars

The geometry of a plot is written once for every kind of number it is read over: doubles, on which
plots are drawn, and the exact rationals, over which the same formulas are maps of the plane.
-/

namespace FunctionGraph

class Scalar (α : Type) extends Add α, Sub α, Mul α, Div α, Neg α, BEq α, LT α, LE α where
  decidableLT : DecidableLT α
  decidableLE : DecidableLE α
  ofInt : Int → α
  /-- What truncation toward zero leaves of a number, with the sign of the number. -/
  fract : α → α
  truncate : α → Except Fault Int

attribute [reducible, instance] Scalar.decidableLT Scalar.decidableLE

instance : Scalar Float where
  decidableLT := inferInstance
  decidableLE := inferInstance
  ofInt := Float.ofInt
  fract := Number.fract
  truncate := Number.truncate

instance : Scalar Rat where
  decidableLT := inferInstance
  decidableLE := inferInstance
  ofInt n := n
  fract q := q - (q.num.tdiv q.den : Int)
  truncate q := .ok (q.num.tdiv q.den)

namespace Scalar

variable {α : Type} [Scalar α]

/-- Division that refuses a zero divisor. -/
def divide (a b : α) : Except Fault α :=
  if b == ofInt 0 then .error .divisionByZero else .ok (a / b)

theorem divide_of_ne {a b : α} (h : (b == ofInt 0) = false) : divide a b = .ok (a / b) := by
  rw [divide, h]
  rfl

end Scalar

end FunctionGraph
