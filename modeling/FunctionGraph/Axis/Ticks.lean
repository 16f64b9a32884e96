import FunctionGraph.Number.Rounding

/-!
# Axis ticks

The ticks of an axis are the multiples of its step between its two ends.
-/

namespace FunctionGraph.Ticks

open Scalar (ofInt)

variable {α : Type} [Scalar α]

/-- A wider axis has its ticks farther apart. -/
def step (lo hi : α) : α :=
  if hi - lo < ofInt 20 then ofInt 1
  else if hi - lo < ofInt 100 then ofInt 5
  else ofInt 10

/-- The multiples of `step` from `lo` to `hi`, found from the first one and their number. -/
def values (lo hi step : α) : Except Fault (List α) := do
  let first := Scalar.ceil (← Scalar.divide lo step) * step
  let last ← Scalar.truncate (Scalar.floor (← Scalar.divide (hi - first) step))
  return (List.range (last + 1).toNat).map fun (i : Nat) => first + ofInt i * step

end FunctionGraph.Ticks
