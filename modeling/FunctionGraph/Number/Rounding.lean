import FunctionGraph.Number.Scalar

/-!
# Rounding

Truncation, floor, ceiling, and rounding with halves away from zero. All four start from the part
that truncation leaves, so no step of theirs rounds. On a number that is not finite each is NaN.
-/

namespace FunctionGraph.Scalar

variable {α : Type} [Scalar α]

def magnitude (x : α) : α :=
  if x < ofInt 0 then -x else x

def trunc (x : α) : α :=
  x - fract x

def floor (x : α) : α :=
  if x < ofInt 0 ∧ trunc x != x then trunc x - ofInt 1 else trunc x

def ceil (x : α) : α :=
  if x > ofInt 0 ∧ trunc x != x then trunc x + ofInt 1 else trunc x

/-- The nearest integer; a half goes away from zero. -/
def nearest (x : α) : α :=
  if magnitude (x - trunc x) ≥ ofInt 1 / ofInt 2 then
    if x > ofInt 0 then trunc x + ofInt 1 else trunc x - ofInt 1
  else
    trunc x

/-- Rounds to two decimals, the precision of point labels. -/
def roundHundredths (x : α) : α :=
  nearest (x * ofInt 100) / ofInt 100

end FunctionGraph.Scalar
