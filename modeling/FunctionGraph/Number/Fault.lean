/-!
# Arithmetic faults

Arithmetic on doubles nearly always has an answer. These are the cases where it has none.
-/

namespace FunctionGraph

inductive Fault where
  | divisionByZero
  | nanToInteger
  | infinityToInteger
  deriving DecidableEq, Repr

def Fault.message : Fault → String
  | .divisionByZero => "float division by zero"
  | .nanToInteger => "cannot convert float NaN to integer"
  | .infinityToInteger => "cannot convert float infinity to integer"

end FunctionGraph
