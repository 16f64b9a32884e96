import FunctionGraph.Formula.Acceptance
import FunctionGraph.Formula.Canonical
import FunctionGraph.Formula.Reading

/-!
# Formulas

A formula is a text that has been accepted. It is read once, and can be evaluated at any `x`.
-/

namespace FunctionGraph

/-- An accepted text in canonical form, and its reading. -/
structure Formula where
  text : List Char
  reading : Formula.Reading

namespace Formula

def compile (text : String) : Except Rejection Formula :=
  let typed := Text.trim text.toList
  let expr := Formula.canonical typed
  if typed.isEmpty then .error .empty
  else if accepts expr then .ok ⟨expr, readExpr expr⟩
  else .error .invalid

def evaluate (formula : Formula) (x : Float) : Except Failure Float :=
  (formula.reading.evaluate x).mapError fun stop => ⟨x, stop.cause⟩

end Formula

end FunctionGraph
