import FunctionGraph.Formula.Token
import FunctionGraph.Number.Reading

/-!
# Expressions

The tree of a formula. Parentheses are kept as nodes of their own, so a tree knows how it is written,
and it has a value at every `x`: division follows the doubles here, and whether a zero divisor is
refused is decided where a reading is evaluated.
-/

namespace FunctionGraph.Formula

inductive Operation where
  | add
  | subtract
  | multiply
  | divide
  deriving DecidableEq, Repr

namespace Operation

def apply : Operation → Float → Float → Float
  | .add, a, b => a + b
  | .subtract, a, b => a - b
  | .multiply, a, b => a * b
  | .divide, a, b => a / b

def token : Operation → Token
  | .add => .plus
  | .subtract => .minus
  | .multiply => .times
  | .divide => .over

/-- Products bind tighter than sums. -/
def isProduct : Operation → Bool
  | .multiply | .divide => true
  | .add | .subtract => false

end Operation

/-- A number as it is written. It is read once, and its value is kept. -/
structure Literal where
  text : List Char
  value : Float
  value_eq : value = Number.read text
  deriving DecidableEq, Repr

def Literal.ofText (text : List Char) : Literal :=
  ⟨text, Number.read text, rfl⟩

inductive Expr where
  | number (literal : Literal)
  | variable
  | group (inner : Expr)
  | negate (inner : Expr)
  | power (base exponent : Expr)
  | binary (operation : Operation) (left right : Expr)
  deriving DecidableEq, Repr

namespace Expr

def value (x : Float) : Expr → Float
  | .number literal => literal.value
  | .variable => x
  | .group inner => inner.value x
  | .negate inner => -inner.value x
  | .power base exponent => Float.pow (base.value x) (exponent.value x)
  | .binary operation left right => operation.apply (left.value x) (right.value x)

def tokens : Expr → List Token
  | .number literal => [.number literal.text]
  | .variable => [.variable]
  | .group inner => .opening :: inner.tokens ++ [.closing]
  | .negate inner => .minus :: inner.tokens
  | .power base exponent => base.tokens ++ .power :: exponent.tokens
  | .binary operation left right => left.tokens ++ operation.token :: right.tokens

end Expr

end FunctionGraph.Formula
