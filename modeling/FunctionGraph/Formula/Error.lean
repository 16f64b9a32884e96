import FunctionGraph.Number.Written

/-!
# What can be wrong with a formula

A text may be refused when it is entered; an accepted formula may still have no value at some `x`.
-/

namespace FunctionGraph.Formula

inductive Rejection where
  | empty
  | invalid
  deriving DecidableEq, Repr

def Rejection.message : Rejection → String
  | .empty => "Enter a function"
  | .invalid => "Invalid expression"

inductive EvalError where
  | divisionByZero
  | unexpectedEnd
  | notAnOperand
  | invalidNumber (literal : List Char)
  | unclosedGroup
  | unexpectedCharacter (c : Char)
  | nestedTooDeeply
  deriving DecidableEq, Repr

def EvalError.message : EvalError → String
  | .divisionByZero => "Division by zero"
  | .unexpectedEnd => "Unexpected end of expression"
  | .notAnOperand => "Expected a number or variable"
  | .invalidNumber literal => "Invalid number: " ++ String.ofList literal
  | .unclosedGroup => "Expected closing parenthesis"
  | .unexpectedCharacter c => "Unexpected character: " ++ c.toString
  | .nestedTooDeeply => "Expression nested too deeply"

/-- A formula that failed, and where. -/
structure Failure where
  input : Float
  cause : EvalError

def Failure.message (failure : Failure) : String :=
  "evaluation failed at x=" ++ Number.text failure.input ++ ": " ++ failure.cause.message

end FunctionGraph.Formula
