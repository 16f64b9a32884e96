import FunctionGraph.Formula.Token

/-!
# Acceptance

Before a formula is ever evaluated its canonical text passes a list of checks. Each looks at single
characters and their neighbours, and none knows the grammar, so an accepted text can still turn out
to be no expression.
-/

namespace FunctionGraph.Formula

def isOperatorSign (c : Char) : Bool :=
  c == '+' || c == '-' || c == '*' || c == '/' || c == '^'

def endsOperand (c : Char) : Bool :=
  isDigit c || c == 'x' || c == ')'

def startsOperand (c : Char) : Bool :=
  isDigit c || c == 'x' || c == '('

def isAllowed (c : Char) : Bool :=
  isNumeric c || c == 'x' || c == '+' || c == '-' || c == '*' || c == '/' || c == '(' || c == ')'

def withoutPowers : List Char → List Char
  | [] => []
  | '*' :: '*' :: rest => withoutPowers rest
  | c :: rest => c :: withoutPowers rest

def hasAllowedChars (text : List Char) : Bool :=
  let rest := withoutPowers text
  !rest.isEmpty && rest.all isAllowed

def isLoneOperator : List Char → Bool
  | [c] => isOperatorSign c
  | _ => false

/-- Wherever two stars stand side by side, an operand ends right before them. The character before
the text, if any, is `previous`. -/
def powersHaveBases (previous : Option Char) : List Char → Bool
  | '*' :: '*' :: rest => previous.any endsOperand && powersHaveBases (some '*') ('*' :: rest)
  | c :: rest => powersHaveBases (some c) rest
  | [] => true

def parenthesesMatch (text : List Char) : Bool :=
  text.count '(' == text.count ')'

/-- A minus sign behind this, or at the start, is a sign of an operand. -/
def precedesSign (previous : Option Char) : Bool :=
  previous.all fun c => isOperatorSign c || c == '('

/-- No two operator signs stand side by side, but for a power sign, behind which anything may stand,
and for a minus sign behind the sign of an operand. -/
def operatorsAreApart (previous : Option Char) : List Char → Bool
  | c :: next :: rest =>
    if isOperatorSign c && isOperatorSign next then
      if c == '*' && next == '*' then operatorsAreApart (some '*') rest
      else c == '-' && next == '-' && precedesSign previous
        && operatorsAreApart (some c) (next :: rest)
    else
      operatorsAreApart (some c) (next :: rest)
  | _ => true

/-- Two operands do not stand side by side, unless they are digits of one number. -/
def operandsAreJoined : List Char → Bool
  | c :: next :: rest =>
    (!(endsOperand c && startsOperand next) || (isDigit c && isDigit next))
      && operandsAreJoined (next :: rest)
  | _ => true

def accepts (text : List Char) : Bool :=
  hasAllowedChars text
    && !isLoneOperator text
    && text.head? != some '+'
    && powersHaveBases none text
    && parenthesesMatch text
    && operatorsAreApart none text
    && operandsAreJoined text

end FunctionGraph.Formula
