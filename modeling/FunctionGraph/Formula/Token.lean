/-!
# Tokens of a formula

A formula is read as a list of tokens. Nothing of the text is lost on the way: the tokens, written one
after the other, are the text.
-/

namespace FunctionGraph.Formula

inductive Token where
  | number (literal : List Char)
  | variable
  | plus
  | minus
  | times
  | over
  | power
  | opening
  | closing
  | other (c : Char)
  deriving DecidableEq, Repr

def Token.text : Token → List Char
  | .number literal => literal
  | .variable => ['x']
  | .plus => ['+']
  | .minus => ['-']
  | .times => ['*']
  | .over => ['/']
  | .power => ['*', '*']
  | .opening => ['(']
  | .closing => [')']
  | .other c => [c]

def Token.width (token : Token) : Nat :=
  token.text.length

def isDigit (c : Char) : Bool :=
  '0' ≤ c && c ≤ '9'

def isNumeric (c : Char) : Bool :=
  isDigit c || c == '.'

/-- The token of a character that stands alone. -/
def Token.ofChar : Char → Token
  | 'x' => .variable
  | '+' => .plus
  | '-' => .minus
  | '*' => .times
  | '/' => .over
  | '(' => .opening
  | ')' => .closing
  | c => .other c

/-- Puts a character of a number in front of tokens, joining the number that starts there. -/
def joinNumber (c : Char) : List Token → List Token
  | .number literal :: rest => .number (c :: literal) :: rest
  | rest => .number [c] :: rest

/-- Digits and points form the longest possible numbers, and two stars are always one power sign. -/
def tokens : List Char → List Token
  | [] => []
  | '*' :: '*' :: rest => .power :: tokens rest
  | c :: rest => if isNumeric c then joinNumber c (tokens rest) else .ofChar c :: tokens rest

def textOf (ts : List Token) : List Char :=
  ts.flatMap Token.text

theorem Token.text_ofChar (c : Char) : (Token.ofChar c).text = [c] := by
  unfold Token.ofChar
  split <;> rfl

theorem textOf_joinNumber (c : Char) (ts : List Token) :
    textOf (joinNumber c ts) = c :: textOf ts := by
  unfold joinNumber
  split <;> simp [textOf, Token.text]

/-- Writing the tokens gives the text back. -/
theorem textOf_tokens (text : List Char) : textOf (tokens text) = text := by
  fun_induction tokens text with
  | case1 => rfl
  | case2 rest ih => simpa [textOf, Token.text] using ih
  | case3 c rest _ _ ih => rw [textOf_joinNumber, ih]
  | case4 c rest _ _ ih =>
    rw [textOf, List.flatMap_cons, Token.text_ofChar, ← textOf, ih]
    rfl

end FunctionGraph.Formula
