import FunctionGraph.Formula.Error
import FunctionGraph.Formula.Expr

/-!
# Reading an expression

The tokens of an expression are read from left to right, once. What is still open is kept as a stack
of frames, innermost first: groups, pending minus signs, powers that wait for their exponent, and
operations that wait for their right operand.

A power binds tighter than a sign, but its exponent goes as far right as a product goes: `2**3*4` is
`2**12` and `-5**2` is `-25`. Sums and products group to the left.

A reading ends at the first error and keeps the divisors completed before it, for the error of a zero
divisor comes first when the divisor does.
-/

namespace FunctionGraph.Formula

/-- An open construct that waits for the operand to its right. -/
inductive Frame where
  | group
  | negate
  | power (base : Expr)
  | binary (operation : Operation) (left : Expr)
  deriving DecidableEq, Repr

/-- What a frame adds to the nesting of an expression. -/
def Frame.weight : Frame → Nat
  | .group => 4
  | .negate => 2
  | .power _ => 2
  | .binary _ _ => 0

def nesting : List Frame → Nat
  | [] => 0
  | frame :: stack => frame.weight + nesting stack

structure Divisor where
  expr : Expr
  stop : Nat
  deriving DecidableEq, Repr

/-- What has been read so far: the open frames, innermost first, the number of characters, and the
divisors, latest first. -/
structure Progress where
  stack : List Frame
  cursor : Nat
  divisors : List Divisor
  deriving DecidableEq, Repr

/-- An error of a reading, and how many characters had been read. -/
structure Stop where
  cause : EvalError
  cursor : Nat
  deriving DecidableEq, Repr

/-- Between two tokens a reading expects an operand, or holds one and expects what may follow it. -/
inductive State where
  | expecting (progress : Progress)
  | holding (progress : Progress) (operand : Expr)
  | stopped (stop : Stop) (divisors : List Divisor)
  deriving DecidableEq, Repr

namespace Progress

def start : Progress :=
  ⟨[], 0, []⟩

def advance (p : Progress) (token : Token) : Progress :=
  { p with cursor := p.cursor + token.width }

def stopAt (p : Progress) (cause : EvalError) : State :=
  .stopped ⟨cause, p.cursor⟩ p.divisors

/-- Opens a frame behind the token, unless the expression then nests deeper than `limit`. -/
def push (limit : Nat) (p : Progress) (token : Token) (frame : Frame) : State :=
  let opened := p.advance token
  if nesting (frame :: p.stack) > limit then
    opened.stopAt .nestedTooDeeply
  else
    .expecting { opened with stack := frame :: p.stack }

/-- Closes the frames that bind at least as tight as what comes next: a product sign (`inProduct`)
closes signs and products, and anything else closes all frames up to the group around them. -/
def collapse (inProduct : Bool) (p : Progress) (operand : Expr) : Progress × Expr :=
  match p with
  | ⟨.negate :: stack, cursor, divisors⟩ =>
    collapse inProduct ⟨stack, cursor, divisors⟩ (.negate operand)
  | ⟨.power base :: stack, cursor, divisors⟩ =>
    if inProduct then (p, operand)
    else collapse inProduct ⟨stack, cursor, divisors⟩ (.power base operand)
  | ⟨.binary operation left :: stack, cursor, divisors⟩ =>
    if inProduct && !operation.isProduct then (p, operand)
    else
      let completed := if operation = .divide then [⟨operand, cursor⟩] else []
      collapse inProduct ⟨stack, cursor, completed ++ divisors⟩ (.binary operation left operand)
  | ⟨.group :: _, _, _⟩ => (p, operand)
  | ⟨[], _, _⟩ => (p, operand)
termination_by p.stack.length

def readOperand (limit : Nat) (p : Progress) (token : Token) : State :=
  match token with
  | .minus => p.push limit token .negate
  | .opening => p.push limit token .group
  | .variable => .holding (p.advance token) .variable
  | .number literal =>
    if (Number.readNumeral literal).isSome then
      .holding (p.advance token) (.number (.ofText literal))
    else
      (p.advance token).stopAt (.invalidNumber literal)
  | _ => p.stopAt .notAnOperand

def pushBinary (limit : Nat) (p : Progress) (token : Token) (operation : Operation)
    (operand : Expr) : State :=
  let (closed, left) := p.collapse operation.isProduct operand
  closed.push limit token (.binary operation left)

/-- Reads a token that can only end what is open. -/
def readEnd (p : Progress) (token : Token) (operand : Expr) : State :=
  let (closed, inner) := p.collapse false operand
  match closed.stack, token with
  | _ :: stack, .closing => .holding { closed.advance token with stack } (.group inner)
  | _ :: _, _ => closed.stopAt .unclosedGroup
  | [], _ =>
    match token.text with
    | c :: _ => closed.stopAt (.unexpectedCharacter c)
    | [] => closed.stopAt .unexpectedEnd

def readOperator (limit : Nat) (p : Progress) (token : Token) (operand : Expr) : State :=
  match token with
  | .power => p.push limit token (.power operand)
  | .plus => p.pushBinary limit token .add operand
  | .minus => p.pushBinary limit token .subtract operand
  | .times => p.pushBinary limit token .multiply operand
  | .over => p.pushBinary limit token .divide operand
  | _ => p.readEnd token operand

end Progress

def State.read (limit : Nat) (state : State) (token : Token) : State :=
  match state with
  | .expecting p => p.readOperand limit token
  | .holding p operand => p.readOperator limit token operand
  | .stopped stop divisors => .stopped stop divisors

/-- An expression, or the error that ended it, with the divisors completed on the way in their order. -/
structure Reading where
  divisors : List Divisor
  ending : Except Stop Expr

def State.finish : State → Reading
  | .expecting p => ⟨p.divisors.reverse, .error ⟨.unexpectedEnd, p.cursor⟩⟩
  | .holding p operand =>
    let (closed, whole) := p.collapse false operand
    match closed.stack with
    | [] => ⟨closed.divisors.reverse, .ok whole⟩
    | _ :: _ => ⟨closed.divisors.reverse, .error ⟨.unclosedGroup, closed.cursor⟩⟩
  | .stopped stop divisors => ⟨divisors.reverse, .error stop⟩

def readTokens (limit : Nat) (ts : List Token) : Reading :=
  (ts.foldl (State.read limit) (.expecting .start)).finish

/-- How deep a reading nests before it is refused: a fixed number, which counts only what the reading
itself has open, by the weights of its frames. What was already open when the reading began is not
counted, nor are the calls that a step makes and returns from, so near the limit a program whose stack
is shared with other work refuses a little earlier. -/
def nestingLimit : Nat := 1000

def readExpr (text : List Char) : Reading :=
  readTokens nestingLimit (tokens text)

namespace Reading

/-- The first divisor that is zero at `x` is the error, and otherwise what the reading ended with
decides. -/
def evaluate (reading : Reading) (x : Float) : Except Stop Float :=
  match reading.divisors.find? fun divisor => divisor.expr.value x == 0 with
  | some divisor => .error ⟨.divisionByZero, divisor.stop⟩
  | none => reading.ending.map (Expr.value x)

end Reading

/-- The value at `x` of the expression that the text is, when it nests no deeper than `limit`. -/
def evaluateWithin (limit : Nat) (text : List Char) (x : Float) : Except EvalError Float :=
  ((readTokens limit (tokens text)).evaluate x).mapError Stop.cause

def evaluateText (text : List Char) (x : Float) : Except EvalError Float :=
  evaluateWithin nestingLimit text x

end FunctionGraph.Formula
