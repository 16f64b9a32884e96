import FunctionGraph.Formula.Reading
import FunctionGraph.Number.Scalar

/-!
# Descent through the levels of the grammar

An expression can also be evaluated character by character, by procedures that call each other. There
is one for each level of the grammar: it calls the one for the next tighter level, and goes on for as
long as it finds an operator of its own. Here the procedures that wait for another one are a stack, and
one step is what a procedure does before it calls, returns or begins its loop again. No bound is set to
the depth of the calls. A character outside the text, or a division by zero, would crash the descent,
which is not an outcome of the evaluation.
-/

namespace FunctionGraph.Formula.Descent

/-- A procedure, or the point inside one from which it goes on. Sums and products are the same procedure
with operators of their own. -/
inductive Procedure where
  | chain (inProduct : Bool)
  | loop (inProduct : Bool) (left : Float)
  | power
  | exponent (base : Float)
  | factor
  | number (start : Nat)

/-- A procedure that waits for the value of another one. -/
inductive Waiting where
  | first (inProduct : Bool)
  | operand (operation : Operation) (left : Float)
  | base
  | raise (base : Float)
  | negate
  | group

inductive Crash where
  | outsideText
  | fault (fault : Fault)
  deriving DecidableEq, Repr

inductive Ending where
  | returned (value : Float)
  | raised (stop : Stop)
  | crashed (crash : Crash)

/-- What could go wrong in a step: the places at which it looks for a character, and its divisors. -/
inductive Event where
  | access (place : Nat)
  | divide (divisor : Float)

inductive Next where
  | goOn (procedure : Procedure)
  | call (procedure : Procedure) (waiting : Waiting)
  | back (value : Float)
  | stop (ending : Ending)

/-- What a step does, and by how many characters it moves forwards. -/
structure Act where
  events : List Event
  moved : Nat
  next : Next

inductive Control where
  | perform (procedure : Procedure)
  | back (value : Float)
  | ended (ending : Ending)

structure Config where
  control : Control
  waiting : List Waiting
  cursor : Nat

/-! ### The procedures -/

section Procedures

variable (text : List Char) (x : Float) (cursor : Nat)

/-- Looking at the next character is an access only where there is one. -/
def peeked : List Event :=
  if cursor < text.length then [.access cursor] else []

def operation? : Bool → Char → Option Operation
  | false, '+' => some .add
  | false, '-' => some .subtract
  | true, '*' => some .multiply
  | true, '/' => some .divide
  | _, _ => none

/-- The procedure for the operands of a product, or of a sum. -/
def operandOf (inProduct : Bool) : Procedure :=
  if inProduct then .power else .chain true

def raise (cause : EvalError) : Next :=
  .stop (.raised ⟨cause, cursor⟩)

def enter : Procedure → Act
  | .chain inProduct => ⟨[], 0, .call (operandOf inProduct) (.first inProduct)⟩
  | .loop inProduct left =>
    match text[cursor]?.bind (operation? inProduct) with
    | some operation => ⟨peeked text cursor, 1, .call (operandOf inProduct) (.operand operation left)⟩
    | none => ⟨peeked text cursor, 0, .back left⟩
  | .power => ⟨[], 0, .call .factor .base⟩
  | .exponent base =>
    if ['*', '*'] <+: text.drop cursor then ⟨[], 2, .call (.chain true) (.raise base)⟩
    else ⟨[], 0, .back base⟩
  | .factor =>
    match text[cursor]? with
    | none => ⟨[], 0, raise cursor .unexpectedEnd⟩
    | some '-' => ⟨peeked text cursor, 1, .call .power .negate⟩
    | some '(' => ⟨peeked text cursor, 1, .call (.chain false) .group⟩
    | some 'x' => ⟨peeked text cursor, 1, .back x⟩
    | some _ => ⟨peeked text cursor, 0, .goOn (.number cursor)⟩
  | .number start =>
    if text[cursor]?.any isNumeric then ⟨peeked text cursor, 1, .goOn (.number start)⟩
    else
      let literal := (text.drop start).take (cursor - start)
      if literal.isEmpty then ⟨peeked text cursor, 0, raise cursor .notAnOperand⟩
      else if (Number.read literal).isNaN then
        ⟨peeked text cursor, 0, raise cursor (.invalidNumber literal)⟩
      else ⟨peeked text cursor, 0, .back (Number.read literal)⟩

/-- Goes on in the procedure that has waited for the value. -/
def resume (value : Float) : Waiting → Act
  | .first inProduct => ⟨[], 0, .goOn (.loop inProduct value)⟩
  | .operand operation left =>
    if operation = .divide then
      if value == 0 then ⟨[], 0, raise cursor .divisionByZero⟩
      else
        match Scalar.divide left value with
        | .ok quotient => ⟨[.divide value], 0, .goOn (.loop true quotient)⟩
        | .error fault => ⟨[.divide value], 0, .stop (.crashed (.fault fault))⟩
    else ⟨[], 0, .goOn (.loop operation.isProduct (operation.apply left value))⟩
  | .base => ⟨[], 0, .goOn (.exponent value)⟩
  | .raise base => ⟨[], 0, .back (Float.pow base value)⟩
  | .negate => ⟨[], 0, .back (-value)⟩
  | .group =>
    if text[cursor]? = some ')' then ⟨peeked text cursor, 1, .back value⟩
    else ⟨peeked text cursor, 0, raise cursor .unclosedGroup⟩

/-- When nothing waits any more, the whole text should have been read. -/
def finish (value : Float) : Act :=
  if cursor = text.length then ⟨[], 0, .stop (.returned value)⟩
  else
    match text[cursor]? with
    | some c => ⟨[.access cursor], 0, raise cursor (.unexpectedCharacter c)⟩
    | none => ⟨[.access cursor], 0, .stop (.crashed .outsideText)⟩

end Procedures

/-! ### Steps and runs -/

def start : Config :=
  ⟨.perform (.chain false), [], 0⟩

/-- The act that is next, and what then still waits. There is none after the end. -/
def act? (text : List Char) (x : Float) (c : Config) : Option (List Waiting × Act) :=
  match c.control, c.waiting with
  | .perform procedure, waiting => some (waiting, enter text x c.cursor procedure)
  | .back value, [] => some ([], finish text c.cursor value)
  | .back value, frame :: waiting => some (waiting, resume text c.cursor value frame)
  | .ended _, _ => none

def Act.apply (act : Act) (waiting : List Waiting) (cursor : Nat) : Config :=
  match act.next with
  | .goOn procedure => ⟨.perform procedure, waiting, cursor + act.moved⟩
  | .call procedure frame => ⟨.perform procedure, frame :: waiting, cursor + act.moved⟩
  | .back value => ⟨.back value, waiting, cursor + act.moved⟩
  | .stop ending => ⟨.ended ending, waiting, cursor + act.moved⟩

section Runs

variable (text : List Char) (x : Float)

def step (c : Config) : Config :=
  match act? text x c with
  | some (waiting, act) => act.apply waiting c.cursor
  | none => c

def events (c : Config) : List Event :=
  match act? text x c with
  | some (_, act) => act.events
  | none => []

/-- Where the descent is after `n` steps. -/
def config : Nat → Config
  | 0 => start
  | n + 1 => step text x (config n)

end Runs

end FunctionGraph.Formula.Descent
