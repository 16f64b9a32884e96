import FunctionGraph.Number.Binary
import FunctionGraph.Text.Blank
import FunctionGraph.Text.DecimalDigit

/-!
# Reading numbers

The one number format of the plotter, for literals of a formula and for typed axis bounds: a sign, the
digits of a whole part, and behind a point the digits of a fraction. There is no exponent. The two
parts are rounded to doubles one by one and then added, so a long number may be an ulp away from the
nearest double.
-/

namespace FunctionGraph.Number

/-- A number as it is typed: the values of its digits and its sign. -/
structure Numeral where
  negative : Bool
  whole : List Nat
  fraction : List Nat
  deriving DecidableEq, Repr

namespace Numeral

def natOfDigits (digits : List Nat) : Nat :=
  digits.foldl (fun value digit => 10 * value + digit) 0

def wholeValue (n : Numeral) : Float :=
  Float.ofScientific (natOfDigits n.whole) false 0

def fractionValue (n : Numeral) : Float :=
  Float.ofScientific (natOfDigits n.fraction) true n.fraction.length

def value (n : Numeral) : Float :=
  if n.negative then -n.wholeValue - n.fractionValue else n.wholeValue + n.fractionValue

end Numeral

/-- Splits off a sign; a number without one is not negative. -/
def splitSign : List Char → Bool × List Char
  | '-' :: rest => (true, rest)
  | '+' :: rest => (false, rest)
  | rest => (false, rest)

/-- Reads a numeral that fills the text. At least one digit is needed, on either side of the point. -/
def readNumeral (text : List Char) : Option Numeral :=
  let (negative, unsigned) := splitSign text
  let whole := unsigned.takeWhile Text.isDecimalDigit
  match unsigned.dropWhile Text.isDecimalDigit with
  | [] =>
    if whole.isEmpty then none else some ⟨negative, whole.filterMap Text.digitValue?, []⟩
  | '.' :: fraction =>
    if fraction.all Text.isDecimalDigit && !(whole.isEmpty && fraction.isEmpty) then
      some ⟨negative, whole.filterMap Text.digitValue?, fraction.filterMap Text.digitValue?⟩
    else
      none
  | _ => none

/-- Reads a number between blanks; what is no number gives NaN. -/
def read (text : List Char) : Float :=
  match readNumeral (Text.trim text) with
  | some numeral => numeral.value
  | none => nan

end FunctionGraph.Number
