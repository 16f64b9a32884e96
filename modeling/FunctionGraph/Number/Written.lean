import FunctionGraph.Number.Shortest

/-!
# Numbers in writing

A double is written with the digits of its shortest decimal: positionally when its leading digit
stands between `10 ^ -4` and `10 ^ 15`, and with a signed exponent of two digits or more otherwise.
Labels and fields write an integer as an integer, of any size.
-/

namespace FunctionGraph.Number

def decimalDigits (n : Nat) : List Char :=
  Nat.toDigits 10 n

def dropTrailingZeros (digits : List Char) : List Char :=
  (digits.reverse.dropWhile (· == '0')).reverse

/-- Positional notation; the point stands behind `point` digits. -/
def positional (digits : List Char) (point : Int) : List Char :=
  if point ≤ 0 then
    '0' :: '.' :: List.replicate (-point).toNat '0' ++ digits
  else
    let shown := digits ++ List.replicate (point.toNat - digits.length) '0'
    let fraction := shown.drop point.toNat
    shown.take point.toNat ++ '.' :: (if fraction.isEmpty then ['0'] else fraction)

/-- An exponent with its sign and at least two digits. -/
def signedExponent (exponent : Int) : List Char :=
  let digits := decimalDigits exponent.natAbs
  (if exponent < 0 then '-' else '+') :: List.replicate (2 - digits.length) '0' ++ digits

/-- Scientific notation; a single digit has no point behind it. -/
def scientific (digits : List Char) (exponent : Int) : List Char :=
  let point := if digits.length > 1 then ['.'] else []
  digits.take 1 ++ point ++ digits.drop 1 ++ 'e' :: signedExponent exponent

def Decimal.write (d : Decimal) : List Char :=
  let digits := decimalDigits d.digits
  let leading := d.exponent + digits.length - 1
  let kept := dropTrailingZeros digits
  if -4 ≤ leading ∧ leading < 16 then positional kept (leading + 1) else scientific kept leading

def writeSign (sign : Float.Model.UnpackedFloat.Sign) : List Char :=
  match sign with
  | .negative => ['-']
  | .positive => []

def write (x : Float) : List Char :=
  match x.toModel.unpack with
  | .notANumber => ['n', 'a', 'n']
  | .infinity sign => writeSign sign ++ ['i', 'n', 'f']
  | .zero sign => writeSign sign ++ ['0', '.', '0']
  | .finite sign mantissa exponent _ =>
    writeSign sign ++ (Magnitude.mk mantissa exponent).shortest.write

/-- The text of a double: the shortest decimal that reads back as it. -/
def text (x : Float) : String :=
  String.ofList (write x)

def decimalInteger (n : Int) : List Char :=
  if n < 0 then '-' :: decimalDigits n.natAbs else decimalDigits n.natAbs

/-- The text of a number in a label or a field: an integer has no point and no exponent, and any
other number is written as `text` does. -/
def label (x : Float) : Except Fault String := do
  let n ← truncate x
  return if whole? x = some n then String.ofList (decimalInteger n) else text x

end FunctionGraph.Number
