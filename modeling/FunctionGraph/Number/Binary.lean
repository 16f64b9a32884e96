import FunctionGraph.Number.Fault

/-!
# Doubles as exact numbers

A finite double is a signed natural number times a power of two. Whatever needs the exact value of a
double, and not one more rounded operation, starts from these two parts.
-/

namespace FunctionGraph.Number

open Float.Model (UnpackedFloat Format)

def nan : Float := 0.0 / 0.0

/-- The power of a base, or one where the exponent is negative. -/
def powerOf (base : Nat) (exponent : Int) : Nat :=
  Nat.pow base exponent.toNat

/-- The double nearest to the signed number `mantissa * 2 ^ exponent`. -/
def ofParts (sign : UnpackedFloat.Sign) (mantissa : Nat) (exponent : Int) : Float :=
  .ofModel (.pack (.round Format.binary64 sign mantissa exponent))

/-- What truncation toward zero leaves of a number, with the sign of the number. -/
def fract (x : Float) : Float :=
  match x.toModel.unpack with
  | .finite sign mantissa exponent _ =>
    ofParts sign (mantissa % powerOf 2 (-exponent)) exponent
  | .zero _ => x
  | _ => nan

/-- The exact integer that truncation toward zero gives. -/
def truncate (x : Float) : Except Fault Int :=
  match x.toModel.unpack with
  | .finite sign mantissa exponent _ =>
    .ok (sign.apply (mantissa * powerOf 2 exponent / powerOf 2 (-exponent)))
  | .zero _ => .ok 0
  | .infinity _ => .error .infinityToInteger
  | .notANumber => .error .nanToInteger

def whole? (x : Float) : Option Int :=
  match x.toModel.unpack with
  | .finite sign mantissa exponent _ =>
    if mantissa % powerOf 2 (-exponent) = 0 then
      some (sign.apply (mantissa * powerOf 2 exponent / powerOf 2 (-exponent)))
    else
      none
  | .zero _ => some 0
  | _ => none

end FunctionGraph.Number
