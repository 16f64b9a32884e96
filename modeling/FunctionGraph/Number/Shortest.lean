import FunctionGraph.Number.Binary

/-!
# Shortest decimals

The decimal that stands for a double has the fewest digits among the decimals that read back as this
double, and of those it is the nearest. The search compares exact numbers only: a grid of decimals
with one digit, then with two, and so on, and on each grid the two neighbours of the value.
-/

namespace FunctionGraph.Number

/-- The number `digits * 10 ^ exponent`. -/
structure Decimal where
  digits : Nat
  exponent : Int
  deriving DecidableEq, Repr

/-- Compares `a * 10 ^ i` with `b * 2 ^ j`. -/
def compareScaled (a : Nat) (i : Int) (b : Nat) (j : Int) : Ordering :=
  compare (a * powerOf 10 i * powerOf 2 (-j)) (b * powerOf 2 j * powerOf 10 (-i))

/-- The magnitude of a finite double other than zero, `mantissa * 2 ^ exponent`. -/
structure Magnitude where
  mantissa : Nat
  exponent : Int
  deriving DecidableEq, Repr

namespace Magnitude

/-- The double below a power of two is half as far away as the double above. -/
def narrowBelow (x : Magnitude) : Bool :=
  x.mantissa == powerOf 2 52 && x.exponent != -1074

/-- The decimal lies among the reals whose nearest double this is. The ends of that interval, halfway
to the two neighbouring doubles, belong to it when the mantissa is even. -/
def readsBack (x : Magnitude) (d : Decimal) : Bool :=
  let low := 4 * x.mantissa - (if x.narrowBelow then 1 else 2)
  let high := 4 * x.mantissa + 2
  let ends := x.mantissa % 2 == 0
  let atLow := compareScaled d.digits d.exponent low (x.exponent - 2)
  let atHigh := compareScaled d.digits d.exponent high (x.exponent - 2)
  (atLow == .gt || (ends && atLow == .eq)) && (atHigh == .lt || (ends && atHigh == .eq))

def isBelow (x : Magnitude) (scale : Int) : Bool :=
  compareScaled 1 scale x.mantissa x.exponent == .gt

/-- The position of the leading digit: the least power of ten above the value. The guess takes
`30103 / 100000` for the logarithm of two and is off by at most two. -/
def scale (x : Magnitude) : Int :=
  let guess := ((x.mantissa.log2 : Int) + x.exponent) * 30103 / 100000
  if x.isBelow guess then guess
  else if x.isBelow (guess + 1) then guess + 1
  else guess + 2

/-- How many steps of `10 ^ exponent` fit into the value. -/
def stepsOf (x : Magnitude) (exponent : Int) : Nat :=
  x.mantissa * powerOf 2 x.exponent * powerOf 10 (-exponent) /
    (powerOf 2 (-x.exponent) * powerOf 10 exponent)

/-- The neighbour of the value, on the grid of `10 ^ exponent`, that reads back. Of two the nearer is
taken, and of two equally near the even one. -/
def neighbour? (x : Magnitude) (exponent : Int) : Option Decimal :=
  let below := x.stepsOf exponent
  let down : Decimal := ⟨below, exponent⟩
  let up : Decimal := ⟨below + 1, exponent⟩
  match x.readsBack down, x.readsBack up with
  | true, true =>
    match compareScaled (2 * below + 1) exponent (2 * x.mantissa) x.exponent with
    | .gt => some down
    | .lt => some up
    | .eq => some (if below % 2 = 0 then down else up)
  | true, false => some down
  | false, true => some up
  | false, false => none

def exact (x : Magnitude) : Decimal :=
  ⟨x.mantissa * powerOf 2 x.exponent * powerOf 5 (-x.exponent), min x.exponent 0⟩

/-- Seventeen digits always suffice, so the exact value is a default that is not reached. -/
def shortest (x : Magnitude) : Decimal :=
  let scale := x.scale
  ((List.range' 1 17).findSome? fun (count : Nat) => x.neighbour? (scale - count)).getD x.exact

end Magnitude

end FunctionGraph.Number
