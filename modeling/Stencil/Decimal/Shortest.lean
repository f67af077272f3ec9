import Stencil.Decimal.Binary

/-!
# Shortest decimals

The decimal numeral of a double is the one with the fewest digits among those that lie closer to
it than to any other double (a boundary between two doubles counts for the one with the even
mantissa).  For a given number of digits only the two neighbours of the exact value on that decimal
grid have to be looked at; the first number of digits with a neighbour in range wins, of two such
neighbours the nearer one, and of two equally near ones the larger one.
-/

namespace Stencil.Decimal

/-- The number `digits * 10 ^ exponent`. -/
structure Numeral where
  digits : Nat
  exponent : Int
  deriving DecidableEq, Repr

/-- A positive rational number. -/
structure Ratio where
  numerator : Nat
  denominator : Nat

/-- `value * 2 ^ exponent` as a ratio. -/
def Ratio.scaled (value : Nat) (exponent : Int) : Ratio :=
  ⟨value * Nat.pow 2 exponent.toNat, Nat.pow 2 (-exponent).toNat⟩

/-- The exponent `k` with `10 ^ (k - 1) ≤ ratio < 10 ^ k`. -/
def Ratio.decimalOrder (ratio : Ratio) : Int :=
  if ratio.denominator ≤ ratio.numerator then
    (Nat.toDigits 10 (ratio.numerator / ratio.denominator)).length
  else
    1 - ((Nat.toDigits 10 ((ratio.denominator - 1) / ratio.numerator)).length : Int)

/-- The greatest multiple of `10 ^ exponent` that is at most the ratio, counted in that unit. -/
def Ratio.floorTo (ratio : Ratio) (exponent : Int) : Nat :=
  ratio.numerator * Nat.pow 10 (-exponent).toNat /
    (ratio.denominator * Nat.pow 10 exponent.toNat)

/-- The numbers that read back as the magnitude, in quarters of its unit. -/
structure RoundingRange where
  lower : Nat
  upper : Nat
  unit : Int
  closed : Bool

def Magnitude.range (magnitude : Magnitude) : RoundingRange where
  lower := 4 * magnitude.mantissa - (if magnitude.narrowBelow then 1 else 2)
  upper := 4 * magnitude.mantissa + 2
  unit := magnitude.exponent - 2
  closed := magnitude.mantissa % 2 == 0

/-- A numeral and a multiple of `2 ^ unit`, both as multiples of one common fraction. -/
def Numeral.against (numeral : Numeral) (unit : Int) (multiple : Nat) : Nat × Nat :=
  (numeral.digits * Nat.pow 10 numeral.exponent.toNat * Nat.pow 2 (-unit).toNat,
    multiple * Nat.pow 2 unit.toNat * Nat.pow 10 (-numeral.exponent).toNat)

def RoundingRange.contains (range : RoundingRange) (numeral : Numeral) : Bool :=
  let (below, lower) := numeral.against range.unit range.lower
  let (above, upper) := numeral.against range.unit range.upper
  if range.closed then
    decide (lower ≤ below) && decide (above ≤ upper)
  else
    decide (lower < below) && decide (above < upper)

/-- The neighbour of the magnitude with `places` digits that reads back, if there is one. -/
def Magnitude.withDigits? (magnitude : Magnitude) (order : Int) (places : Nat) : Option Numeral :=
  let exponent := order - places
  let below := (Ratio.scaled magnitude.mantissa magnitude.exponent).floorTo exponent
  let lower : Numeral := ⟨below, exponent⟩
  let upper : Numeral := ⟨below + 1, exponent⟩
  match magnitude.range.contains lower, magnitude.range.contains upper with
  | true, false => some lower
  | false, true => some upper
  | false, false => none
  | true, true =>
    let (middle, exact) := (Numeral.mk (2 * below + 1) exponent).against magnitude.exponent
      (2 * magnitude.mantissa)
    if exact < middle then some lower else some upper

/-- Searches from `places` digits on, for at most `attempts` numbers of digits. -/
def Magnitude.shortestFrom (magnitude : Magnitude) (order : Int) (places : Nat) :
    Nat → Option Numeral
  | 0 => none
  | attempts + 1 =>
    magnitude.withDigits? order places <|>
      magnitude.shortestFrom order (places + 1) attempts

/-- Removes the zeros at the end of the digits. -/
def Numeral.reduced (numeral : Numeral) : Nat → Numeral
  | 0 => numeral
  | rounds + 1 =>
    if numeral.digits % 10 = 0 then
      (Numeral.mk (numeral.digits / 10) (numeral.exponent + 1)).reduced rounds
    else
      numeral

/-- The shortest numeral of a positive magnitude; seventeen digits always suffice. -/
def Magnitude.shortest (magnitude : Magnitude) : Numeral :=
  let order := (Ratio.scaled magnitude.mantissa magnitude.exponent).decimalOrder
  ((magnitude.shortestFrom order 1 17).getD ⟨0, 0⟩).reduced 17

end Stencil.Decimal
