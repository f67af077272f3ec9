import Stencil.Decimal.Shortest

/-!
# How numbers are written

Whole numbers are written in plain decimal.  A double is written with its shortest numeral:
positionally from `1e-4` up to but not including `1e16`, always with a point, and otherwise as one
digit, the fraction if there is one, and the power of ten.
-/

namespace Stencil.Decimal

def integerText (value : Int64) : String :=
  toString value.toInt

/-- The numeral `0.d₁d₂… * 10 ^ point` with the point set in place. -/
def positional (digits : List Char) (point : Int) : List Char :=
  if point ≤ 0 then
    ['0', '.'] ++ List.replicate (-point).toNat '0' ++ digits
  else if digits.length ≤ point.toNat then
    digits ++ List.replicate (point.toNat - digits.length) '0' ++ ['.', '0']
  else
    digits.take point.toNat ++ ['.'] ++ digits.drop point.toNat

def scientific (digits : List Char) (point : Int) : List Char :=
  let fraction := digits.drop 1
  digits.take 1 ++ (if fraction.isEmpty then [] else '.' :: fraction) ++
    ['e'] ++ (toString (point - 1)).toList

/-- The values of `point` for which a numeral is written positionally. -/
def isPositional (point : Int) : Bool :=
  decide (-3 ≤ point) && decide (point ≤ 16)

def Numeral.text (numeral : Numeral) : List Char :=
  let digits := Nat.toDigits 10 numeral.digits
  let point := digits.length + numeral.exponent
  if isPositional point then positional digits point else scientific digits point

def floatText (value : Float) : String :=
  if value.isNaN then
    "NaN"
  else
    let sign := if isNegative value then ['-'] else []
    let magnitude := Magnitude.ofFloat value
    let unsigned :=
      if value.isInf then ['i', 'n', 'f']
      else if magnitude.mantissa = 0 then ['0', '.', '0']
      else magnitude.shortest.text
    String.ofList (sign ++ unsigned)

end Stencil.Decimal
