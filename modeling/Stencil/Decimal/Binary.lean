/-!
# The exact value of a double

A finite double is a signed natural number times a power of two.  The decoding below reads the
three fields of the 64-bit pattern: the sign, eleven bits of biased exponent and fifty-two bits of
fraction.  A biased exponent of zero marks the subnormal numbers, which have no hidden bit and the
exponent of the smallest normal ones.
-/

namespace Stencil.Decimal

/-- The absolute value `mantissa * 2 ^ exponent` of a finite double. -/
structure Magnitude where
  mantissa : Nat
  exponent : Int
  /-- The double below is only half as far away as the one above. -/
  narrowBelow : Bool
  deriving DecidableEq, Repr

/-- The sign bit, set for `-0.0` too. -/
def isNegative (value : Float) : Bool :=
  value.toBits >>> 63 == 1

/-- The weight of the hidden bit above the fifty-two bits of the fraction. -/
def hiddenBit : Nat := 1 <<< 52

/-- The magnitude encoded in the low 63 bits of a finite double's pattern. -/
def Magnitude.ofBits (bits : Nat) : Magnitude :=
  let fraction : Nat := bits % hiddenBit
  let biased : Nat := bits / hiddenBit % 2048
  if biased = 0 then
    ⟨fraction, -1074, false⟩
  else
    ⟨hiddenBit + fraction, (biased : Int) - 1075, fraction == 0 && decide (1 < biased)⟩

def Magnitude.ofFloat (value : Float) : Magnitude :=
  .ofBits value.toBits.toNat

end Stencil.Decimal
