/-!
# Integers of 64 bits

Integer results are computed exactly and then have to fit into 64 bits; no result is ever wrapped.
Division is that of the machine, which rounds towards zero, corrected to round towards negative
infinity.
-/

namespace Stencil.Integer

def least : Int := -9223372036854775808

def greatest : Int := 9223372036854775807

/-- A whole number as a 64-bit integer, if it fits. -/
def ofInt? (value : Int) : Option Int64 :=
  if least ≤ value ∧ value ≤ greatest then some (Int64.ofInt value) else none

/-- The sum, moved to the nearest end of the 64 bits if it does not fit. -/
def saturatingAdd (left right : Int64) : Int64 :=
  Int64.ofInt (max least (min greatest (left.toInt + right.toInt)))

/-- The integer, moved to the nearest end of a range if it lies outside. -/
def clamp (value first last : Int64) : Int64 :=
  if value < first then first else if last < value then last else value

/-- An integer as a number of elements, if it is not negative.  Such numbers have 64 bits without a
sign, so every integer from zero on is one. -/
def size? (value : Int64) : Option Nat :=
  if 0 ≤ value then some value.toInt.toNat else none

/-- Whether the quotient rounded towards zero does not fit: the least integer has no opposite. -/
def divisionOverflows (dividend divisor : Int64) : Bool :=
  dividend == Int64.minValue && divisor == -1

/-- The quotient rounded towards negative infinity, if it fits.  A quotient that is negative and not
exact lies one below the one that the machine finds. -/
def floorQuotient? (dividend divisor : Int64) : Option Int64 :=
  if divisionOverflows dividend divisor then
    none
  else if dividend % divisor ≠ 0 ∧ decide (dividend < 0) ≠ decide (divisor < 0) then
    ofInt? ((dividend / divisor).toInt - 1)
  else
    some (dividend / divisor)

/-- The remainder with the sign of the divisor.  The one that the machine finds has the sign of the
dividend, and there is none where its quotient does not fit. -/
def floorRemainder? (dividend divisor : Int64) : Option Int64 :=
  let rest := dividend % divisor
  if divisionOverflows dividend divisor then
    none
  else if rest ≠ 0 ∧ decide (rest < 0) ≠ decide (divisor < 0) then
    some (rest + divisor)
  else
    some rest

theorem least_le_toInt (value : Int64) : least ≤ value.toInt :=
  Int64.le_toInt value

theorem toInt_le_greatest (value : Int64) : value.toInt ≤ greatest := by
  have := Int64.toInt_lt value
  unfold greatest
  omega

theorem toInt_of_ofInt? {value : Int} {result : Int64} (hfits : ofInt? value = some result) :
    result.toInt = value := by
  unfold ofInt? at hfits
  split at hfits
  · next hrange =>
    cases hfits
    unfold least greatest at hrange
    exact Int64.toInt_ofInt_of_le (by omega) (by omega)
  · cases hfits

theorem ofInt?_toInt (value : Int64) : ofInt? value.toInt = some value := by
  simp [ofInt?, least_le_toInt, toInt_le_greatest]

/-- A whole number fits exactly if some 64-bit integer has its value. -/
theorem ofInt?_eq_some_iff {value : Int} {result : Int64} :
    ofInt? value = some result ↔ result.toInt = value := by
  constructor
  · exact toInt_of_ofInt?
  · rintro rfl
    exact ofInt?_toInt result

theorem ofInt?_eq_none {value : Int}
    (hlarge : value < -9223372036854775808 ∨ 9223372036854775808 ≤ value) :
    ofInt? value = none := by
  refine if_neg fun hrange => ?_
  unfold least greatest at hrange
  omega

theorem toInt_getD_ofInt? (length : Nat) :
    ((ofInt? length).getD Int64.maxValue).toInt = min (length : Int) greatest := by
  unfold ofInt?
  split
  · next hrange =>
    unfold least greatest at hrange
    rw [Option.getD_some, Int64.toInt_ofInt_of_le (by omega) (by omega)]
    unfold greatest
    omega
  · next hrange =>
    rw [Option.getD_none, Int64.toInt_maxValue]
    unfold least greatest at hrange
    unfold greatest
    omega

theorem toInt_saturatingAdd (left right : Int64) :
    (saturatingAdd left right).toInt = max least (min greatest (left.toInt + right.toInt)) := by
  unfold saturatingAdd least greatest
  exact Int64.toInt_ofInt_of_le (by omega) (by omega)

/-- A sum that fits into 64 bits is not wrapped. -/
theorem toInt_add_of_fits {left right : Int64} (hleast : least ≤ left.toInt + right.toInt)
    (hgreatest : left.toInt + right.toInt ≤ greatest) :
    (left + right).toInt = left.toInt + right.toInt := by
  unfold least at hleast
  unfold greatest at hgreatest
  rw [Int64.toInt_add, Int.bmod_eq_of_le (by omega) (by omega)]

theorem toInt_clamp {first last : Int64} (hrange : first ≤ last) (value : Int64) :
    (clamp value first last).toInt = max first.toInt (min last.toInt value.toInt) := by
  have hends := Int64.le_iff_toInt_le.1 hrange
  unfold clamp
  split
  · next hbelow =>
    have := Int64.lt_iff_toInt_lt.1 hbelow
    omega
  · next hbelow =>
    have := Int64.le_iff_toInt_le.1 (Int64.not_lt.1 hbelow)
    split
    · next habove =>
      have := Int64.lt_iff_toInt_lt.1 habove
      omega
    · next habove =>
      have := Int64.le_iff_toInt_le.1 (Int64.not_lt.1 habove)
      omega

theorem size?_of_nonneg {value : Int64} (hvalue : 0 ≤ value.toInt) :
    size? value = some value.toInt.toNat := by
  have hzero : (0 : Int64) ≤ value := Int64.le_iff_toInt_le.2 hvalue
  rw [size?, if_pos hzero]

end Stencil.Integer
