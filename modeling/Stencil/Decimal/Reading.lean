/-!
# Reading numbers

A whole number is an optional sign and decimal digits; the first character that is no digit, or the
first digit that leaves the range of the type, decides the fault.  A float is an optional sign
followed by digits with an optional point and exponent, or by the name of infinity or of not a
number in any case; it is rounded to the nearest double, so a numeral that is too large becomes an
infinity and one that is too small becomes zero.
-/

namespace Stencil.Decimal

inductive IntegerFault where
  | empty
  | invalidDigit
  | tooLarge
  | tooSmall
  deriving DecidableEq, Repr

def IntegerFault.message : IntegerFault → String
  | empty => "cannot parse integer from empty string"
  | invalidDigit => "invalid digit found in string"
  | tooLarge => "number too large to fit in target type"
  | tooSmall => "number too small to fit in target type"

inductive FloatFault where
  | empty
  | invalid
  deriving DecidableEq, Repr

def FloatFault.message : FloatFault → String
  | empty => "cannot parse float from empty string"
  | invalid => "invalid float literal"

def digitValue (char : Char) : Nat :=
  char.toNat - '0'.toNat

/-- Appends the digits to `value` as long as the result is at most `limit`. -/
def readDigits (limit : Nat) (excess : IntegerFault) (value : Nat) :
    List Char → Except IntegerFault Nat
  | [] => .ok value
  | char :: rest =>
    if char.isDigit then
      let next := 10 * value + digitValue char
      if next ≤ limit then readDigits limit excess next rest else .error excess
    else
      .error .invalidDigit

def maxInteger : Nat := 9223372036854775807

def maxIndex : Nat := 18446744073709551615

/-- At least one digit, read as by `readDigits`. -/
def readNumber (limit : Nat) (excess : IntegerFault) : List Char → Except IntegerFault Nat
  | [] => .error .invalidDigit
  | digits => readDigits limit excess 0 digits

def readInteger (text : String) : Except IntegerFault Int64 :=
  match text.toList with
  | [] => .error .empty
  | '-' :: digits =>
    (readNumber (maxInteger + 1) .tooSmall digits).map fun value => Int64.ofInt (-value)
  | '+' :: digits => (readNumber maxInteger .tooLarge digits).map fun value => Int64.ofNat value
  | digits => (readNumber maxInteger .tooLarge digits).map fun value => Int64.ofNat value

/-- An unsigned number; it may carry a plus sign but no minus sign. -/
def readIndex (text : String) : Except IntegerFault UInt64 :=
  match text.toList with
  | [] => .error .empty
  | '+' :: digits => (readNumber maxIndex .tooLarge digits).map fun value => UInt64.ofNat value
  | digits => (readNumber maxIndex .tooLarge digits).map fun value => UInt64.ofNat value

/-- The number written by a list of digits. -/
def naturalOfDigits (digits : List Char) : Nat :=
  digits.foldl (fun value char => 10 * value + digitValue char) 0

/-- The double nearest to `mantissa * 10 ^ exponent`. -/
def nearestDouble (mantissa : Nat) (exponent : Int) : Float :=
  let order := (Nat.toDigits 10 mantissa).length + exponent
  if mantissa = 0 then 0
  else if 310 < order then 1 / 0
  else if order < -330 then 0
  else Float.ofScientific mantissa (decide (exponent < 0)) exponent.natAbs

/-- The text after the exponent mark: an optional sign and at least one digit. -/
def readExponent (text : List Char) : Option Int :=
  let magnitude (digits : List Char) : Option Nat :=
    if !digits.isEmpty && digits.all Char.isDigit then some (naturalOfDigits digits) else none
  match text with
  | '-' :: digits => (magnitude digits).map fun value => -value
  | '+' :: digits => (magnitude digits).map fun value => value
  | digits => (magnitude digits).map fun value => value

/-- Splits off the digits at the front. -/
def spanDigits (text : List Char) : List Char × List Char :=
  (text.takeWhile Char.isDigit, text.dropWhile Char.isDigit)

def readFiniteFloat (text : List Char) : Option Float :=
  let (whole, afterWhole) := spanDigits text
  let (fraction, rest) :=
    match afterWhole with
    | '.' :: afterPoint => spanDigits afterPoint
    | other => ([], other)
  if whole.isEmpty && fraction.isEmpty then
    none
  else
    let exponent :=
      match rest with
      | [] => some 0
      | mark :: power => if mark = 'e' ∨ mark = 'E' then readExponent power else none
    exponent.map fun exponent =>
      nearestDouble (naturalOfDigits (whole ++ fraction)) (exponent - fraction.length)

def readUnsignedFloat (text : List Char) : Option Float :=
  let lower := text.map Char.toLower
  if lower = ['i', 'n', 'f'] ∨ lower = ['i', 'n', 'f', 'i', 'n', 'i', 't', 'y'] then
    some (1 / 0)
  else if lower = ['n', 'a', 'n'] then
    some (0 / 0)
  else
    readFiniteFloat text

def readFloat (text : String) : Except FloatFault Float :=
  let value? :=
    match text.toList with
    | '-' :: rest => (readUnsignedFloat rest).map fun value => -value
    | '+' :: rest => readUnsignedFloat rest
    | rest => readUnsignedFloat rest
  match value? with
  | some value => .ok value
  | none => .error (if text.isEmpty then .empty else .invalid)

end Stencil.Decimal
