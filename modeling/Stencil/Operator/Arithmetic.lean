import Stencil.Value
import Stencil.Value.Integer

/-!
# Arithmetic

Integer arithmetic is exact: a result outside of 64 bits is a fault and is never wrapped.  Division
and remainder round towards negative infinity, so a remainder has the sign of its divisor.  As soon
as one operand is a float all arithmetic is that of doubles.
-/

namespace Stencil.Operator

/-- An integer result, or the fault of an operator whose result does not fit. -/
def fitting (op : BinaryOp) (result? : Option Int64) : Except OperatorFault Value :=
  match result? with
  | some result => .ok (.integer result)
  | none => .error (.integerOverflow op.symbol)

/-- An exact integer result, if it fits. -/
def exactly (op : BinaryOp) (value : Int) : Except OperatorFault Value :=
  fitting op (Integer.ofInt? value)

/-- An exponent with the same power, as far as the power fits into 64 bits: beyond 64 only the
parity of the exponent matters. -/
def boundedExponent (exponent : Nat) : Nat :=
  if exponent ≤ 64 then exponent else 64 + exponent % 2

/-- The greatest exponent of an exact power: 32 bits without a sign. -/
def maxExponent : Int := 4294967295

/-- An exact power if the exponent is in range, and otherwise a float. -/
def integerPower (base exponent : Int64) : Except OperatorFault Value :=
  if 0 ≤ exponent.toInt ∧ exponent.toInt ≤ maxExponent then
    exactly .pow (Int.pow base.toInt (boundedExponent exponent.toInt.toNat))
  else
    .ok (.float (Float.pow (Value.doubleOf base) (Value.doubleOf exponent)))

def isDivision : BinaryOp → Bool
  | .div | .floorDiv | .mod => true
  | _ => false

def integerArithmetic (op : BinaryOp) (left right : Int64) : Except OperatorFault Value :=
  if isDivision op ∧ right = 0 then
    .error .divisionByZero
  else
    match op with
    | .add => exactly op (left.toInt + right.toInt)
    | .sub => exactly op (left.toInt - right.toInt)
    | .mul => exactly op (left.toInt * right.toInt)
    | .div => .ok (.float (Value.doubleOf left / Value.doubleOf right))
    | .floorDiv => fitting op (Integer.floorQuotient? left right)
    | .mod => fitting op (Integer.floorRemainder? left right)
    | _ => integerPower left right

def floatArithmetic (op : BinaryOp) (left right : Float) : Except OperatorFault Value :=
  if isDivision op ∧ right == 0 then
    .error .divisionByZero
  else
    .ok <| .float <|
      match op with
      | .add => left + right
      | .sub => left - right
      | .mul => left * right
      | .div => left / right
      | .floorDiv => (left / right).floor
      | .mod => left - right * (left / right).floor
      | _ => Float.pow left right

/-- The items `times` times over; a negative number of times counts as none.  Numbers of elements
have 64 bits without a sign: every other number of times is one of them, and where the product does
not fit it is too long as well. -/
def repeated {α : Type} (items : List α) (times : Int64) : Except OperatorFault (List α) :=
  let times := times.toInt.toNat
  if items.length * times ≤ maxRepetition then
    .ok (if items.isEmpty then [] else (List.replicate times items).flatten)
  else
    .error (.repetitionTooLong items.length times)

/-- A list or a string repeated. -/
def repetition? (sequence : Value) (times : Int64) : Option (Except OperatorFault Value) :=
  match sequence with
  | .list items => some ((repeated items times).map .list)
  | .string text | .safe text =>
    some ((repeated text.toList times).map fun chars => .string (String.ofList chars))
  | _ => none

/-- Addition and multiplication of sequences. -/
def sequenceArithmetic? (op : BinaryOp) (left right : Value) :
    Option (Except OperatorFault Value) :=
  match op with
  | .add =>
    match left, right with
    | .list left, .list right => some (.ok (.list (left ++ right)))
    | left, right =>
      match left.string?, right.string? with
      | some left, some right => some (.ok (.string (left ++ right)))
      | _, _ => none
  | .mul =>
    match left, right with
    | sequence, .integer times => repetition? sequence times
    | .integer times, sequence => repetition? sequence times
    | _, _ => none
  | _ => none

def arithmetic (op : BinaryOp) (left right : Value) : Except OperatorFault Value :=
  match left, right with
  | .integer left, .integer right => integerArithmetic op left right
  | left, right =>
    match left.double?, right.double? with
    | some left, some right => floatArithmetic op left right
    | _, _ =>
      (sequenceArithmetic? op left right).getD
        (.error (.unsupportedOperands op left.type right.type))

def applySign (sign : Sign) (value : Value) : Except OperatorFault Value :=
  match sign, value with
  | .minus, .integer value =>
    match Integer.ofInt? (-value.toInt) with
    | some result => .ok (.integer result)
    | none => .error (.integerOverflow sign.symbol)
  | .minus, .float value => .ok (.float (-value))
  | .plus, .integer value => .ok (.integer value)
  | .plus, .float value => .ok (.float value)
  | sign, value => .error (.unsupportedSign sign value.type)

end Stencil.Operator
