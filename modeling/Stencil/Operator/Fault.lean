import Stencil.Expression
import Stencil.Value.Type

/-!
# Why an operator has no result
-/

namespace Stencil

inductive OperatorFault where
  | unsupportedOperands (op : BinaryOp) (left right : ValueType)
  | integerOverflow (symbol : String)
  | divisionByZero
  | needleNotString (type : ValueType)
  | notIterable (type : ValueType)
  | repetitionTooLong (length times : Nat)
  | lazyOperator (op : BinaryOp)
  | unsupportedSign (sign : Sign) (type : ValueType)
  | indexNotInteger (type : ValueType)
  | notSubscriptable (type : ValueType)
  | boundNotInteger (type : ValueType)
  | notSliceable (type : ValueType)
  deriving DecidableEq, Repr

/-- The longest list or string that a repetition may make, in elements. -/
def maxRepetition : Nat := 10000000

def OperatorFault.message : OperatorFault → String
  | unsupportedOperands op left right =>
    "unsupported operand types for " ++ op.symbol ++ ": '" ++ left.label ++ "' and '" ++
      right.label ++ "'"
  | integerOverflow symbol => "integer overflow in '" ++ symbol ++ "'"
  | divisionByZero => "division by zero"
  | needleNotString type =>
    "'in <string>' requires string as left operand, not '" ++ type.label ++ "'"
  | notIterable type => "argument of type '" ++ type.label ++ "' is not iterable"
  | repetitionTooLong length times =>
    "repeated sequence is too long: " ++ toString length ++ " * " ++ toString times ++
      " exceeds " ++ toString maxRepetition ++ " elements"
  | lazyOperator op => "'" ++ op.symbol ++ "' cannot be applied eagerly"
  | unsupportedSign sign type =>
    "bad operand type for unary " ++ sign.symbol ++ ": '" ++ type.label ++ "'"
  | indexNotInteger type => "indices must be integers, not '" ++ type.label ++ "'"
  | notSubscriptable type => "'" ++ type.label ++ "' object is not subscriptable"
  | boundNotInteger type =>
    "slice indices must be integers or None, not '" ++ type.label ++ "'"
  | notSliceable type => "'" ++ type.label ++ "' object is not sliceable"

end Stencil
