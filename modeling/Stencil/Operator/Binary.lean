import Stencil.Operator.Arithmetic
import Stencil.Operator.Order

/-!
# Binary operators

The operators that need the values of both operands.  `and` and `or` are not among them, since they
may leave their right operand alone.
-/

namespace Stencil.Operator

def binary (op : BinaryOp) (left right : Value) : Except OperatorFault Value :=
  match op with
  | .eq => .ok (.bool (left.equals right))
  | .ne => .ok (.bool !left.equals right)
  | .gt | .gteq | .lt | .lteq => (compare op left right).map .bool
  | .mem => (isMember left right).map .bool
  | .concat => .ok (.string (left.display ++ right.display))
  | .or | .and => .error (.lazyOperator op)
  | _ => arithmetic op left right

end Stencil.Operator
