import Stencil.Table
import Stencil.Value

/-!
# Comparison and membership

Two integers, two strings and two numbers can be ordered; strings are ordered by code points.  A
float that is not a number is in no order with anything.
-/

namespace Stencil.Operator

/-- Whether an operator of order accepts an ordering. -/
def accepts (op : BinaryOp) (ordering : Ordering) : Bool :=
  match op with
  | .gt => ordering == .gt
  | .gteq => ordering != .lt
  | .lt => ordering == .lt
  | _ => ordering != .gt

def orderIntegers (left right : Int64) : Ordering :=
  if left.toInt < right.toInt then .lt else if left = right then .eq else .gt

def orderStrings (left right : String) : Ordering :=
  if left < right then .lt else if left = right then .eq else .gt

def orderFloats? (left right : Float) : Option Ordering :=
  if left < right then some .lt
  else if right < left then some .gt
  else if left == right then some .eq
  else none

/-- The order of two values; there is none if one of them is not a number. -/
def order? (op : BinaryOp) (left right : Value) : Except OperatorFault (Option Ordering) :=
  match left, right with
  | .integer left, .integer right => .ok (some (orderIntegers left right))
  | left, right =>
    match left.string?, right.string? with
    | some left, some right => .ok (some (orderStrings left right))
    | _, _ =>
      match left.double?, right.double? with
      | some left, some right => .ok (orderFloats? left right)
      | _, _ => .error (.unsupportedOperands op left.type right.type)

def compare (op : BinaryOp) (left right : Value) : Except OperatorFault Bool := do
  match ← order? op left right with
  | some ordering => return accepts op ordering
  | none => return false

/-- Whether `part` occurs as a contiguous piece. -/
def hasPiece (part : List Char) : List Char → Bool
  | [] => part.isEmpty
  | char :: rest => part.isPrefixOf (char :: rest) || hasPiece part rest

/-- An element of a list, a key of a map or a piece of a string. -/
def isMember (item container : Value) : Except OperatorFault Bool :=
  match container with
  | .list items => .ok (items.any fun element => element.equals item)
  | .map entries => .ok (Table.contains item.key entries)
  | .string text | .safe text =>
    match item.string? with
    | some part => .ok (hasPiece part.toList text.toList)
    | none => .error (.needleNotString item.type)
  | other => .error (.notIterable other.type)

end Stencil.Operator
