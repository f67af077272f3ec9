/-!
# Expressions

The tree of an expression.  Every node carries a mark, which a parser sets to the token that stands
for the node in the source; the operations on trees that have nothing to do with places in a source
leave the type of marks open.
-/

namespace Stencil

inductive BinaryOp where
  | or
  | and
  | eq
  | ne
  | gt
  | gteq
  | lt
  | lteq
  /-- Membership, written `in`. -/
  | mem
  | add
  | sub
  | concat
  | mul
  | div
  | floorDiv
  | mod
  | pow
  deriving DecidableEq, Repr

namespace BinaryOp

/-- The spelling of an operator in a source. -/
def symbol : BinaryOp → String
  | or => "or"
  | and => "and"
  | eq => "=="
  | ne => "!="
  | gt => ">"
  | gteq => ">="
  | lt => "<"
  | lteq => "<="
  | mem => "in"
  | add => "+"
  | sub => "-"
  | concat => "~"
  | mul => "*"
  | div => "/"
  | floorDiv => "//"
  | mod => "%"
  | pow => "**"

def all : List BinaryOp :=
  [or, and, eq, ne, gt, gteq, lt, lteq, mem, add, sub, concat, mul, div, floorDiv, mod, pow]

def ofSymbol? (text : String) : Option BinaryOp :=
  all.find? fun op => op.symbol == text

end BinaryOp

inductive Sign where
  | minus
  | plus
  deriving DecidableEq, Repr

def Sign.symbol : Sign → String
  | minus => "-"
  | plus => "+"

/-- What stands after a dot: a name or a position counted from zero. -/
inductive Selector where
  | name (name : String)
  | index (index : UInt64)
  deriving DecidableEq, Repr

inductive Expr (Mark : Type) where
  | integer (mark : Mark) (value : Int64)
  | float (mark : Mark) (value : Float)
  | string (mark : Mark) (value : String)
  | bool (mark : Mark) (value : Bool)
  | name (mark : Mark) (name : String)
  | list (mark : Mark) (items : List (Expr Mark))
  | tuple (mark : Mark) (items : List (Expr Mark))
  /-- The pairs stand in the order of the source, repeated keys included. -/
  | dict (mark : Mark) (pairs : List (Expr Mark × Expr Mark))
  | member (mark : Mark) (subject : Expr Mark) (selector : Selector)
  | subscript (mark : Mark) (subject key : Expr Mark)
  | slice (mark : Mark) (subject : Expr Mark) (start stop : Option (Expr Mark))
  | call (mark : Mark) (callee : Expr Mark) (positional : List (Expr Mark))
      (named : List (String × Expr Mark))
  | binary (mark : Mark) (op : BinaryOp) (left right : Expr Mark)
  | negation (mark : Mark) (operand : Expr Mark)
  | signed (mark : Mark) (sign : Sign) (operand : Expr Mark)
  | test (mark : Mark) (subject : Expr Mark) (name : String) (argument : Option (Expr Mark))
  | filter (mark : Mark) (subject : Expr Mark) (name : String) (positional : List (Expr Mark))
      (named : List (String × Expr Mark))
  | conditional (mark : Mark) (condition consequent : Expr Mark)
      (alternative : Option (Expr Mark))
  /-- The elements of a list as positional arguments. -/
  | spread (mark : Mark) (operand : Expr Mark)
  /-- The entries of a map as named arguments. -/
  | namedSpread (mark : Mark) (operand : Expr Mark)

namespace Expr

variable {Mark : Type}

def mark : Expr Mark → Mark
  | integer mark _ | float mark _ | string mark _ | bool mark _ | name mark _ | list mark _
  | tuple mark _ | dict mark _ | member mark _ _ | subscript mark _ _ | slice mark _ _ _
  | call mark _ _ _ | binary mark _ _ _ | negation mark _ | signed mark _ _ | test mark _ _ _
  | filter mark _ _ _ _ | conditional mark _ _ _ | spread mark _ | namedSpread mark _ => mark

/-- The nodes right below a node, in the order of the source; named arguments come after the
positional ones. -/
def children : Expr Mark → List (Expr Mark)
  | integer _ _ | float _ _ | string _ _ | bool _ _ | name _ _ => []
  | list _ items | tuple _ items => items
  | dict _ pairs => pairs.flatMap fun (key, value) => [key, value]
  | member _ subject _ => [subject]
  | subscript _ subject key => [subject, key]
  | slice _ subject start stop => subject :: (start.toList ++ stop.toList)
  | call _ callee positional named => callee :: (positional ++ named.map Prod.snd)
  | binary _ _ left right => [left, right]
  | negation _ operand | signed _ _ operand => [operand]
  | test _ subject _ argument => subject :: argument.toList
  | filter _ subject _ positional named => subject :: (positional ++ named.map Prod.snd)
  | conditional _ condition consequent alternative =>
    consequent :: condition :: alternative.toList
  | spread _ operand | namedSpread _ operand => [operand]

mutual

/-- The names that an expression looks up, in the order of the source. -/
def names : Expr Mark → List String
  | integer _ _ | float _ _ | string _ _ | bool _ _ => []
  | name _ ident => [ident]
  | list _ items | tuple _ items => namesOfAll items
  | dict _ pairs => namesOfPairs pairs
  | member _ subject _ => subject.names
  | subscript _ subject key => subject.names ++ key.names
  | slice _ subject start stop => subject.names ++ namesOfOption start ++ namesOfOption stop
  | call _ callee positional named =>
    callee.names ++ namesOfAll positional ++ namesOfNamed named
  | binary _ _ left right => left.names ++ right.names
  | negation _ operand | signed _ _ operand => operand.names
  | test _ subject _ argument => subject.names ++ namesOfOption argument
  | filter _ subject _ positional named =>
    subject.names ++ namesOfAll positional ++ namesOfNamed named
  | conditional _ condition consequent alternative =>
    consequent.names ++ condition.names ++ namesOfOption alternative
  | spread _ operand | namedSpread _ operand => operand.names

def namesOfAll : List (Expr Mark) → List String
  | [] => []
  | item :: items => item.names ++ namesOfAll items

def namesOfPairs : List (Expr Mark × Expr Mark) → List String
  | [] => []
  | (key, value) :: pairs => key.names ++ value.names ++ namesOfPairs pairs

def namesOfNamed : List (String × Expr Mark) → List String
  | [] => []
  | (_, value) :: named => value.names ++ namesOfNamed named

def namesOfOption : Option (Expr Mark) → List String
  | none => []
  | some expr => expr.names

end

def references (name : String) (expr : Expr Mark) : Bool :=
  decide (name ∈ expr.names)

end Expr

end Stencil
