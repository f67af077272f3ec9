/-!
# Types of values

The types that messages name.  Plain and safe strings have one type.
-/

namespace Stencil

inductive ValueType where
  | null
  | bool
  | integer
  | float
  | string
  | list
  | map
  | callable
  | error
  deriving DecidableEq, Repr

def ValueType.label : ValueType → String
  | null => "null"
  | bool => "bool"
  | integer => "integer"
  | float => "float"
  | string => "string"
  | list => "list"
  | map => "map"
  | callable => "callable"
  | error => "error"

end Stencil
