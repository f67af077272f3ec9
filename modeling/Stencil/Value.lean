import Stencil.Call.Signature
import Stencil.Decimal.Notation
import Stencil.Failure
import Stencil.Scope.Handle
import Stencil.Template

/-!
# Values

What expressions evaluate to.  A callable value is a function of the host or a macro; each one has
an identity of its own, given to it when it was made, and is equal to itself alone.  A failure may
also travel as a value: it is what a callable returns when it fails.
-/

namespace Stencil

/-- A function that the host provides; what it computes is known to the host alone. -/
structure HostFunction where
  identity : Nat
  name : String
  deriving DecidableEq, Repr

inductive Value where
  | null
  | bool (value : Bool)
  | integer (value : Int64)
  | float (value : Float)
  | string (text : String)
  /-- Text that is already fit for output, such as the output of a macro. -/
  | safe (text : String)
  | list (items : List Value)
  /-- The entries stand in ascending order of their keys. -/
  | map (entries : List (String × Value))
  | function (host : HostFunction)
  /-- A macro with its evaluated defaults and the scope in which it was declared. -/
  | procedure (identity : Nat) (definition : Macro Token) (signature : Signature Value)
      (scope : ScopeHandle)
  | error (failure : Failure)

namespace Value

def type : Value → ValueType
  | null => .null
  | bool _ => .bool
  | integer _ => .integer
  | float _ => .float
  | string _ | safe _ => .string
  | list _ => .list
  | map _ => .map
  | function _ | procedure _ _ _ _ => .callable
  | error _ => .error

/-- Zero, the empty text, the empty collections, null and failures count as false. -/
def isTruthy : Value → Bool
  | null | error _ => false
  | bool value => value
  | integer value => value != 0
  | float value => value != 0
  | string text | safe text => !text.isEmpty
  | list items => !items.isEmpty
  | map entries => !entries.isEmpty
  | function _ | procedure _ _ _ _ => true

def isError : Value → Bool
  | error _ => true
  | _ => false

/-- The text of a plain or safe string. -/
def string? : Value → Option String
  | string text | safe text => some text
  | _ => none

/-- The double nearest to an integer. -/
def doubleOf (value : Int64) : Float :=
  Float.ofInt value.toInt

/-- A number as a double. -/
def double? : Value → Option Float
  | integer value => some (doubleOf value)
  | float value => some value
  | _ => none

/-- A text inside a collection: quoted, with a backslash before each quote. -/
def quotedText (text : String) : String :=
  let escape (char : Char) : List Char := if char = '\'' then ['\\', '\''] else [char]
  String.ofList ('\'' :: (text.toList.flatMap escape ++ ['\'']))

def commaSeparated (parts : List String) : String :=
  String.intercalate ", " parts

def callableText (name : String) : String :=
  "<callable " ++ name ++ ">"

mutual

/-- The text of a value.  Inside a collection texts are quoted and null has a name; on its own a
text stands for itself and null for nothing. -/
def render (inside : Bool) : Value → String
  | null => if inside then "None" else ""
  | bool value => if value then "True" else "False"
  | integer value => Decimal.integerText value
  | float value => Decimal.floatText value
  | string text | safe text => if inside then quotedText text else text
  | list items => "[" ++ commaSeparated (renderItems items) ++ "]"
  | map entries => "\x7b" ++ commaSeparated (renderEntries entries) ++ "\x7d"
  | function host => callableText host.name
  | procedure _ definition _ _ => callableText definition.name
  | error failure => failure.message

def renderItems : List Value → List String
  | [] => []
  | item :: items => item.render true :: renderItems items

def renderEntries : List (String × Value) → List String
  | [] => []
  | (key, value) :: entries => ("'" ++ key ++ "': " ++ value.render true) :: renderEntries entries

end

/-- The text by which a value is shown in the output. -/
def display (value : Value) : String :=
  value.render false

/-- The text by which a value serves as the key of a map. -/
def key (value : Value) : String :=
  match value.string? with
  | some text => text
  | none => value.display

mutual

/-- Equality of values.  An integer equals a float of the same value after rounding it to a double;
plain and safe strings are equal if their texts are. -/
def equals (left right : Value) : Bool :=
  match left with
  | null =>
    match right with
    | null => true
    | _ => false
  | bool value =>
    match right with
    | bool value' => value == value'
    | _ => false
  | integer value =>
    match right with
    | integer value' => value == value'
    | float value' => doubleOf value == value'
    | _ => false
  | float value =>
    match right with
    | integer value' => doubleOf value' == value
    | float value' => value == value'
    | _ => false
  | string text | safe text => right.string? == some text
  | list items =>
    match right with
    | list items' => equalItems items items'
    | _ => false
  | map entries =>
    match right with
    | map entries' => equalEntries entries entries'
    | _ => false
  | function host =>
    match right with
    | function host' => host.identity == host'.identity
    | _ => false
  | procedure identity _ _ _ =>
    match right with
    | procedure identity' _ _ _ => identity == identity'
    | _ => false
  | error failure =>
    match right with
    | error failure' => failure.agrees failure'
    | _ => false

def equalItems : List Value → List Value → Bool
  | [], [] => true
  | item :: items, item' :: items' => item.equals item' && equalItems items items'
  | _, _ => false

def equalEntries : List (String × Value) → List (String × Value) → Bool
  | [], [] => true
  | (key, value) :: entries, (key', value') :: entries' =>
    key == key' && value.equals value' && equalEntries entries entries'
  | _, _ => false

end

end Value

end Stencil
