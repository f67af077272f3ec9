import Stencil.Decimal.Notation
import Stencil.Expression

/-!
# Canonical text

Every expression is written in one way: each operation stands in parentheses of its own, so that no
precedence is needed to read it, and list items are separated by a comma and one blank.
-/

namespace Stencil.Expr

variable {Mark : Type}

/-- Whether every `quote` in the characters stands after an odd number of backslashes, so that it
does not close a string.  `escaped` tells whether the number of backslashes right before the
characters is odd. -/
def fitsQuotes (quote : Char) (escaped : Bool) : List Char → Bool
  | [] => true
  | char :: rest =>
    if char = quote ∧ escaped = false then
      false
    else
      fitsQuotes quote (char == '\\' && !escaped) rest

/-- Line feeds and tabs are written with a backslash; other escapes are part of the value. -/
def escapeChar (char : Char) : List Char :=
  if char = '\n' then ['\\', 'n']
  else if char = '\t' then ['\\', 't']
  else [char]

def stringText (value : String) : String :=
  let chars := value.toList
  let quote := if fitsQuotes '\'' false chars then '\'' else '"'
  String.ofList (quote :: (chars.flatMap escapeChar ++ [quote]))

def boolText (value : Bool) : String :=
  if value then "true" else "false"

def selectorText : Selector → String
  | .name ident => ident
  | .index index => toString index.toNat

def commaSeparated (items : List String) : String :=
  String.intercalate ", " items

/-- The written subject of a postfix form.  An integer needs parentheses, or the dot after it would
be read as its decimal point. -/
def subjectText (subject : Expr Mark) (text : String) : String :=
  match subject with
  | integer _ _ => "(" ++ text ++ ")"
  | _ => text

mutual

def canonical : Expr Mark → String
  | integer _ value => Decimal.integerText value
  | float _ value => Decimal.floatText value
  | string _ value => stringText value
  | bool _ value => boolText value
  | name _ ident => ident
  | list _ items => "[" ++ commaSeparated (canonicalItems items) ++ "]"
  | tuple _ items =>
    "(" ++ commaSeparated (canonicalItems items) ++ (if items.length = 1 then ",)" else ")")
  | dict _ pairs => "\x7b" ++ commaSeparated (canonicalPairs pairs) ++ "\x7d"
  | member _ subject selector =>
    subjectText subject subject.canonical ++ "." ++ selectorText selector
  | subscript _ subject key => subjectText subject subject.canonical ++ "[" ++ key.canonical ++ "]"
  | slice _ subject start stop =>
    subjectText subject subject.canonical ++ "[" ++ canonicalOption "" start ++ ":" ++
      canonicalOption "" stop ++ "]"
  | call _ callee positional named =>
    subjectText callee callee.canonical ++ "(" ++
      commaSeparated (canonicalItems positional ++ canonicalNamed named) ++ ")"
  | binary _ op left right =>
    "(" ++ left.canonical ++ " " ++ op.symbol ++ " " ++ right.canonical ++ ")"
  | negation _ operand => "(not " ++ operand.canonical ++ ")"
  | signed _ sign operand => "(" ++ sign.symbol ++ operand.canonical ++ ")"
  | test _ subject label argument =>
    "(" ++ subject.canonical ++ " is " ++ label ++ canonicalOption " " argument ++ ")"
  | filter _ subject label positional named =>
    "(" ++ subject.canonical ++ "|" ++ label ++
      (if positional.isEmpty && named.isEmpty then ""
        else "(" ++ commaSeparated (canonicalItems positional ++ canonicalNamed named) ++ ")") ++
      ")"
  | conditional _ condition consequent alternative =>
    "(" ++ consequent.canonical ++ " if " ++ condition.canonical ++
      canonicalOption " else " alternative ++ ")"
  | spread _ operand => "*" ++ operand.canonical
  | namedSpread _ operand => "**" ++ operand.canonical

def canonicalItems : List (Expr Mark) → List String
  | [] => []
  | item :: items => item.canonical :: canonicalItems items

def canonicalPairs : List (Expr Mark × Expr Mark) → List String
  | [] => []
  | (key, value) :: pairs => (key.canonical ++ ": " ++ value.canonical) :: canonicalPairs pairs

def canonicalNamed : List (String × Expr Mark) → List String
  | [] => []
  | (key, value) :: named => (key ++ "=" ++ value.canonical) :: canonicalNamed named

/-- An optional part, written after `lead` if it is there. -/
def canonicalOption (lead : String) : Option (Expr Mark) → String
  | none => ""
  | some expr => lead ++ expr.canonical

end

end Stencil.Expr
