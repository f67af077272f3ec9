import Stencil.Grammar.Rule

/-!
# Operands

The innermost level of the grammar: numbers, strings, names, bracketed collections and groups, the
spread markers, and the postfix forms that follow an operand.  Whatever stands inside brackets is a
whole expression; its rule is a parameter of the rules here.
-/

namespace Stencil.Grammar

open Rule

/-- Words of the operators, which no variable may have as its name. -/
def reservedNames : List String :=
  ["and", "or", "in", "not", "is"]

/-- Replaces a backslash and `letter` by `value`, wherever they stand next to each other. -/
def replaceEscape (letter value : Char) : List Char → List Char
  | [] => []
  | char :: rest =>
    if char = '\\' then
      match rest with
      | [] => [char]
      | next :: rest =>
        if next = letter then
          value :: replaceEscape letter value rest
        else
          char :: replaceEscape letter value (next :: rest)
    else
      char :: replaceEscape letter value rest

/-- The value of a string token: only line feeds and tabs are escapes, and every other backslash is
part of the value. -/
def unescape (text : String) : String :=
  String.ofList (replaceEscape 't' '\t' (replaceEscape 'n' '\n' text.toList))

/-- Positional and named arguments, each in the order of the source. -/
structure ArgumentList where
  positional : List (Expr Token) := []
  named : List (String × Expr Token) := []

def number : ExprRule := do
  let token ← pop
  if token.kind = .integer then
    match Decimal.readInteger token.text with
    | .ok value => return .integer token value
    | .error fault => failAt token (.badInteger token.text fault)
  else
    match Decimal.readFloat token.text with
    | .ok value =>
      if value.isFinite then return .float token value
      else failAt token (.floatOutOfRange token.text)
    | .error fault => failAt token (.badFloat token.text fault)

def string : ExprRule := do
  let token ← pop
  return .string token (unescape token.text)

/-- A boolean ends the operand: no postfix form may follow it. -/
def booleanValue? (text : String) : Option Bool :=
  if text = "true" ∨ text = "True" then some true
  else if text = "false" ∨ text = "False" then some false
  else none

section

variable (expression : ExprRule)

/-- A comma with the item behind it, if there is one.  A comma right before the closing bracket has
no item behind it. -/
def nextItem (closing : Kind) :
    List (Expr Token) × Bool → Rule (Option (List (Expr Token) × Bool))
  | (items, _) => do
    match ← take? [.comma] with
    | none => return none
    | some _ =>
      if ← sees [closing] then return some (items, true)
      else return some (items ++ [← expression], false)

/-- Items up to a closing bracket, with whether a comma follows the last one. -/
def items (closing : Kind) : Rule (List (Expr Token) × Bool) := do
  let first ← expression
  repeatWhile ([first], false) (nextItem expression closing)

def list : ExprRule := do
  let opening ← pop
  match ← take? [.rightBracket] with
  | some _ => return .list opening []
  | none =>
    let (items, _) ← items expression .rightBracket
    expect .rightBracket (failHere fun _ => .missingBracket)
    return .list opening items

/-- One item without a comma is a group, which is the item itself. -/
def group : ExprRule := do
  let opening ← pop
  match ← take? [.rightParen] with
  | some _ => return .tuple opening []
  | none =>
    let (items, trailingComma) ← items expression .rightParen
    expect .rightParen (failAt opening .unbalancedParen)
    match items, trailingComma with
    | [item], false => return item
    | items, _ => return .tuple opening items

def pair : Rule (Expr Token × Expr Token) := do
  let key ← expression
  expect .colon (failHere fun _ => .missingColon)
  let value ← expression
  return (key, value)

/-- A comma with the pair behind it, if there is one.  A comma right before the closing brace has
no pair behind it. -/
def nextPair (pairs : List (Expr Token × Expr Token)) :
    Rule (Option (List (Expr Token × Expr Token))) := do
  match ← take? [.comma] with
  | none => return none
  | some _ =>
    if ← sees [.rightBrace] then return some pairs
    else return some (pairs ++ [← pair expression])

def dict : ExprRule := do
  let opening ← pop
  let first ← if ← sees [.rightBrace] then pure [] else pure [← pair expression]
  let pairs ← repeatWhile first (nextPair expression)
  expect .rightBrace (failHere fun _ => .missingBrace)
  return .dict opening pairs

/-- One argument.  It is a named one if an equals sign follows its name. -/
def argument (arguments : ArgumentList) : Rule ArgumentList := do
  let value ← expression
  match ← take? [.assign] with
  | none => return { arguments with positional := arguments.positional ++ [value] }
  | some assign =>
    match value with
    | .name token key =>
      if arguments.named.any fun (name, _) => name == key then
        failAt token (.duplicateKeyword key)
      else
        let value ← expression
        return { arguments with named := arguments.named ++ [(key, value)] }
    | other => failAt assign (.keywordNotName other.mark.text)

/-- The rest of an argument list, with at most one further argument for each of the given tokens.
The comma between two arguments may be left out. -/
def argumentsFrom (opening : Token) : List Token → ArgumentList → Rule ArgumentList
  | [], _ => failAt opening .unbalancedParen
  | _ :: tokens, arguments => do
    refuse endKinds (failAt opening .unbalancedParen)
    let arguments ← argument expression arguments
    let _ ← take? [.comma]
    match ← take? [.rightParen] with
    | some _ => return arguments
    | none => argumentsFrom opening tokens arguments

/-- The arguments behind an opening parenthesis that has been read. -/
def arguments (opening : Token) : Rule ArgumentList := do
  match ← take? [.rightParen] with
  | some _ => return {}
  | none => argumentsFrom expression opening (← get).upcoming {}

/-- What follows a dot: a name or a position. -/
def selector : Rule Selector := do
  match ← take? [.name, .integer] with
  | none => failHere fun token => .badSelector token.text
  | some token =>
    if token.kind = .name then
      return .name token.text
    else
      match Decimal.readIndex token.text with
      | .ok index => return .index index
      | .error fault => failAt token (.badIndex token.text fault)

/-- An expression, unless the given kind of token comes first. -/
def unlessSeen (kind : Kind) : Rule (Option (Expr Token)) := do
  if ← sees [kind] then return none else return some (← expression)

/-- An index, or a slice with one or both bounds left out, up to its closing bracket. -/
def subscriptNode (subject : Expr Token) (bracket : Token) : ExprRule := do
  let start ← unlessSeen expression .colon
  match ← take? [.colon] with
  | some _ =>
    let stop ← unlessSeen expression .rightBracket
    return .slice bracket subject start stop
  | none =>
    match start with
    | some key => return .subscript bracket subject key
    | none => failAt bracket .unbalancedBracket

def subscript (subject : Expr Token) (bracket : Token) : ExprRule := do
  refuse [.rightBracket] (failAt bracket .emptySubscript)
  let node ← subscriptNode expression subject bracket
  expect .rightBracket (failAt bracket .unbalancedBracket)
  return node

/-- One postfix form behind an operand, if there is one. -/
def postfixForm? (subject : Expr Token) : Rule (Option (Expr Token)) := do
  match ← take? [.dot, .leftBracket, .leftParen] with
  | none => return none
  | some token =>
    match token.kind with
    | .dot => return some (.member token subject (← selector))
    | .leftBracket => return some (← subscript expression subject token)
    | _ =>
      let { positional, named } ← arguments expression token
      return some (.call token subject positional named)

def withPostfix (operand : ExprRule) : ExprRule := do
  repeatWhile (← operand) (postfixForm? expression)

def variableOrBoolean : ExprRule := do
  let token ← pop
  match booleanValue? token.text with
  | some value => return .bool token value
  | none =>
    if token.text ∈ reservedNames then
      failAt token (.reservedName token.text)
    else
      repeatWhile (.name token token.text) (postfixForm? expression)

/-- An operand without spread markers. -/
def plainOperand : ExprRule := do
  match (← current).kind with
  | .integer | .float => withPostfix expression number
  | .string => withPostfix expression string
  | .leftParen => withPostfix expression (group expression)
  | .leftBracket => withPostfix expression (list expression)
  | .leftBrace => withPostfix expression (dict expression)
  | .name => variableOrBoolean expression
  | .eof | .variableEnd => failHere fun _ => .unexpectedEnd
  | _ => failHere fun token => .unexpectedOperand token.text

/-- The node of a spread marker. -/
def spreadBy (marker : Token) (operand : Expr Token) : Expr Token :=
  if marker.kind = .mul then .spread marker operand else .namedSpread marker operand

/-- Spread markers apply to the operand with all its postfix forms. -/
def operand : ExprRule := do
  let markers ← takeAll [.mul, .pow]
  let subject ← plainOperand expression
  return markers.foldr spreadBy subject

end

end Stencil.Grammar
