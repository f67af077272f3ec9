import Stencil.Evaluation.Evaluator
import Stencil.Operator.Access
import Stencil.Operator.Binary

/-!
# Evaluation of expressions

The value of an expression, by recursion on its tree.  How a macro is called is a parameter, since
its body is not a part of the expression that calls it.
-/

namespace Stencil

/-- A way to call the macro values. -/
structure MacroCall where
  definition : Macro Token
  signature : Signature Value
  scope : ScopeHandle
  arguments : Arguments

namespace Evaluation

variable (evaluator : Evaluator) (invoke : MacroCall → Evaluation Value)

/-- Calls a value. -/
def apply (token : Token) (callee : Value) (arguments : Arguments) : Evaluation Value :=
  match callee with
  | .function host => checked (evaluator.functions host arguments)
  | .procedure _ definition signature scope => invoke ⟨definition, signature, scope, arguments⟩
  | other => raise token (.notCallable other.type)

/-- The verdict of a test on a value. -/
def applyTest (token : Token) (test : Value → Option Value → Except String Bool) (value : Value)
    (argument : Option Value) : Evaluation Value :=
  match test value argument with
  | .ok verdict => pure (.bool verdict)
  | .error message => raise token (.reported message)

mutual

def evaluate : Expr Token → Evaluation Value
  | .integer _ value => pure (.integer value)
  | .float _ value => pure (.float value)
  | .string _ value => pure (.string value)
  | .bool _ value => pure (.bool value)
  | .name _ name => lookUp name
  | .list _ items | .tuple _ items => do
    return .list (← evaluateItems items)
  | .dict _ pairs => do
    return .map (← evaluatePairs pairs [])
  | .member token subject selector => do
    let value ← evaluate subject
    ofOperator token (Operator.select value selector)
  | .subscript token subject key => do
    let value ← evaluate subject
    let key ← evaluate key
    ofOperator token (Operator.subscript value key)
  | .slice token subject start stop => do
    let value ← evaluate subject
    let start ← evaluateOption start
    let stop ← evaluateOption stop
    ofOperator token (Operator.slice value start stop)
  | .call token callee positional named => do
    let callee ← evaluate callee
    let arguments ← evaluatePositional positional {}
    let arguments ← evaluateNamed named arguments
    apply evaluator invoke token callee arguments
  | .binary token op left right => do
    let left ← evaluate left
    match op with
    | .and => if left.isTruthy then evaluate right else pure left
    | .or => if left.isTruthy then pure left else evaluate right
    | op =>
      let right ← evaluate right
      ofOperator token (Operator.binary op left right)
  | .negation _ operand => do
    let value ← evaluate operand
    return .bool !value.isTruthy
  | .signed token sign operand => do
    let value ← evaluate operand
    ofOperator token (Operator.applySign sign value)
  | .test token subject name argument =>
    match evaluator.tests.get? name with
    | none => throw (.unknownTest name)
    | some test => do
      let value ← evaluate subject
      let argument ← evaluateOption argument
      applyTest token test value argument
  | .filter _ subject name positional named =>
    match evaluator.filters.get? name with
    | none => throw (.unknownFilter name)
    | some filter => do
      let value ← evaluate subject
      let arguments ← evaluatePositional positional {}
      let arguments ← evaluateNamed named arguments
      checked (filter value arguments)
  | .conditional _ condition consequent alternative => do
    let value ← evaluate condition
    if value.isTruthy then
      evaluate consequent
    else
      return (← evaluateOption alternative).getD .null
  | .spread token _ | .namedSpread token _ => raise token (.misplacedSpread token.text)

def evaluateItems : List (Expr Token) → Evaluation (List Value)
  | [] => pure []
  | item :: items => do
    let value ← evaluate item
    let values ← evaluateItems items
    return value :: values

/-- The entries of a dictionary, added to a table from left to right. -/
def evaluatePairs : List (Expr Token × Expr Token) → Table Value → Evaluation (Table Value)
  | [], table => pure table
  | (key, value) :: pairs, table => do
    let key ← evaluate key
    let value ← evaluate value
    evaluatePairs pairs (Table.insert key.key value table)

/-- Positional arguments, added from left to right.  Spread lists and maps are taken apart. -/
def evaluatePositional : List (Expr Token) → Arguments → Evaluation Arguments
  | [], arguments => pure arguments
  | .spread token operand :: rest, arguments => do
    match ← evaluate operand with
    | .list items => evaluatePositional rest (arguments.addPositional items)
    | other => raise token (.spreadNotList other.type)
  | .namedSpread token operand :: rest, arguments => do
    match ← evaluate operand with
    | .map entries => evaluatePositional rest (arguments.addNamed entries)
    | other => raise token (.spreadNotMap other.type)
  | item :: rest, arguments => do
    let value ← evaluate item
    evaluatePositional rest (arguments.addPositional [value])

/-- Named arguments are added after all others and so win over spread ones. -/
def evaluateNamed : List (String × Expr Token) → Arguments → Evaluation Arguments
  | [], arguments => pure arguments
  | (name, expr) :: rest, arguments => do
    let value ← evaluate expr
    evaluateNamed rest (arguments.addNamed [(name, value)])

def evaluateOption : Option (Expr Token) → Evaluation (Option Value)
  | none => pure none
  | some expr => do
    let value ← evaluate expr
    return some value

end

/-- The output of a template body behind the text written so far.  A failure ends the output but
takes nothing of it back. -/
def execute (written : String) : List (Node Token) → Run (String × Option Failure)
  | [] => pure (written, none)
  | .text content :: rest => execute (written ++ content) rest
  | .output expr :: rest => do
    match ← outcome (evaluate evaluator invoke expr) with
    | .ok value => execute (written ++ value.display) rest
    | .error failure => pure (written, some failure)

end Evaluation

end Stencil
