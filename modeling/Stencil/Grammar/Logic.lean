import Stencil.Grammar.Arithmetic

/-!
# Logic

From the loosest to the tightest level: the conditional, `or`, `and`, `not`, and comparisons with
the test that may follow them.  The tokens still to come bound how deeply expressions nest, which
ties the knot between whole expressions and the operands that hold them.
-/

namespace Stencil

/-- The part of the grammar that depends on the available tests. -/
structure Dialect where
  /-- The names of the tests that take an argument. -/
  testsWithArgument : List String
  deriving DecidableEq, Repr

namespace Dialect

def standard : Dialect where
  testsWithArgument :=
    ["divisibleby", "eq", "equalto", "ne", "ge", "gt", "greaterthan", "le", "lt", "lessthan",
      "sameas", "in", "==", "!=", ">", ">=", "<", "<="]

def withTest (dialect : Dialect) (name : String) : Dialect where
  testsWithArgument := name :: dialect.testsWithArgument

def takesArgument (dialect : Dialect) (name : String) : Bool :=
  decide (name ∈ dialect.testsWithArgument)

end Dialect

namespace Grammar

open Rule

/-- The operator of a comparison token; the word `in` is the only one left. -/
def comparisonOp : Kind → BinaryOp
  | .eq => .eq
  | .ne => .ne
  | .gt => .gt
  | .gteq => .gteq
  | .lt => .lt
  | .lteq => .lteq
  | _ => .mem

/-- The node of a negating word. -/
def negatedBy (token : Token) (operand : Expr Token) : Expr Token :=
  .negation token operand

/-- The operator of a comparison with its token, and the word `not` before `in`. -/
def comparator? : Rule (Option (Token × Option Token)) := do
  match ← take? [.eq, .ne, .gt, .gteq, .lt, .lteq] with
  | some token => return some (token, none)
  | none =>
    match ← takeName? ["in", "not"] with
    | none => return none
    | some word =>
      if word.isName ["not"] then
        match ← takeName? ["in"] with
        | some token => return some (token, some word)
        | none => failAt word .notWithoutIn
      else
        return some (word, none)

/-- An operator word, for a level with a single operator. -/
def wordOperator (word : String) (op : BinaryOp) : Rule (Option (BinaryOp × Token)) := do
  return (← takeName? [word]).map fun token => (op, token)

section

variable (dialect : Dialect) (expression : ExprRule)

/-- One comparison with what stands on its right, if there is one. -/
def comparison? (left : Expr Token) : Rule (Option (Expr Token)) := do
  match ← comparator? with
  | none => return none
  | some (token, negating?) =>
    refuse endKinds (failAt token .missingComparand)
    let right ← sum expression
    let compared := Expr.binary token (comparisonOp token.kind) left right
    return some (negating?.toList.foldr negatedBy compared)

/-- Filters on a whole comparison, and then a test if the word `is` follows.  Any token may name a
test; its argument is a single operand. -/
def tested (subject : Expr Token) : ExprRule := do
  let subject ← filters expression subject
  match ← takeName? ["is"] with
  | none => return subject
  | some word =>
    let negating? ← takeName? ["not"]
    refuse endKinds (failAt word .incompleteTest)
    let name ← pop
    let argument ←
      if dialect.takesArgument name.text then pure (some (← operand expression)) else pure none
    return negating?.toList.foldr negatedBy (.test name subject name.text argument)

def comparison : ExprRule := do
  let first ← sum expression
  let compared ← repeatWhile first (comparison? expression)
  tested dialect expression compared

/-- The word `not` applies to a whole comparison. -/
def negation : ExprRule := do
  let words ← takeAllNames ["not"]
  let subject ← comparison dialect expression
  return words.foldr negatedBy subject

def conjunction : ExprRule :=
  leftGrouped (negation dialect expression) (wordOperator "and" .and)

def disjunction : ExprRule :=
  leftGrouped (conjunction dialect expression) (wordOperator "or" .or)

/-- A value with the condition under which it is taken, and perhaps another value otherwise. -/
def conditional : ExprRule := do
  let consequent ← disjunction dialect expression
  match ← takeName? ["if"] with
  | none => return consequent
  | some word =>
    let condition ← disjunction dialect expression
    let alternative ←
      match ← takeName? ["else"] with
      | some _ => pure (some (← expression))
      | none => pure none
    return .conditional word condition consequent alternative

end

/-- A whole expression with at most one level of nesting for each of the given tokens.  Every level
moves past a token, so the last one finds the end of the stream. -/
def expressionOver (dialect : Dialect) : List Token → ExprRule
  | [] => failHere fun _ => .unexpectedEnd
  | _ :: tokens => conditional dialect (expressionOver dialect tokens)

/-- A rule over nested expressions, which the upcoming tokens bound. -/
def nested {α : Type} (dialect : Dialect) (rule : ExprRule → Rule α) : Rule α := do
  rule (expressionOver dialect (← get).upcoming)

/-- The loosest level of the grammar. -/
def expression (dialect : Dialect) : ExprRule :=
  nested dialect (conditional dialect)

end Grammar

end Stencil
