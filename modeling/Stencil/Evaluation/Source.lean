import Stencil.Evaluation.Macro
import Stencil.Grammar.Document

/-!
# Evaluation of sources

Texts are parsed and then evaluated in one step.  A text that cannot be parsed fails without any
effect.
-/

namespace Stencil

namespace Evaluation

variable (evaluator : Evaluator) (depth : Nat)

/-- Evaluates an expression with at most `depth` macro calls open at the same time. -/
def evaluateExpr (expr : Expr Token) : Evaluation Value :=
  evaluate evaluator (invoke evaluator depth) expr

/-- Writes a template body behind a text. -/
def executeBody (written : String) (body : List (Node Token)) : Run (String × Option Failure) :=
  execute evaluator (invoke evaluator depth) written body

def ofSyntax {α : Type} (result : Except SyntaxError α) : Evaluation α :=
  match result with
  | .ok value => pure value
  | .error error => throw (.malformed error)

def evaluateSource (source : String) : Evaluation Value := do
  let expr ← ofSyntax (parseExpression .standard source)
  evaluateExpr evaluator depth expr

def renderBody (body : List (Node Token)) : Evaluation String := do
  let (written, failure?) ← ofRun (executeBody evaluator depth "" body)
  match failure? with
  | none => return written
  | some failure => throw failure

def renderSource (source : String) : Evaluation String := do
  let body ← ofSyntax (parseTemplate .standard source)
  renderBody evaluator depth body

end Evaluation

end Stencil
