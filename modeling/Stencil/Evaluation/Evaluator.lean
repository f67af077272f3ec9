import Stencil.Call.Arguments
import Stencil.Registry
import Stencil.Scope.Context

/-!
# Evaluations

An evaluation runs in a context and ends with a value or a failure; in both cases the context stays
as it is then.  It has no outcome at all if macros call each other more deeply than is allowed.
-/

namespace Stencil

/-- What a host adds to the language: filters, tests, and the meaning of its functions. -/
structure Evaluator where
  filters : Registry (Value → Arguments → Value)
  /-- A test may also fail, in the words of the host. -/
  tests : Registry (Value → Option Value → Except String Bool)
  functions : HostFunction → Arguments → Value

/-- An evaluator without filters and tests, in which every host function returns null. -/
def Evaluator.bare : Evaluator where
  filters := .empty .filter
  tests := .empty .test
  functions _ _ := .null

/-- A computation over a context, without an outcome where calls nest too deeply. -/
abbrev Run := StateT Context Option

abbrev Evaluation := ExceptT Failure Run

namespace Evaluation

variable {α : Type}

/-- The evaluation without an outcome. -/
def exhausted : Evaluation α :=
  ExceptT.mk fun _ => none

/-- A run that cannot fail. -/
def ofRun (run : Run α) : Evaluation α :=
  ExceptT.lift run

/-- The outcome of an evaluation, whether it is a value or a failure. -/
def outcome (evaluation : Evaluation α) : Run (Except Failure α) :=
  ExceptT.run evaluation

/-- The outcome of an evaluation as one value, a failure included. -/
def outcomeValue (evaluation : Evaluation Value) : Run Value := do
  match ← outcome evaluation with
  | .ok value => return value
  | .error failure => return .error failure

/-- A fault at the node of a token. -/
def raise (token : Token) (fault : EvaluationFault) : Evaluation α :=
  throw (.evaluation fault token.span.line token.span.column)

/-- A failure that arrives as a value fails the evaluation. -/
def checked (value : Value) : Evaluation Value :=
  match value with
  | .error failure => throw failure
  | value => pure value

/-- The result of an operator at the node of a token. -/
def ofOperator (token : Token) (result : Except OperatorFault Value) : Evaluation Value :=
  match result with
  | .ok value => pure value
  | .error fault => raise token (.operator fault)

def lookUp (name : String) : Evaluation Value := do
  let context ← getThe Context
  checked ((context.get? name).getD .null)

end Evaluation

end Stencil
