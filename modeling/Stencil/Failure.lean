import Stencil.Call.Signature
import Stencil.Grammar.Fault
import Stencil.Operator.Fault

/-!
# Failures

Why an evaluation has no result.  A failure inside a macro keeps the failure of its body as its
cause.
-/

namespace Stencil

/-- What a registry holds. -/
inductive RegistryKind where
  | filter
  | test
  | procedure
  deriving DecidableEq, Repr

def RegistryKind.label : RegistryKind → String
  | filter => "Filter"
  | test => "Test"
  | procedure => "Macro"

inductive RegistryProblem where
  | alreadyExists
  | doesNotExist
  deriving DecidableEq, Repr

def RegistryProblem.message : RegistryProblem → String
  | alreadyExists => "already exists"
  | doesNotExist => "does not exist (therefore cannot be overridden)"

/-- What went wrong at one node of an expression. -/
inductive EvaluationFault where
  | operator (fault : OperatorFault)
  | notCallable (type : ValueType)
  | spreadNotList (type : ValueType)
  | spreadNotMap (type : ValueType)
  | misplacedSpread (marker : String)
  /-- A fault that the host reports in its own words. -/
  | reported (message : String)
  deriving DecidableEq, Repr

def EvaluationFault.message : EvaluationFault → String
  | operator fault => fault.message
  | notCallable type => "'" ++ type.label ++ "' object is not callable"
  | spreadNotList type => "argument after * must be a list, not '" ++ type.label ++ "'"
  | spreadNotMap type => "argument after ** must be a map, not '" ++ type.label ++ "'"
  | misplacedSpread marker => "'" ++ marker ++ "' unpacking is only allowed in call arguments"
  | reported message => message

inductive Failure where
  | signature (name : String) (fault : BindFault)
  | execution (name : String) (cause : Failure)
  | defaultValue (name parameter : String) (cause : Failure)
  | staleScope (name : String)
  | unknownFilter (name : String)
  | unknownTest (name : String)
  | registry (kind : RegistryKind) (name : String) (problem : RegistryProblem)
  | evaluation (fault : EvaluationFault) (line column : Nat)
  | malformed (error : SyntaxError)
  deriving DecidableEq, Repr

namespace Failure

def message : Failure → String
  | signature name fault => "Wrong '" ++ name ++ "' macro signature: " ++ fault.message
  | execution name cause => "Unable to execute macro '" ++ name ++ "': " ++ cause.message
  | defaultValue name parameter cause =>
    "Unable to evaluate parameter " ++ parameter ++ " of macro '" ++ name ++ "': " ++ cause.message
  | staleScope name => "Macro '" ++ name ++ "' was called outside the scope it was declared in"
  | unknownFilter name => "Unknown filter '" ++ name ++ "'"
  | unknownTest name => "Unknown test '" ++ name ++ "'"
  | registry kind name problem =>
    kind.label ++ " with name '" ++ name ++ "' " ++ problem.message
  | evaluation fault line column =>
    fault.message ++ " (line " ++ toString line ++ ", column " ++ toString column ++ ")"
  | malformed error => error.message

/-- Whether two failures tell the same: faults at a place of a source are compared by what they say
and not by how they came about. -/
def agrees : Failure → Failure → Bool
  | execution name cause, execution name' cause' => name == name' && cause.agrees cause'
  | defaultValue name parameter cause, defaultValue name' parameter' cause' =>
    name == name' && parameter == parameter' && cause.agrees cause'
  | evaluation fault line column, evaluation fault' line' column' =>
    fault.message == fault'.message && line == line' && column == column'
  | malformed error, malformed error' => error.message == error'.message
  | failure, failure' => decide (failure = failure')

end Failure

end Stencil
