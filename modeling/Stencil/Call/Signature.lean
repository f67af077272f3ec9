/-!
# Signatures

The parameters of a macro.  Parameters are filled by position in their order, those without a
default first; arguments left over are collected only by a signature that accepts them.
-/

namespace Stencil

structure Signature (Default : Type) where
  required : List String
  defaulted : List (String × Default)
  acceptsPositional : Bool
  acceptsNamed : Bool

/-- The names of the parameters in the order of their positions. -/
def Signature.parameters {Default : Type} (signature : Signature Default) : List String :=
  signature.required ++ signature.defaulted.map Prod.fst

/-- Why some arguments do not fit a signature. -/
inductive BindFault where
  | tooManyArguments (expected got : Nat)
  | unexpectedKeyword (name : String)
  | missingArgument (name : String)
  deriving DecidableEq, Repr

def BindFault.message : BindFault → String
  | tooManyArguments expected got =>
    "expected at most " ++ toString expected ++ " positional arguments, got " ++ toString got
  | unexpectedKeyword name => "got an unexpected keyword argument: '" ++ name ++ "'"
  | missingArgument name => "missing required positional argument: '" ++ name ++ "'"

end Stencil
