import Stencil.Expression

/-!
# Template bodies

A template body is literal text with expressions whose values are written in between.  A macro is
a body with parameters: those without a default come first, and a default is an expression.
-/

namespace Stencil

inductive Node (Mark : Type) where
  | text (content : String)
  | output (expr : Expr Mark)

def Node.references {Mark : Type} (name : String) : Node Mark → Bool
  | text _ => false
  | output expr => expr.references name

structure Macro (Mark : Type) where
  name : String
  required : List String
  defaulted : List (String × Expr Mark)
  body : List (Node Mark)

/-- Whether the body looks up a name; defaults do not count, they are evaluated elsewhere. -/
def Macro.references {Mark : Type} (name : String) (definition : Macro Mark) : Bool :=
  definition.body.any (Node.references name)

end Stencil
