import Stencil.Table
import Stencil.Value

/-!
# Arguments

The evaluated arguments of one call, and how they fill the parameters of a signature: positions
first, names second, and what is left over goes to the collections that the signature accepts.
-/

namespace Stencil

structure Arguments where
  positional : List Value := []
  named : Table Value := []

namespace Arguments

def get? (arguments : Arguments) (index : Nat) : Option Value :=
  arguments.positional[index]?

def getNamed? (arguments : Arguments) (name : String) : Option Value :=
  Table.get? name arguments.named

def isEmpty (arguments : Arguments) : Bool :=
  arguments.positional.isEmpty && arguments.named.isEmpty

def addPositional (arguments : Arguments) (values : List Value) : Arguments :=
  { arguments with positional := arguments.positional ++ values }

def addNamed (arguments : Arguments) (entries : List (String × Value)) : Arguments :=
  { arguments with named := Table.insertAll arguments.named entries }

end Arguments

/-- The name under which surplus positional arguments are bound. -/
def surplusPositional : String := "varargs"

/-- The name under which unknown named arguments are bound. -/
def surplusNamed : String := "kwargs"

namespace Signature

/-- The parameters with the positional arguments that fall on them.  A name that occurs at several
positions keeps the last of its arguments. -/
def bindPositional (parameters : List String) (positional : List Value) (bound : Table Value) :
    Table Value :=
  Table.insertAll bound (parameters.zip positional)

/-- Splits named arguments into those for parameters and all others. -/
def splitNamed (parameters : List String) (named : Table Value) : Table Value × Table Value :=
  named.partition fun (name, _) => decide (name ∈ parameters)

/-- The values of the parameters before the surplus is added: a named argument counts before a
positional one, and that before a default. -/
def fill (signature : Signature Value) (arguments : Arguments) : Table Value :=
  let parameters := signature.parameters
  let defaults := Table.ofList signature.defaulted
  let filled := bindPositional parameters arguments.positional defaults
  Table.insertAll filled (splitNamed parameters arguments.named).1

/-- Binds what is left over under the names that are kept for it. -/
def addSurplus (signature : Signature Value) (arguments : Arguments) (bound : Table Value) :
    Table Value :=
  let parameters := signature.parameters
  let surplus := arguments.positional.drop parameters.length
  let unknown := (splitNamed parameters arguments.named).2
  let bound :=
    if signature.acceptsPositional then
      Table.insert surplusPositional (.list surplus) bound
    else
      bound
  if signature.acceptsNamed then Table.insert surplusNamed (.map unknown) bound else bound

/-- The first name that is no parameter, unless such names are accepted. -/
def unexpectedName? (signature : Signature Value) (arguments : Arguments) : Option String :=
  if signature.acceptsNamed then none
  else (splitNamed signature.parameters arguments.named).2.head?.map Prod.fst

/-- The value of every parameter, or why the arguments do not fit.  Too many positional arguments
are noticed before an unknown name, and that before a parameter without a value. -/
def bind (signature : Signature Value) (arguments : Arguments) :
    Except BindFault (Table Value) :=
  let parameters := signature.parameters
  if parameters.length < arguments.positional.length ∧ signature.acceptsPositional = false then
    .error (.tooManyArguments parameters.length arguments.positional.length)
  else
    match signature.unexpectedName? arguments with
    | some name => .error (.unexpectedKeyword name)
    | none =>
      let bound := signature.fill arguments
      match parameters.find? fun name => !Table.contains name bound with
      | some name => .error (.missingArgument name)
      | none => .ok (signature.addSurplus arguments bound)

end Signature

end Stencil
