import Stencil.Expression
import Stencil.Grammar.Fault
import Stencil.Token.Stream

/-!
# Grammar rules

A rule reads a piece of a token stream and leaves the stream behind that piece; when it fails, the
stream stays where the failure was found.  A rule never looks further than the current token.
-/

namespace Stencil

abbrev Rule := ExceptT SyntaxError (StateM TokenStream)

/-- The rules for expressions all build trees whose nodes keep their token. -/
abbrev ExprRule := Rule (Expr Token)

namespace Rule

variable {α : Type}

def runOn (rule : Rule α) (stream : TokenStream) : Except SyntaxError α × TokenStream :=
  (ExceptT.run rule).run stream

def current : Rule Token := do
  return (← get).current

def pop : Rule Token :=
  modifyGet TokenStream.pop

def peek? (kinds : List Kind) : Rule (Option Token) := do
  return (← get).peek? kinds

/-- Whether the current token has one of the given kinds. -/
def sees (kinds : List Kind) : Rule Bool := do
  return (← peek? kinds).isSome

def take? (kinds : List Kind) : Rule (Option Token) :=
  modifyGet fun stream =>
    match stream.take? kinds with
    | some (token, rest) => (some token, rest)
    | none => (none, stream)

def takeName? (words : List String) : Rule (Option Token) :=
  modifyGet fun stream =>
    match stream.takeName? words with
    | some (token, rest) => (some token, rest)
    | none => (none, stream)

def takeAll (kinds : List Kind) : Rule (List Token) :=
  modifyGet (TokenStream.takeAll kinds)

def takeAllNames (words : List String) : Rule (List Token) :=
  modifyGet (TokenStream.takeAllNames words)

def failAt (token : Token) (fault : SyntaxFault) : Rule α :=
  throw (.ofToken fault token)

def failHere (fault : Token → SyntaxFault) : Rule α := do
  let token ← current
  failAt token (fault token)

/-- Moves past a token of the given kind, or fails. -/
def expect (kind : Kind) (failure : Rule Unit) : Rule Unit := do
  match ← take? [kind] with
  | some _ => pure ()
  | none => failure

/-- Fails if the current token has one of the given kinds. -/
def refuse (kinds : List Kind) (failure : Rule Unit) : Rule Unit := do
  match ← peek? kinds with
  | some _ => failure
  | none => pure ()

/-- The kinds that end an expression: the end of the stream or of the block that holds it. -/
def endKinds : List Kind :=
  [.eof, .variableEnd]

/-- Repeats a step until it declines, at most once for each of the given tokens. -/
def repeatOver (step : α → Rule (Option α)) : List Token → α → Rule α
  | [], value => pure value
  | _ :: tokens, value => do
    match ← step value with
    | some next => repeatOver step tokens next
    | none => pure value

/-- Repeats a step until it declines.  A step that goes on has moved past a token, so the upcoming
tokens bound the number of rounds. -/
def repeatWhile (value : α) (step : α → Rule (Option α)) : Rule α := do
  repeatOver step (← get).upcoming value

/-- Collects the results of a step until it declines, at most one for each of the given tokens. -/
def collectOver (step : Rule (Option α)) : List Token → Rule (List α)
  | [] => pure []
  | _ :: tokens => do
    match ← step with
    | some value => return value :: (← collectOver step tokens)
    | none => pure []

/-- Collects the results of a step that moves past a token whenever it has a result. -/
def collectWhile (step : Rule (Option α)) : Rule (List α) := do
  collectOver step (← get).upcoming

/-- One more operator with the operand on its right, if there is one. -/
def nextOperand (operand : ExprRule) (operator : Rule (Option (BinaryOp × Token)))
    (left : Expr Token) : Rule (Option (Expr Token)) := do
  match ← operator with
  | none => return none
  | some (op, token) =>
    let right ← operand
    return some (.binary token op left right)

/-- Operands joined by operators of one level, grouped from the left. -/
def leftGrouped (operand : ExprRule) (operator : Rule (Option (BinaryOp × Token))) : ExprRule := do
  repeatWhile (← operand) (nextOperand operand operator)

end Rule

end Stencil
