import Stencil.Grammar.Operand

/-!
# Arithmetic

From the loosest to the tightest level: sums, concatenations, products, powers and signs.  All of
them group from the left.  Filters belong to the operand, so a sign applies to what they yield.
-/

namespace Stencil.Grammar

open Rule

/-- The operator of an arithmetic token. -/
def arithmeticOp? : Kind → Option BinaryOp
  | .add => some .add
  | .sub => some .sub
  | .tilde => some .concat
  | .mul => some .mul
  | .div => some .div
  | .floorDiv => some .floorDiv
  | .mod => some .mod
  | .pow => some .pow
  | _ => none

/-- One operator out of the given kinds of tokens. -/
def operatorOf (kinds : List Kind) : Rule (Option (BinaryOp × Token)) := do
  match ← take? kinds with
  | none => return none
  | some token => return (arithmeticOp? token.kind).map fun op => (op, token)

section

variable (expression : ExprRule)

/-- One filter behind a value, if there is one; its parentheses may be left out. -/
def filter? (subject : Expr Token) : Rule (Option (Expr Token)) := do
  match ← take? [.pipe] with
  | none => return none
  | some pipe =>
    match ← take? [.name] with
    | none => failAt pipe .missingFilterName
    | some name =>
      let { positional, named } ←
        match ← take? [.leftParen] with
        | some opening => arguments expression opening
        | none => pure {}
      return some (.filter name subject name.text positional named)

def filters (subject : Expr Token) : ExprRule :=
  repeatWhile subject (filter? expression)

/-- The node of a sign. -/
def signedBy (token : Token) (operand : Expr Token) : Expr Token :=
  .signed token (if token.kind = .sub then .minus else .plus) operand

def signed : ExprRule := do
  let signs ← takeAll [.sub, .add]
  let subject ← operand expression
  let filtered ← filters expression subject
  return signs.foldr signedBy filtered

def power : ExprRule :=
  leftGrouped (signed expression) (operatorOf [.pow])

def product : ExprRule :=
  leftGrouped (power expression) (operatorOf [.mul, .div, .floorDiv, .mod])

def concatenation : ExprRule :=
  leftGrouped (product expression) (operatorOf [.tilde])

def sum : ExprRule :=
  leftGrouped (concatenation expression) (operatorOf [.add, .sub])

end

end Stencil.Grammar
