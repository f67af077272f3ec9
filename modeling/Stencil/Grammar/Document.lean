import Stencil.Grammar.Logic
import Stencil.Template

/-!
# Whole texts

A bare expression takes up its whole stream; a template is literal text and variable blocks, one
after the other.  Both can be read from a text in one step, and a text that cannot be divided into
tokens is a syntax error too.
-/

namespace Stencil

namespace Grammar

open Rule

variable (dialect : Dialect)

/-- An expression with nothing behind it. -/
def wholeExpression : ExprRule := do
  let expr ← expression dialect
  expect .eof (failHere fun token => .unexpectedToken token.text)
  return expr

/-- The next part of a template, if the stream has not ended. -/
def node? : Rule (Option (Node Token)) := do
  match ← take? [.data, .variableBegin, .eof] with
  | none => failHere fun token => .unexpectedToken token.text
  | some token =>
    match token.kind with
    | .eof => return none
    | .data => return some (.text token.text)
    | _ =>
      let expr ← expression dialect
      expect .variableEnd (unclosed token)
      return some (.output expr)
where
  unclosed (opening : Token) : Rule Unit := do
    failAt opening (.unclosedBlock (← current).text)

def body : Rule (List (Node Token)) :=
  collectWhile (node? dialect)

end Grammar

variable (dialect : Dialect)

/-- Reads a list of tokens by a rule, from its start and as far as its first end token. -/
def parseTokens {α : Type} (rule : Rule α) (tokens : List Token) : Except SyntaxError α :=
  (rule.runOn (TokenCursor.ofTokens tokens).rest).1

def parseExpression (source : String) : Except SyntaxError (Expr Token) :=
  match Token.scanExpression source with
  | .ok tokens => parseTokens (Grammar.wholeExpression dialect) tokens
  | .error error => .error (.ofScanError error)

def parseTemplate (source : String) : Except SyntaxError (List (Node Token)) :=
  match Token.scanTemplate source with
  | .ok tokens => parseTokens (Grammar.body dialect) tokens
  | .error error => .error (.ofScanError error)

end Stencil
