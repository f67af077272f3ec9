import Stencil.Decimal.Reading
import Stencil.Token.Scan

/-!
# Syntax errors

Why a text is not an expression or a template, and the place of the token that shows it.
-/

namespace Stencil

inductive SyntaxFault where
  | scan (fault : ScanFault)
  | unexpectedToken (text : String)
  | unclosedBlock (text : String)
  | notWithoutIn
  | missingComparand
  | incompleteTest
  | missingFilterName
  | unexpectedEnd
  | unexpectedOperand (text : String)
  | badInteger (text : String) (fault : Decimal.IntegerFault)
  | badFloat (text : String) (fault : Decimal.FloatFault)
  | floatOutOfRange (text : String)
  | badIndex (text : String) (fault : Decimal.IntegerFault)
  | reservedName (name : String)
  | badSelector (text : String)
  | missingBracket
  | missingColon
  | missingBrace
  | unbalancedParen
  | unbalancedBracket
  | emptySubscript
  | keywordNotName (text : String)
  | duplicateKeyword (name : String)
  deriving DecidableEq, Repr

def SyntaxFault.message : SyntaxFault → String
  | scan fault => fault.message
  | unexpectedToken text => "Unexpected token '" ++ text ++ "'"
  | unclosedBlock text =>
    "Expected '\x7d\x7d' to close '\x7b\x7b', got '" ++ text ++ "'"
  | notWithoutIn => "Expected an `in` after `not`"
  | missingComparand => "Unable to parse right-hand side of comparison"
  | incompleteTest => "is statement is incomplete"
  | missingFilterName => "Expected a filter name after '|'"
  | unexpectedEnd =>
    "Unexpected end of expression, expected a number, string, keyword or identifier"
  | unexpectedOperand text =>
    "Expected either a number, string, keyword or identifier, got '" ++ text ++ "'"
  | badInteger text fault => "Invalid integer '" ++ text ++ "': " ++ fault.message
  | badFloat text fault => "Invalid float '" ++ text ++ "': " ++ fault.message
  | floatOutOfRange text => "Invalid float '" ++ text ++ "': value out of range"
  | badIndex text fault => "Invalid index '" ++ text ++ "': " ++ fault.message
  | reservedName name => "Cannot use reserved name '" ++ name ++ "' as variable name"
  | badSelector text => "Token '" ++ text ++ "' is not allowed after '.' in a variable name"
  | missingBracket => "Expected ']'"
  | missingColon => "Expected ':'"
  | missingBrace => "Expected '\x7d'"
  | unbalancedParen => "Unbalanced parenthesis"
  | unbalancedBracket => "Unbalanced bracket"
  | emptySubscript => "Expected an index expression"
  | keywordNotName text => "Keyword argument name must be an identifier, got '" ++ text ++ "'"
  | duplicateKeyword name => "Duplicate keyword argument '" ++ name ++ "'"

structure SyntaxError where
  fault : SyntaxFault
  line : Nat
  column : Nat
  deriving DecidableEq, Repr

namespace SyntaxError

def message (error : SyntaxError) : String :=
  "Parse error at line " ++ toString error.line ++ ", column " ++ toString error.column ++ ": " ++
    error.fault.message

/-- A fault at the start of a token. -/
def ofToken (fault : SyntaxFault) (token : Token) : SyntaxError :=
  ⟨fault, token.span.line, token.span.column⟩

def ofScanError (error : ScanError) : SyntaxError :=
  ⟨.scan error.fault, error.line, error.column⟩

end SyntaxError

end Stencil
