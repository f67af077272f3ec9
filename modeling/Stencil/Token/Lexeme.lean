import Stencil.Text.Blank
import Stencil.Text.Letter
import Stencil.Text.Numeral
import Stencil.Token

/-!
# Lexemes

The words of an expression: names, numbers, quoted strings, operators and punctuation marks.  Each
recogniser below is given the first character of a word and the text after it, and returns the part
of that text which still belongs to the word.
-/

namespace Stencil

/-- Why a text cannot be divided into tokens. -/
inductive ScanFault where
  | unexpectedCharacter (char : Char)
  | unterminatedString
  | unterminatedComment
  | unterminatedVariable
  | statementBlock
  deriving DecidableEq, Repr

def ScanFault.message : ScanFault → String
  | unexpectedCharacter char => "Unexpected character: '" ++ String.singleton char ++ "'"
  | unterminatedString => "Unterminated string"
  | unterminatedComment => "Unterminated comment"
  | unterminatedVariable => "Unterminated variable block, expected '\x7d\x7d'"
  | statementBlock => "Statement blocks '\x7b% ... %\x7d' are not supported"

/-- A word of an expression with all the characters it covers. -/
structure Lexeme where
  kind : Kind
  source : List Char
  deriving DecidableEq, Repr

namespace Lexeme

/-- The text of the token: a string is kept without its quotes, escapes untouched. -/
def text (lexeme : Lexeme) : String :=
  match lexeme.kind with
  | .string => String.ofList lexeme.source.tail.dropLast
  | _ => String.ofList lexeme.source

def isNameStart (char : Char) : Bool :=
  Text.isLetter char || char == '_'

def isNameChar (char : Char) : Bool :=
  Text.isLetter char || Text.isNumeral char || char == '_'

def isQuote (char : Char) : Bool :=
  char == '"' || char == '\''

/-- A point followed by at least one digit. -/
def fractionPart : List Char → List Char
  | '.' :: digit :: rest =>
    if digit.isDigit then '.' :: digit :: rest.takeWhile Char.isDigit else []
  | _ => []

/-- The digits after an exponent mark, with their sign; there has to be at least one digit. -/
def exponentDigits : List Char → List Char
  | [] => []
  | first :: rest =>
    if first.isDigit then
      first :: rest.takeWhile Char.isDigit
    else if first = '+' ∨ first = '-' then
      match rest with
      | [] => []
      | digit :: rest =>
        if digit.isDigit then first :: digit :: rest.takeWhile Char.isDigit else []
    else
      []

def exponentPart : List Char → List Char
  | [] => []
  | mark :: rest =>
    if mark = 'e' ∨ mark = 'E' then
      match exponentDigits rest with
      | [] => []
      | digits => mark :: digits
    else
      []

/-- The number that starts with `first`.  After a dot only digits are read, so that `pair.0.1` is
two positional look-ups and not one with the number `0.1`. -/
def number (afterDot : Bool) (first : Char) (rest : List Char) : Lexeme :=
  let whole := rest.takeWhile Char.isDigit
  if afterDot then
    ⟨.integer, first :: whole⟩
  else
    let afterWhole := rest.drop whole.length
    let fraction := fractionPart afterWhole
    let power := exponentPart (afterWhole.drop fraction.length)
    let kind := if fraction.isEmpty && power.isEmpty then Kind.integer else Kind.float
    ⟨kind, first :: (whole ++ fraction ++ power)⟩

def name (first : Char) (rest : List Char) : Lexeme :=
  ⟨.name, first :: rest.takeWhile isNameChar⟩

/-- The text after an opening quote up to and with the closing one.  A backslash keeps the character
after it from closing the string. -/
def stringTail? (quote : Char) : List Char → Option (List Char)
  | [] => none
  | '\\' :: char :: rest => (stringTail? quote rest).map fun tail => '\\' :: char :: tail
  | char :: rest =>
    if char = quote then some [char] else (stringTail? quote rest).map fun tail => char :: tail

/-- The kinds with a fixed spelling inside expressions, the longer spellings first. -/
def symbolKinds : List Kind :=
  [.floorDiv, .pow, .eq, .ne, .gteq, .lteq, .add, .sub, .mul, .div, .mod, .tilde, .gt, .lt, .assign,
    .dot, .comma, .colon, .pipe, .leftParen, .rightParen, .leftBracket, .rightBracket, .leftBrace,
    .rightBrace]

/-- The spelling of a kind as characters; empty if there is no fixed one. -/
def symbolChars (kind : Kind) : List Char :=
  (kind.symbol?.getD "").toList

/-- The longest operator or punctuation mark at the start of a text. -/
def symbol? (chars : List Char) : Option Lexeme :=
  (symbolKinds.find? fun kind => (symbolChars kind).isPrefixOf chars).map fun kind =>
    ⟨kind, symbolChars kind⟩

/-- The word at the start of a text whose first character is not blank. -/
def read (afterDot : Bool) (first : Char) (rest : List Char) : Except ScanFault Lexeme :=
  if first.isDigit then
    .ok (number afterDot first rest)
  else if isQuote first then
    match stringTail? first rest with
    | some tail => .ok ⟨.string, first :: tail⟩
    | none => .error .unterminatedString
  else if isNameStart first then
    .ok (name first rest)
  else
    match symbol? (first :: rest) with
    | some lexeme => .ok lexeme
    | none => .error (.unexpectedCharacter first)

end Lexeme

end Stencil
