import Stencil.Token.Lexeme

/-!
# Scanning

A text is divided into tokens from left to right.  A bare expression is a sequence of words; a
template is literal text in which a variable block holds an expression between double braces, and
in which comments are left out.  Inside a block two closing braces end it only where no brace opened
in the block is still open, so that a dictionary may close right before the end of its block.
-/

namespace Stencil

structure ScanError where
  fault : ScanFault
  line : Nat
  column : Nat
  deriving DecidableEq, Repr

namespace ScanError

/-- A fault at a place of the text. -/
def ofFault (fault : ScanFault) (position : Position) : ScanError :=
  ⟨fault, position.line, position.column⟩

def message (error : ScanError) : String :=
  "Lexer error at line " ++ toString error.line ++ ", column " ++ toString error.column ++ ": " ++
    error.fault.message

end ScanError

/-- How the text at a place is read. -/
inductive ScanMode where
  /-- Literal text of a template, outside of all blocks. -/
  | literal
  /-- A bare expression. -/
  | expression
  /-- The expression of a variable block in which `depth` braces are open. -/
  | block (depth : Nat)
  deriving DecidableEq, Repr

namespace ScanMode

/-- A brace that opens or closes changes the depth of a block. -/
def after (kind : Kind) : ScanMode → ScanMode
  | block depth =>
    match kind with
    | .leftBrace => block (depth + 1)
    | .rightBrace => block (depth - 1)
    | _ => block depth
  | mode => mode

/-- Whether two closing braces end the block here. -/
def closesWith (first : Char) (rest : List Char) : ScanMode → Bool
  | block 0 => first == '}' && rest.head? == some '}'
  | _ => false

end ScanMode

/-- Whether a block, a comment or a statement opens at the start of the text. -/
def opensBlock : List Char → Bool
  | '{' :: second :: _ => second == '{' || second == '#' || second == '%'
  | _ => false

/-- The literal text up to the next opening of a block. -/
def literalText : List Char → List Char
  | [] => []
  | char :: rest => if opensBlock (char :: rest) then [] else char :: literalText rest

/-- The text of a comment after its opening mark, up to and with the closing mark. -/
def commentTail? : List Char → Option (List Char)
  | [] => none
  | '#' :: '}' :: _ => some ['#', '}']
  | char :: rest => (commentTail? rest).map fun tail => char :: tail

namespace Token

/-- The token made of the characters from `position` on. -/
def covering (kind : Kind) (text : String) (position : Position) (source : List Char) : Token :=
  ⟨kind, text, .between position (position.afterAll source)⟩

/-- The tokens of the text that remains at `position`.  `afterDot` tells whether the token before
it is a dot. -/
def scanFrom (mode : ScanMode) (afterDot : Bool) (position : Position) (chars : List Char) :
    Except ScanError (List Token) :=
  match chars with
  | [] =>
    match mode with
    | .block _ => .error (.ofFault .unterminatedVariable position)
    | _ => .ok [covering .eof "" position []]
  | first :: rest =>
    match mode with
    | .literal =>
      if opensBlock (first :: rest) then
        match rest with
        | '{' :: inner => do
          let opening := covering .variableBegin "\x7b\x7b" position ['{', '{']
          let tokens ← scanFrom (.block 0) false (position.afterAll ['{', '{']) inner
          return opening :: tokens
        | '#' :: inner =>
          match commentTail? inner with
          | some tail =>
            scanFrom .literal false (position.afterAll ('{' :: '#' :: tail))
              (inner.drop tail.length)
          | none => .error (.ofFault .unterminatedComment position)
        | _ => .error (.ofFault .statementBlock position)
      else do
        let tail := literalText rest
        let text := covering .data (String.ofList (first :: tail)) position (first :: tail)
        let tokens ← scanFrom .literal false (position.afterAll (first :: tail))
          (rest.drop tail.length)
        return text :: tokens
    | mode =>
      if Text.isBlank first then
        scanFrom mode afterDot (position.after first) rest
      else if mode.closesWith first rest then do
        let closing := covering .variableEnd "\x7d\x7d" position ['}', '}']
        let tokens ← scanFrom .literal false (position.afterAll ['}', '}']) rest.tail
        return closing :: tokens
      else
        match Lexeme.read afterDot first rest with
        | .error fault => .error (.ofFault fault position)
        | .ok lexeme => do
          let word := covering lexeme.kind lexeme.text position lexeme.source
          let tokens ← scanFrom (mode.after lexeme.kind) (lexeme.kind == .dot)
            (position.afterAll lexeme.source) (rest.drop lexeme.source.tail.length)
          return word :: tokens
termination_by chars.length
decreasing_by all_goals simp_wf <;> grind

/-- The tokens of a bare expression. -/
def scanExpression (source : String) : Except ScanError (List Token) :=
  scanFrom .expression false .start source.toList

/-- The tokens of a template. -/
def scanTemplate (source : String) : Except ScanError (List Token) :=
  scanFrom .literal false .start source.toList

end Token

end Stencil
