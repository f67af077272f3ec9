import Stencil.Text.Quoted

/-!
# Tokens

A token is a word of a template: a run of literal text, a delimiter of a block, or a word of an
expression.  It keeps the place in the source from which it was read.  Words such as `and` or `if`
are names like any other; what they mean is decided where they stand.
-/

namespace Stencil

/-- What a token is, from its spelling alone. -/
inductive Kind where
  | data
  | variableBegin
  | variableEnd
  | name
  | integer
  | float
  | string
  | add
  | sub
  | mul
  | div
  | floorDiv
  | mod
  | pow
  | tilde
  | eq
  | ne
  | gt
  | gteq
  | lt
  | lteq
  | assign
  | dot
  | comma
  | colon
  | pipe
  | leftParen
  | rightParen
  | leftBracket
  | rightBracket
  | leftBrace
  | rightBrace
  | eof
  deriving DecidableEq, Repr

namespace Kind

def all : List Kind :=
  [data, variableBegin, variableEnd, name, integer, float, string, add, sub, mul, div, floorDiv,
    mod, pow, tilde, eq, ne, gt, gteq, lt, lteq, assign, dot, comma, colon, pipe, leftParen,
    rightParen, leftBracket, rightBracket, leftBrace, rightBrace, eof]

/-- The name by which a kind is shown. -/
def label : Kind → String
  | data => "Data"
  | variableBegin => "VariableBegin"
  | variableEnd => "VariableEnd"
  | name => "Name"
  | integer => "Integer"
  | float => "Float"
  | string => "String"
  | add => "Add"
  | sub => "Sub"
  | mul => "Mul"
  | div => "Div"
  | floorDiv => "FloorDiv"
  | mod => "Mod"
  | pow => "Pow"
  | tilde => "Tilde"
  | eq => "Eq"
  | ne => "Ne"
  | gt => "Gt"
  | gteq => "Gteq"
  | lt => "Lt"
  | lteq => "Lteq"
  | assign => "Assign"
  | dot => "Dot"
  | comma => "Comma"
  | colon => "Colon"
  | pipe => "Pipe"
  | leftParen => "LParen"
  | rightParen => "RParen"
  | leftBracket => "LBracket"
  | rightBracket => "RBracket"
  | leftBrace => "LBrace"
  | rightBrace => "RBrace"
  | eof => "Eof"

def ofLabel? (text : String) : Option Kind :=
  all.find? fun kind => kind.label == text

/-- The only spelling of an operator, a delimiter or a punctuation mark. -/
def symbol? : Kind → Option String
  | variableBegin => some "\x7b\x7b"
  | variableEnd => some "\x7d\x7d"
  | add => some "+"
  | sub => some "-"
  | mul => some "*"
  | div => some "/"
  | floorDiv => some "//"
  | mod => some "%"
  | pow => some "**"
  | tilde => some "~"
  | eq => some "=="
  | ne => some "!="
  | gt => some ">"
  | gteq => some ">="
  | lt => some "<"
  | lteq => some "<="
  | assign => some "="
  | dot => some "."
  | comma => some ","
  | colon => some ":"
  | pipe => some "|"
  | leftParen => some "("
  | rightParen => some ")"
  | leftBracket => some "["
  | rightBracket => some "]"
  | leftBrace => some "\x7b"
  | rightBrace => some "\x7d"
  | data | name | integer | float | string | eof => none

end Kind

/-- A place between two characters of a text.  Lines and columns count from one. -/
structure Position where
  offset : Nat
  line : Nat
  column : Nat
  deriving DecidableEq, Repr

namespace Position

def start : Position := ⟨0, 1, 1⟩

/-- The place after one more character; only a line feed starts a new line. -/
def after (position : Position) (char : Char) : Position :=
  if char = '\n' then
    ⟨position.offset + 1, position.line + 1, 1⟩
  else
    ⟨position.offset + 1, position.line, position.column + 1⟩

def afterAll (position : Position) (chars : List Char) : Position :=
  chars.foldl after position

@[simp]
theorem afterAll_nil (position : Position) : position.afterAll [] = position := rfl

@[simp]
theorem afterAll_cons (position : Position) (char : Char) (chars : List Char) :
    position.afterAll (char :: chars) = (position.after char).afterAll chars := rfl

theorem afterAll_append (position : Position) (first second : List Char) :
    position.afterAll (first ++ second) = (position.afterAll first).afterAll second := by
  simp [afterAll]

@[simp]
theorem offset_after (position : Position) (char : Char) :
    (position.after char).offset = position.offset + 1 := by
  unfold after
  split <;> rfl

@[simp]
theorem offset_afterAll (position : Position) (chars : List Char) :
    (position.afterAll chars).offset = position.offset + chars.length := by
  induction chars generalizing position with
  | nil => rfl
  | cons char chars ih => simp [ih]; omega

end Position

/-- The stretch of a text that a token covers, with the line and column of its start. -/
structure Span where
  start : Nat
  stop : Nat
  line : Nat
  column : Nat
  deriving DecidableEq, Repr

def Span.between (start stop : Position) : Span :=
  ⟨start.offset, stop.offset, start.line, start.column⟩

/-- `text` is the spelling of the token; a string token leaves out its two quotes. -/
structure Token where
  kind : Kind
  text : String
  span : Span
  deriving DecidableEq, Repr

namespace Token

/-- A name token spelled as one of the given words. -/
def isName (words : List String) (token : Token) : Bool :=
  decide (token.kind = .name) && decide (token.text ∈ words)

def describe (token : Token) : String :=
  match token.kind with
  | .eof => "<EOF>"
  | kind =>
    kind.label ++ "(" ++ Text.quoted token.text ++ ") at " ++ toString token.span.line ++ ":" ++
      toString token.span.column

end Token

end Stencil
