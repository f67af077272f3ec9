import Stencil.Decimal.Notation
import Stencil.Expression
import Stencil.Token

/-!
# Outlines

An outline shows a tree with one part on each line.  The parts of a node stand between a pair of
brackets, are indented by four blanks and end with a comma.
-/

namespace Stencil

/-- A node without a label is a list or a tuple, told apart by its brackets. -/
inductive Outline where
  | leaf (text : String)
  | record (label : String) (fields : List (String × Outline))
  | tuple (label : String) (items : List Outline)
  | list (items : List Outline)

namespace Outline

def indent (lines : List String) : List String :=
  lines.map fun line => "    " ++ line

/-- Puts text in front of the first of some lines. -/
def prepend (lead : String) : List String → List String
  | [] => [lead]
  | first :: rest => (lead ++ first) :: rest

/-- Puts text behind the last of some lines. -/
def append (trail : String) : List String → List String
  | [] => [trail]
  | [last] => [last ++ trail]
  | first :: second :: rest => first :: append trail (second :: rest)

/-- The lines of the parts between their brackets; without parts the brackets meet. -/
def bracketed (opening closing : String) (parts : List (List String)) : List String :=
  if parts.isEmpty then
    [opening ++ closing]
  else
    opening :: (parts.flatMap fun part => indent (append "," part)) ++ [closing]

mutual

def lines : Outline → List String
  | leaf text => [text]
  | record label fields => bracketed (label ++ " \x7b") "\x7d" (linesOfFields fields)
  | tuple label items => bracketed (label ++ "(") ")" (linesOfItems items)
  | list items => bracketed "[" "]" (linesOfItems items)

def linesOfItems : List Outline → List (List String)
  | [] => []
  | item :: items => item.lines :: linesOfItems items

def linesOfFields : List (String × Outline) → List (List String)
  | [] => []
  | (name, value) :: fields => prepend (name ++ ": ") value.lines :: linesOfFields fields

end

def text (outline : Outline) : String :=
  String.intercalate "\n" outline.lines

def ofNat (value : Nat) : Outline := leaf (toString value)

def ofString (value : String) : Outline := leaf (Text.quoted value)

def ofBool (value : Bool) : Outline := leaf (if value then "true" else "false")

def ofOption : Option Outline → Outline
  | none => leaf "None"
  | some outline => tuple "Some" [outline]

def ofToken (token : Token) : Outline :=
  record "Token"
    [("kind", leaf token.kind.label),
      ("val", ofString token.text),
      ("span", record "Span"
        [("start", ofNat token.span.start),
          ("end", ofNat token.span.stop),
          ("line", ofNat token.span.line),
          ("column", ofNat token.span.column)])]

def ofSelector : Selector → Outline
  | .name name => tuple "Name" [ofString name]
  | .index index => tuple "Index" [ofNat index.toNat]

def ofBinaryOp : BinaryOp → Outline
  | .or => leaf "Or"
  | .and => leaf "And"
  | .eq => leaf "Eq"
  | .ne => leaf "Ne"
  | .gt => leaf "Gt"
  | .gteq => leaf "Gteq"
  | .lt => leaf "Lt"
  | .lteq => leaf "Lteq"
  | .mem => leaf "In"
  | .add => leaf "Add"
  | .sub => leaf "Sub"
  | .concat => leaf "Concat"
  | .mul => leaf "Mul"
  | .div => leaf "Div"
  | .floorDiv => leaf "FloorDiv"
  | .mod => leaf "Mod"
  | .pow => leaf "Pow"

def ofSign : Sign → Outline
  | .minus => leaf "Neg"
  | .plus => leaf "Pos"

/-- A node of an expression tree with the token it was read from. -/
def ofNode (kind : Outline) (token : Token) : Outline :=
  record "Expression" [("kind", kind), ("token", ofToken token)]

mutual

def ofExpr : Expr Token → Outline
  | .integer token value =>
    ofNode (tuple "Integer" [leaf (Decimal.integerText value)]) token
  | .float token value => ofNode (tuple "Float" [leaf (Decimal.floatText value)]) token
  | .string token value => ofNode (tuple "String" [ofString value]) token
  | .bool token value => ofNode (tuple "Bool" [ofBool value]) token
  | .name token name => ofNode (tuple "Name" [ofString name]) token
  | .list token items => ofNode (tuple "List" [list (ofItems items)]) token
  | .tuple token items => ofNode (tuple "Tuple" [list (ofItems items)]) token
  | .dict token pairs => ofNode (tuple "Dict" [list (ofPairs pairs)]) token
  | .member token subject selector =>
    ofNode (record "GetAttr" [("node", ofExpr subject), ("attr", ofSelector selector)]) token
  | .subscript token subject key =>
    ofNode (record "GetItem" [("node", ofExpr subject), ("arg", ofExpr key)]) token
  | .slice token subject start stop =>
    ofNode
      (record "GetItemRange"
        [("node", ofExpr subject), ("start", ofOptional start), ("stop", ofOptional stop)])
      token
  | .call token callee positional named =>
    ofNode
      (record "Call"
        [("func", ofExpr callee), ("args", list (ofItems positional)),
          ("kwargs", list (ofNamed named))])
      token
  | .binary token op left right =>
    ofNode
      (record "Binary" [("left", ofExpr left), ("op", ofBinaryOp op), ("right", ofExpr right)])
      token
  | .negation token operand => ofNode (tuple "Negation" [ofExpr operand]) token
  | .signed token sign operand =>
    ofNode (record "Unary" [("op", ofSign sign), ("term", ofExpr operand)]) token
  | .test token subject name argument =>
    ofNode
      (record "Test"
        [("expr", ofExpr subject),
          ("test", record "TestCall" [("name", ofString name), ("arg", ofOptional argument)])])
      token
  | .filter token subject name positional named =>
    ofNode
      (record "Filtered"
        [("expr", ofExpr subject),
          ("filter", record "FilterCall"
            [("name", ofString name), ("args", list (ofItems positional)),
              ("kwargs", list (ofNamed named))])])
      token
  | .conditional token condition consequent alternative =>
    ofNode
      (record "InlineIf"
        [("condition", ofExpr condition), ("true_expr", ofExpr consequent),
          ("false_expr", ofOptional alternative)])
      token
  | .spread token operand => ofNode (tuple "VarArgs" [ofExpr operand]) token
  | .namedSpread token operand => ofNode (tuple "KwArgs" [ofExpr operand]) token

def ofItems : List (Expr Token) → List Outline
  | [] => []
  | item :: items => ofExpr item :: ofItems items

def ofPairs : List (Expr Token × Expr Token) → List Outline
  | [] => []
  | (key, value) :: pairs =>
    record "Pair" [("key", ofExpr key), ("value", ofExpr value)] :: ofPairs pairs

def ofNamed : List (String × Expr Token) → List Outline
  | [] => []
  | (name, value) :: named => tuple "" [ofString name, ofExpr value] :: ofNamed named

def ofOptional : Option (Expr Token) → Outline
  | none => ofOption none
  | some expr => ofOption (some (ofExpr expr))

end

end Outline

end Stencil
