import Stencil.Proofs.Spelling
import Stencil.Proofs.Tree
import Stencil.Proofs.Words.Texts

/-!
# The words of canonical text

The canonical text of an expression is divided into words that can be told from the tree alone.
They are given as functions which put the words of a part before those of what follows it, since
the last word of a part may join the words behind it.
-/

namespace Stencil

/-- Puts the words of a text before other words. -/
abbrev Writer := List Word → List Word

namespace Writer

def word (kind : Kind) (text : String) : Writer :=
  fun more => ⟨kind, text⟩ :: more

def symbol (kind : Kind) : Writer :=
  fun more => Word.symbol kind :: more

/-- The texts one after the other. -/
def all (writers : List Writer) : Writer :=
  fun more => writers.foldr (fun writer more => writer more) more

/-- The texts with a comma between any two of them. -/
def separated : List Writer → Writer
  | [] => id
  | [writer] => writer
  | writer :: writers => all [writer, symbol .comma, separated writers]

end Writer

/-- The kind of the word that a test is named by. -/
def labelKind (label : String) : Kind :=
  match label.toList with
  | [] => .data
  | first :: rest =>
    match Lexeme.read false first rest with
    | .ok lexeme => lexeme.kind
    | .error _ => .data

namespace Expr

open Writer

variable {Mark : Type}

def selectorWord : Selector → Word
  | .name ident => ⟨.name, ident⟩
  | .index index => ⟨.integer, toString index.toNat⟩

/-- The words of the subject of a postfix form. -/
def subjectWriter (subject : Expr Mark) (writer : Writer) : Writer :=
  match subject with
  | integer _ _ => all [symbol .leftParen, writer, symbol .rightParen]
  | _ => writer

mutual

def writer : Expr Mark → Writer
  | integer _ value => numeralBefore (Decimal.integerText value)
  | float _ value => word .float (Decimal.floatText value)
  | string _ value => word .string (String.ofList (value.toList.flatMap escapeChar))
  | bool _ value => word .name (boolText value)
  | name _ ident => word .name ident
  | list _ items =>
    all [symbol .leftBracket, separated (itemWriters items), symbol .rightBracket]
  | tuple _ items =>
    all [symbol .leftParen, separated (itemWriters items),
      if items.length = 1 then symbol .comma else id, symbol .rightParen]
  | dict _ pairs =>
    all [symbol .leftBrace, separated (pairWriters pairs), symbol .rightBrace]
  | member _ subject selector =>
    all [subjectWriter subject subject.writer, symbol .dot,
      fun more => selectorWord selector :: more]
  | subscript _ subject key =>
    all [subjectWriter subject subject.writer, symbol .leftBracket, key.writer,
      symbol .rightBracket]
  | slice _ subject start stop =>
    all [subjectWriter subject subject.writer, symbol .leftBracket, optionWriter id start,
      symbol .colon, optionWriter id stop, symbol .rightBracket]
  | call _ callee positional named =>
    all [subjectWriter callee callee.writer, symbol .leftParen,
      separated (itemWriters positional ++ namedWriters named), symbol .rightParen]
  | binary _ op left right =>
    all [symbol .leftParen, left.writer, word op.kind op.symbol, right.writer,
      symbol .rightParen]
  | negation _ operand =>
    all [symbol .leftParen, word .name "not", operand.writer, symbol .rightParen]
  | signed _ sign operand =>
    all [symbol .leftParen, symbol sign.kind, operand.writer, symbol .rightParen]
  | test _ subject label argument =>
    all [symbol .leftParen, subject.writer, word .name "is", word (labelKind label) label,
      optionWriter id argument, symbol .rightParen]
  | filter _ subject label positional named =>
    all [symbol .leftParen, subject.writer, symbol .pipe, word .name label,
      if positional.isEmpty && named.isEmpty then id
      else all [symbol .leftParen, separated (itemWriters positional ++ namedWriters named),
        symbol .rightParen],
      symbol .rightParen]
  | conditional _ condition consequent alternative =>
    all [symbol .leftParen, consequent.writer, word .name "if", condition.writer,
      optionWriter (word .name "else") alternative, symbol .rightParen]
  | spread _ operand => starBefore ∘ operand.writer
  | namedSpread _ operand => all [symbol .pow, operand.writer]

def itemWriters : List (Expr Mark) → List Writer
  | [] => []
  | item :: items => item.writer :: itemWriters items

def pairWriters : List (Expr Mark × Expr Mark) → List Writer
  | [] => []
  | (key, value) :: pairs => all [key.writer, symbol .colon, value.writer] :: pairWriters pairs

def namedWriters : List (String × Expr Mark) → List Writer
  | [] => []
  | (key, value) :: named =>
    all [word .name key, symbol .assign, value.writer] :: namedWriters named

/-- The words of an optional part with those that lead to it. -/
def optionWriter (lead : Writer) : Option (Expr Mark) → Writer
  | none => id
  | some expr => all [lead, expr.writer]

end

end Expr

/-! ## Texts and their words -/

/-- Whatever may follow it, the text is divided into the words. -/
def Writes (text : String) (writer : Writer) : Prop :=
  ∀ ⦃rest words⦄, Follows rest words → Divides false rest words →
    Divides false (text.toList ++ rest) (writer words)

/-- A name that can be the label of a test: a single word that is no string. -/
structure IsLabel (label : String) : Prop where
  word : IsWord false (labelKind label) label
  not_string : labelKind label ≠ .string

/-- A name that can stand for itself. -/
structure IsPlainName (text : String) : Prop where
  name : IsName text
  not_reserved : text ∉ Grammar.reservedNames
  not_boolean : Grammar.booleanValue? text = none

namespace Expr

variable {Mark : Type}

/-- The conditions on the texts and values of one node under which its canonical text can be read.
A test has its argument exactly if it needs one. -/
def Writable : Expr Mark → Prop
  | integer _ value => 0 ≤ value.toInt
  | float _ value => value.isFinite ∧ Decimal.isNegative value = false
  | string _ value => Quotable value
  | name _ ident => IsPlainName ident
  | member _ _ (.name ident) => IsName ident
  | call _ _ _ named => (named.map Prod.fst).Nodup ∧ ∀ key ∈ named.map Prod.fst, IsPlainName key
  | test _ _ label argument =>
    IsLabel label ∧ argument.isSome = Dialect.standard.takesArgument label
  | filter _ _ label _ named =>
    IsName label ∧ (named.map Prod.fst).Nodup ∧ ∀ key ∈ named.map Prod.fst, IsPlainName key
  | _ => True

end Expr

end Stencil
