import Stencil.Text.Visible

/-!
# Quoted text

A text between double quotes in which every character can be seen: the quote and the backslash are
written after a backslash, tab, return, line feed and NUL as `\t`, `\r`, `\n` and `\0`, and
any other character that is not visible on its own by its code point.
-/

namespace Stencil.Text

def codePointEscape (char : Char) : List Char :=
  ['\\', 'u', '{'] ++ Nat.toDigits 16 char.toNat ++ ['}']

def quotedChar (char : Char) : List Char :=
  match char with
  | '\t' => ['\\', 't']
  | '\r' => ['\\', 'r']
  | '\n' => ['\\', 'n']
  | '\x00' => ['\\', '0']
  | '"' => ['\\', '"']
  | '\\' => ['\\', '\\']
  | other => if isVisible other then [other] else codePointEscape other

def quoted (text : String) : String :=
  String.ofList (['"'] ++ text.toList.flatMap quotedChar ++ ['"'])

end Stencil.Text
