import Stencil.Proofs.Words
import Stencil.Proofs.Words.Characters

/-!
# Where words end

A word that is read by itself is read from a longer text too, if the character behind it cannot
belong to it.  The canonical text of an expression puts only a few characters behind a word.
-/

namespace Stencil

namespace Lexeme

/-- The characters that belong to no word but the one they start. -/
def delimiters : List Char :=
  [' ', ')', ']', '}', ',', ':', '|', '[', '(']

/-- The text does not go on with a character that could belong to a word of the kind. -/
def EndsBefore (kind : Kind) (rest : List Char) : Prop :=
  ∀ char ∈ rest.head?,
    char ∈ delimiters ∨ (char = '.' ∧ kind ≠ .integer) ∨ (char = '=' ∧ kind = .name)

theorem endsBefore_cons {kind : Kind} {char : Char} {rest : List Char} (hmem : char ∈ delimiters) :
    EndsBefore kind (char :: rest) := by
  intro head hhead
  cases hhead
  exact .inl hmem

variable {kind : Kind} {rest : List Char}

/-- None of the characters that may stand behind a word continues one of its parts. -/
theorem EndsBefore.head_false {p : Char → Bool} (hends : EndsBefore kind rest)
    (hdelimiters : ∀ char ∈ '.' :: '=' :: delimiters, p char = false) :
    ∀ char ∈ rest.head?, p char = false := by
  intro char hchar
  rcases hends char hchar with hmem | ⟨rfl, -⟩ | ⟨rfl, -⟩
  · exact hdelimiters char (by simp [hmem])
  · exact hdelimiters '.' (by simp)
  · exact hdelimiters '=' (by simp)

theorem EndsBefore.head_ne {char : Char} (hends : EndsBefore kind rest)
    (hdelimiters : char ∉ '.' :: '=' :: delimiters) : rest.head? ≠ some char := by
  intro hchar
  have hfalse : (fun other => other == char) char = false := by
    refine hends.head_false (p := fun other => other == char) ?_ char hchar
    intro other hmem
    simpa using ne_of_mem_of_not_mem hmem hdelimiters
  simp at hfalse

/-- A run of characters ends with the text unless the next one belongs to it. -/
theorem takeWhile_append_of_head {p : Char → Bool} (chars : List Char)
    (hhead : ∀ char ∈ rest.head?, p char = false) :
    (chars ++ rest).takeWhile p = chars.takeWhile p := by
  induction chars with
  | nil =>
    cases rest with
    | nil => rfl
    | cons char rest => simp [hhead char rfl]
  | cons char chars ih =>
    simp only [List.cons_append, List.takeWhile_cons, ih]

/-! ## Numbers -/

section Numbers

variable (hdigit : ∀ char ∈ rest.head?, char.isDigit = false)
include hdigit

theorem fractionPart_append {chars : List Char} (hpoint : chars = [] → rest.head? ≠ some '.') :
    fractionPart (chars ++ rest) = fractionPart chars := by
  match chars with
  | [] =>
    cases rest with
    | nil => rfl
    | cons char rest =>
      have hne : char ≠ '.' := by simpa using hpoint rfl
      simp [fractionPart, hne]
  | [char] =>
    cases rest with
    | nil => rfl
    | cons digit rest =>
      have hfalse := hdigit digit rfl
      by_cases hchar : char = '.'
      · subst hchar
        simp [fractionPart, hfalse]
      · simp [fractionPart, hchar]
  | char :: digit :: chars =>
    by_cases hchar : char = '.'
    · subst hchar
      simp only [List.cons_append, fractionPart, takeWhile_append_of_head chars hdigit]
    · simp [fractionPart, hchar]

theorem exponentDigits_append (chars : List Char)
    (hsign : chars = [] → rest.head? ≠ some '+' ∧ rest.head? ≠ some '-') :
    exponentDigits (chars ++ rest) = exponentDigits chars := by
  match chars with
  | [] =>
    cases rest with
    | nil => rfl
    | cons char rest =>
      have hfalse := hdigit char rfl
      obtain ⟨hplus, hminus⟩ := hsign rfl
      simp only [List.head?_cons, ne_eq, Option.some.injEq] at hplus hminus
      simp [exponentDigits, hfalse, hplus, hminus]
  | [char] =>
    cases rest with
    | nil => rfl
    | cons digit rest =>
      have hfalse := hdigit digit rfl
      simp [exponentDigits, hfalse]
  | first :: digit :: chars =>
    simp only [List.cons_append, exponentDigits]
    rw [← List.cons_append, takeWhile_append_of_head _ hdigit, takeWhile_append_of_head _ hdigit]

theorem exponentPart_append (chars : List Char)
    (hmark : ∀ char ∈ ['e', 'E', '+', '-'], rest.head? ≠ some char) :
    exponentPart (chars ++ rest) = exponentPart chars := by
  match chars with
  | [] =>
    cases rest with
    | nil => rfl
    | cons char rest =>
      have hlower := hmark 'e' (by simp)
      have hupper := hmark 'E' (by simp)
      simp only [List.head?_cons, ne_eq, Option.some.injEq] at hlower hupper
      simp [exponentPart, hlower, hupper]
  | mark :: chars =>
    simp only [List.cons_append, exponentPart]
    rw [exponentDigits_append hdigit chars
      fun _ => ⟨hmark '+' (by simp), hmark '-' (by simp)⟩]

end Numbers

theorem number_append {afterDot : Bool} {first : Char} {tail : List Char}
    (hnumber : number afterDot first tail = ⟨kind, first :: tail⟩) (hends : EndsBefore kind rest) :
    number afterDot first (tail ++ rest) = ⟨kind, first :: tail⟩ := by
  have hdigit : ∀ char ∈ rest.head?, char.isDigit = false := hends.head_false (by simp [delimiters])
  have hwhole : (tail ++ rest).takeWhile Char.isDigit = tail.takeWhile Char.isDigit :=
    takeWhile_append_of_head tail hdigit
  cases afterDot with
  | true =>
    simp only [number, if_true, hwhole] at hnumber ⊢
    exact hnumber
  | false =>
    have hlength : (tail.takeWhile Char.isDigit).length ≤ tail.length :=
      (List.takeWhile_prefix _).length_le
    have hpoint : tail.drop (tail.takeWhile Char.isDigit).length = [] →
        rest.head? ≠ some '.' := by
      intro hnil hdot
      -- A number that is all digits is an integer, which no point may follow.
      have hinteger : kind = .integer := by
        simp only [number, hnil, fractionPart, exponentPart] at hnumber
        exact (congrArg Lexeme.kind hnumber).symm
      rcases hends '.' hdot with hmem | ⟨-, hne⟩ | ⟨heq, -⟩
      · exact absurd hmem (by decide)
      · exact hne hinteger
      · exact absurd heq (by decide)
    have hmark : ∀ char ∈ ['e', 'E', '+', '-'], rest.head? ≠ some char := by
      intro char hmem
      have hnone : ∀ char ∈ ['e', 'E', '+', '-'], char ∉ '.' :: '=' :: delimiters := by
        simp [delimiters]
      exact hends.head_ne (hnone char hmem)
    have hfraction := fractionPart_append hdigit hpoint
    have hprefix :=
      (fractionPart_isPrefix (tail.drop (tail.takeWhile Char.isDigit).length)).length_le
    have hpower := exponentPart_append hdigit
      ((tail.drop (tail.takeWhile Char.isDigit).length).drop
        (fractionPart (tail.drop (tail.takeWhile Char.isDigit).length)).length) hmark
    simp only [number, hwhole, List.drop_append_of_le_length hlength, hfraction,
      List.drop_append_of_le_length hprefix, hpower] at hnumber ⊢
    exact hnumber

/-! ## Strings -/

theorem stringTail?_cons {quote char : Char} {chars : List Char} (hchar : char ≠ '\\') :
    stringTail? quote (char :: chars) =
      if char = quote then some [char]
      else (stringTail? quote chars).map fun tail => char :: tail := by
  rw [stringTail?]
  rintro next rest hnext
  exact absurd hnext hchar

/-- The rest of a string is read the same whatever stands behind it. -/
theorem stringTail?_tail_append {quote : Char} {chars tail : List Char} (hquote : quote ≠ '\\')
    (htail : stringTail? quote chars = some tail) (behind : List Char) :
    stringTail? quote (tail ++ behind) = some tail := by
  fun_induction stringTail? quote chars generalizing tail with
  | case1 => cases htail
  | case2 char chars ih =>
    obtain ⟨inner, hinner, rfl⟩ := Option.map_eq_some_iff.1 htail
    simp [stringTail?, ih hinner]
  | case3 chars =>
    cases htail
    rw [List.cons_append, stringTail?_cons hquote, if_pos rfl]
  | case4 char chars hescape hne ih =>
    obtain ⟨inner, hinner, rfl⟩ := Option.map_eq_some_iff.1 htail
    have hchar : char ≠ '\\' := by
      rintro rfl
      cases chars with
      | nil => cases hinner
      | cons next chars => exact hescape next chars rfl rfl
    rw [List.cons_append, stringTail?_cons hchar, if_neg hne, ih hinner]
    rfl

theorem stringTail?_append {quote : Char} {chars tail : List Char} (hquote : quote ≠ '\\')
    (htail : stringTail? quote chars = some tail) :
    stringTail? quote (chars ++ rest) = some tail := by
  obtain ⟨behind, rfl⟩ := stringTail?_isPrefix htail
  rw [List.append_assoc]
  exact stringTail?_tail_append hquote htail (behind ++ rest)

/-! ## Symbols -/

/-- The kinds whose spelling starts no longer one. -/
def soloKinds : List Kind :=
  [.add, .sub, .mod, .tilde, .dot, .comma, .colon, .pipe, .leftParen, .rightParen, .leftBracket,
    .rightBracket, .leftBrace, .rightBrace]

/-- The spellings of two characters. -/
def longSymbols : List (Char × Char) :=
  [('/', '/'), ('*', '*'), ('=', '='), ('!', '='), ('>', '='), ('<', '=')]

theorem symbolChars_cases {symbol : Kind} (hmem : symbol ∈ symbolKinds) :
    (∃ first, symbolChars symbol = [first]) ∨
      ∃ first second, symbolChars symbol = [first, second] ∧ (first, second) ∈ longSymbols := by
  revert hmem
  cases symbol <;> intro hmem <;>
    first
    | exact .inl ⟨_, rfl⟩
    | exact .inr ⟨_, _, rfl, by decide⟩
    | exact absurd hmem (by decide)

theorem isPrefixOf_symbolChars_append {symbol : Kind} (hmem : symbol ∈ symbolKinds) {first : Char}
    {chars : List Char}
    (hhead : ∀ second, (first, second) ∈ longSymbols → rest.head? ≠ some second) :
    (symbolChars symbol).isPrefixOf (first :: (chars ++ rest)) =
      (symbolChars symbol).isPrefixOf (first :: chars) := by
  rcases symbolChars_cases hmem with ⟨only, honly⟩ | ⟨one, two, hboth, htwo⟩
  · simp [honly, List.isPrefixOf]
  · cases chars with
    | cons char chars => simp [hboth, List.isPrefixOf]
    | nil =>
      cases rest with
      | nil => rfl
      | cons char rest =>
        by_cases hone : one = first
        · subst hone
          have hne : two ≠ char := fun hsame => hhead two htwo (by simp [hsame])
          simp [hboth, List.isPrefixOf, hne]
        · simp [hboth, List.isPrefixOf, hone]

theorem symbol?_append {first : Char} {tail : List Char}
    (hhead : ∀ second, (first, second) ∈ longSymbols → rest.head? ≠ some second) :
    symbol? (first :: (tail ++ rest)) = symbol? (first :: tail) := by
  have hfind : (symbolKinds.find? fun symbol =>
        (symbolChars symbol).isPrefixOf (first :: (tail ++ rest))) =
      symbolKinds.find? fun symbol => (symbolChars symbol).isPrefixOf (first :: tail) :=
    List.find?_congr fun symbol hmem => isPrefixOf_symbolChars_append hmem hhead
  rw [symbol?, hfind, symbol?]

/-- A mark that starts no longer one is a word whatever follows it. -/
theorem read_solo {afterDot : Bool} {symbol : Kind} {first : Char} (hsolo : symbol ∈ soloKinds)
    (hchars : symbolChars symbol = [first]) (rest : List Char) :
    read afterDot first rest = .ok ⟨symbol, [first]⟩ := by
  revert hsolo
  cases symbol <;> intro hsolo <;>
    first
    | cases hchars; exact read_symbol (by decide) (by decide) rfl
    | exact absurd hsolo (by decide)

/-! ## Words -/

theorem EndsBefore.isNameChar_head (hends : EndsBefore kind rest) :
    ∀ char ∈ rest.head?, isNameChar char = false := by
  refine hends.head_false fun char hmem => ?_
  have hall : (('.' :: '=' :: delimiters).all fun char => decide (char.toNat < 128) &&
      !(char.isAlpha || char.isDigit || char == '_')) = true := by
    decide
  have hplain := List.all_eq_true.1 hall char hmem
  rw [Bool.and_eq_true, decide_eq_true_eq, Bool.not_eq_true'] at hplain
  rw [isNameChar_ascii hplain.1, hplain.2]

theorem read_append {afterDot : Bool} {first : Char} {tail : List Char}
    (hread : read afterDot first tail = .ok ⟨kind, first :: tail⟩) (hends : EndsBefore kind rest) :
    read afterDot first (tail ++ rest) = .ok ⟨kind, first :: tail⟩ := by
  rcases read_cases hread with ⟨hdigit, hnumber⟩ | ⟨hquote, string, hstring, hsame⟩ |
    ⟨hstart, hname⟩ | ⟨hplain, hsymbol⟩
  · rw [read_of_isDigit hdigit, number_append hnumber.symm hends]
  · rw [read_of_isQuote hquote (stringTail?_append (plain_of_isQuote hquote).2.2 hstring), hsame]
  · simp only [name, Lexeme.mk.injEq, List.cons.injEq] at hname
    rw [read_of_isNameStart hstart, name, takeWhile_append_of_head tail hends.isNameChar_head,
      hname.1, ← hname.2.2]
  · have hhead : ∀ second, (first, second) ∈ longSymbols → rest.head? ≠ some second := by
      intro second hmem hhead
      have hnone : ∀ pair ∈ longSymbols, pair.2 ≠ '.' ∧ pair.2 ∉ delimiters := by
        simp [longSymbols, delimiters]
      rcases hends second hhead with hdelimiter | ⟨rfl, -⟩ | ⟨rfl, rfl⟩
      · exact (hnone _ hmem).2 hdelimiter
      · exact (hnone _ hmem).1 rfl
      · exact absurd (exists_of_symbol? hsymbol).1 (show Kind.name ∉ symbolKinds by decide)
    simp only [Bool.or_eq_false_iff] at hplain
    simp [read, hplain, symbol?_append hhead, hsymbol]

end Lexeme

end Stencil
