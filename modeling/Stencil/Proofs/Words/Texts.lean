import Stencil.Proofs.Words.Quotes

/-!
# Texts made of words

How a text grows by a word at its front.  Three words look at what follows them: a star joins a
star behind it, and a whole number joins a point with digits.
-/

namespace Stencil

open Lexeme hiding read

/-- The text is one word, read at a place where no dot stands right before it or where one does. -/
def IsWord (afterDot : Bool) (kind : Kind) (text : String) : Prop :=
  ∃ first tail, text.toList = first :: tail ∧ ¬ Text.isBlank first ∧
    Lexeme.read afterDot first tail = .ok ⟨kind, first :: tail⟩

/-- The names that the scanner reads. -/
def IsName (text : String) : Prop :=
  ∃ first tail, text.toList = first :: tail ∧ isNameStart first ∧
    ∀ char ∈ tail, isNameChar char

theorem IsName.isWord {afterDot : Bool} {text : String} (hname : IsName text) :
    IsWord afterDot .name text := by
  obtain ⟨first, tail, htext, hstart, htail⟩ := hname
  refine ⟨first, tail, htext, by simp [not_isBlank_of_isNameStart hstart], ?_⟩
  rw [read_of_isNameStart hstart, name, List.takeWhile_eq_self_iff.2 htail]

/-- The word of a kind with a fixed spelling. -/
def Word.symbol (kind : Kind) : Word :=
  ⟨kind, kind.symbol?.getD ""⟩

section

variable {afterDot : Bool} {kind : Kind} {text : String} {rest : List Char} {words : List Word}

theorem Divides.cons (hword : IsWord afterDot kind text) (hkind : kind ≠ .string)
    (hends : EndsBefore kind rest) (hrest : Divides (kind == .dot) rest words) :
    Divides afterDot (text.toList ++ rest) (⟨kind, text⟩ :: words) := by
  obtain ⟨first, tail, htext, hblank, hread⟩ := hword
  have hsame : (⟨kind, text⟩ : Word) = Lexeme.word ⟨kind, first :: tail⟩ := by
    have hlist : text = String.ofList (first :: tail) := by
      rw [← htext, String.ofList_toList]
    simp [Lexeme.word, Lexeme.text, hlist]
  rw [htext, hsame]
  exact .word hblank (read_append hread hends) hrest

/-- A mark that starts no longer one is a word before any text. -/
theorem Divides.solo (symbol : Kind) {char : Char} (hsolo : symbol ∈ soloKinds)
    (hchars : symbolChars symbol = [char]) (hrest : Divides (symbol == .dot) rest words) :
    Divides afterDot (char :: rest) (Word.symbol symbol :: words) := by
  have hblank : ¬ Text.isBlank char := by
    revert hsolo
    cases symbol <;> intro hsolo <;>
      first
      | cases hchars; decide
      | exact absurd hsolo (by decide)
  have hsame : Word.symbol symbol = Lexeme.word ⟨symbol, [char]⟩ := by
    have htext : symbol.symbol?.getD "" = String.ofList [char] := by
      rw [← hchars, symbolChars, String.ofList_toList]
    have hstring : symbol ≠ .string := by
      rintro rfl
      exact absurd hsolo (by decide)
    simp [Lexeme.word, Lexeme.text, Word.symbol, htext]
  have hread : Lexeme.read afterDot char ([] ++ rest) = .ok ⟨symbol, [char]⟩ :=
    read_solo hsolo hchars rest
  rw [hsame]
  exact .word hblank hread hrest

theorem Divides.space (hrest : Divides afterDot rest words) :
    Divides afterDot (' ' :: rest) words :=
  .blank (by decide) hrest

/-- A value between quotes is one word. -/
theorem Divides.string {value : String} (hvalue : Quotable value)
    (hrest : Divides false rest words) :
    Divides afterDot ((Expr.stringText value).toList ++ rest)
      (⟨.string, String.ofList (value.toList.flatMap Expr.escapeChar)⟩ :: words) := by
  obtain ⟨quote, hquote, hchoice, hfits⟩ : ∃ quote, quote ∈ ['\'', '"'] ∧
      (if Expr.fitsQuotes '\'' false value.toList then '\'' else '"') = quote ∧
      Expr.fitsQuotes quote false value.toList := by
    by_cases hsingle : Expr.fitsQuotes '\'' false value.toList
    · exact ⟨'\'', by simp, if_pos hsingle, hsingle⟩
    · have hdouble := hvalue.quotes.resolve_left fun hquotes =>
        hsingle (quotesEscaped_iff.1 hquotes)
      exact ⟨'"', by simp, if_neg hsingle, quotesEscaped_iff.1 hdouble⟩
  have hisQuote : isQuote quote := by
    simp only [List.mem_cons, List.not_mem_nil, or_false] at hquote
    rcases hquote with rfl | rfl <;> rfl
  obtain ⟨-, hblank, hslash⟩ := plain_of_isQuote hisQuote
  let body := value.toList.flatMap Expr.escapeChar
  have htext : (Expr.stringText value).toList = quote :: (body ++ [quote]) := by
    simp only [Expr.stringText, hchoice, String.toList_ofList, body]
  have htail : stringTail? quote ((body ++ [quote]) ++ rest) = some (body ++ [quote]) := by
    rw [List.append_assoc]
    refine stringTail?_of_fitsQuotes hslash ?_ ?_
    · rw [fitsQuotes_flatMap_escapeChar hquote]
      exact hfits
    · rw [endsEscaped_flatMap_escapeChar, endsEscaped_false, hvalue.even_run]
      rfl
  have hword : Lexeme.word ⟨.string, quote :: (body ++ [quote])⟩ =
      ⟨.string, String.ofList body⟩ := by
    simp [Lexeme.word, Lexeme.text]
  rw [htext, ← hword]
  exact .word (by simp [hblank]) (read_of_isQuote hisQuote htail) hrest

/-! ## Looking at the first word -/

theorem Divides.cons_inv {first : Char} (hdivides : Divides afterDot (first :: rest) words)
    (hblank : ¬ Text.isBlank first) :
    ∃ kind tail more words', rest = tail ++ more ∧
      Lexeme.read afterDot first rest = .ok ⟨kind, first :: tail⟩ ∧
      words = Lexeme.word ⟨kind, first :: tail⟩ :: words' ∧ Divides (kind == .dot) more words' := by
  cases hdivides with
  | blank hblank' => exact absurd hblank' hblank
  | word _ hread hmore => exact ⟨_, _, _, _, rfl, hread, rfl, hmore⟩

theorem Divides.dot_inv (hdivides : Divides afterDot ('.' :: rest) words) :
    ∃ words', words = Word.symbol .dot :: words' ∧ Divides true rest words' := by
  obtain ⟨_, _, _, words', hsplit, hread, rfl, hmore⟩ := hdivides.cons_inv (by decide)
  have hdot : Lexeme.read afterDot '.' rest = .ok ⟨.dot, ['.']⟩ := read_solo (by decide) rfl rest
  rw [hdot] at hread
  cases hread
  rw [List.nil_append] at hsplit
  exact ⟨words', rfl, hsplit ▸ hmore⟩

theorem Divides.nil_inv (hdivides : Divides afterDot [] words) : words = [] := by
  cases hdivides
  rfl

end

/-! ## Stars -/

/-- The words of a star and of the words right behind it. -/
def starBefore : List Word → List Word
  | [] => [Word.symbol .mul]
  | word :: words =>
    match word.kind with
    | .mul => Word.symbol .pow :: words
    | .pow => Word.symbol .pow :: starBefore words
    | _ => Word.symbol .mul :: word :: words

theorem read_star_star {afterDot : Bool} {rest : List Char} :
    Lexeme.read afterDot '*' ('*' :: rest) = .ok ⟨.pow, ['*', '*']⟩ :=
  read_symbol (by decide) (by decide) rfl

theorem read_star {afterDot : Bool} {rest : List Char} (hhead : rest.head? ≠ some '*') :
    Lexeme.read afterDot '*' rest = .ok ⟨.mul, ['*']⟩ := by
  have hsymbol : symbol? ('*' :: ([] ++ rest)) = symbol? ['*'] := by
    refine symbol?_append fun second hmem => ?_
    have hsecond : second = '*' := by simpa [longSymbols] using hmem
    rw [hsecond]
    exact hhead
  exact read_symbol (by decide) (by decide) (hsymbol.trans rfl)

theorem read_assign {afterDot : Bool} {rest : List Char} (hhead : rest.head? ≠ some '=') :
    Lexeme.read afterDot '=' rest = .ok ⟨.assign, ['=']⟩ := by
  have hsymbol : symbol? ('=' :: ([] ++ rest)) = symbol? ['='] := by
    refine symbol?_append fun second hmem => ?_
    have hsecond : second = '=' := by simpa [longSymbols] using hmem
    rw [hsecond]
    exact hhead
  exact read_symbol (by decide) (by decide) (hsymbol.trans rfl)

theorem first_of_read_star {afterDot : Bool} {first : Char} {rest : List Char} {lexeme : Lexeme}
    (hread : Lexeme.read afterDot first rest = .ok lexeme)
    (hkind : lexeme.kind ∈ [Kind.mul, .pow]) : first = '*' := by
  obtain ⟨tail, hsource, -⟩ := source_of_read hread
  have hsymbol := source_of_symbol hread (by revert hkind; cases lexeme.kind <;> decide)
  simp only [List.mem_cons, List.not_mem_nil, or_false] at hkind
  rw [hsymbol] at hsource
  rcases hkind with hkind | hkind <;> rw [hkind] at hsource <;>
    exact (List.cons.inj hsource).1.symm

section

variable {afterDot : Bool} {rest : List Char} {words : List Word}

theorem Divides.mul (hhead : rest.head? ≠ some '*') (hrest : Divides false rest words) :
    Divides afterDot ('*' :: rest) (Word.symbol .mul :: words) := by
  have hread : Lexeme.read afterDot '*' ([] ++ rest) = .ok ⟨.mul, ['*']⟩ := read_star hhead
  exact .word (by decide) hread hrest

theorem Divides.assign (hhead : rest.head? ≠ some '=') (hrest : Divides false rest words) :
    Divides afterDot ('=' :: rest) (Word.symbol .assign :: words) := by
  have hread : Lexeme.read afterDot '=' ([] ++ rest) = .ok ⟨.assign, ['=']⟩ := read_assign hhead
  exact .word (by decide) hread hrest

theorem Divides.pow (hrest : Divides false rest words) :
    Divides afterDot ('*' :: '*' :: rest) (Word.symbol .pow :: words) := by
  have hread : Lexeme.read afterDot '*' (['*'] ++ rest) = .ok ⟨.pow, ['*', '*']⟩ := read_star_star
  exact .word (by decide) hread hrest

theorem Divides.star_inv (hdivides : Divides afterDot ('*' :: rest) words) :
    (∃ rest' words', rest = '*' :: rest' ∧ words = Word.symbol .pow :: words' ∧
      Divides false rest' words') ∨
    ∃ words', rest.head? ≠ some '*' ∧ words = Word.symbol .mul :: words' ∧
      Divides false rest words' := by
  obtain ⟨kind, tail, more, words', hsplit, hread, rfl, hmore⟩ := hdivides.cons_inv (by decide)
  by_cases hhead : rest.head? = some '*'
  · obtain ⟨rest', rfl⟩ := List.head?_eq_some_iff.1 hhead
    rw [read_star_star] at hread
    cases hread
    obtain ⟨-, rfl⟩ := List.cons.inj hsplit
    exact .inl ⟨_, words', rfl, rfl, hmore⟩
  · rw [read_star hhead] at hread
    cases hread
    subst hsplit
    exact .inr ⟨words', hhead, rfl, hmore⟩

/-- A star takes the next one with it. -/
theorem Divides.star (hrest : Divides false rest words)
    (hblank : ∀ char ∈ (rest.dropWhile fun char => char == '*').head?, ¬ Text.isBlank char) :
    Divides afterDot ('*' :: rest) (starBefore words) := by
  induction hlength : rest.length using Nat.strong_induction_on
    generalizing rest words afterDot with
  | h length ih =>
  subst hlength
  by_cases hhead : rest.head? = some '*'
  · obtain ⟨rest, rfl⟩ := List.head?_eq_some_iff.1 hhead
    rcases hrest.star_inv with ⟨rest', words', rfl, rfl, hmore⟩ | ⟨words', -, rfl, hmore⟩
    · have hblank' : ∀ char ∈ (rest'.dropWhile fun char => char == '*').head?,
          ¬ Text.isBlank char := by simpa using hblank
      exact .pow (ih _ (by simp) hmore hblank' rfl)
    · exact .pow hmore
  · have hplain : starBefore words = Word.symbol .mul :: words := by
      rcases rest with _ | ⟨char, rest⟩
      · rw [hrest.nil_inv, starBefore]
      · have hchar : char ≠ '*' := by simpa using hhead
        have hnone : ¬ Text.isBlank char := by simpa [hchar] using hblank
        obtain ⟨kind, tail, more, words', -, hread, rfl, -⟩ := hrest.cons_inv hnone
        have hkind : kind ∉ [Kind.mul, .pow] := fun hmem => hchar (first_of_read_star hread hmem)
        simp only [List.mem_cons, List.not_mem_nil, or_false, not_or] at hkind
        unfold starBefore
        split
        · next hmul => exact absurd hmul hkind.1
        · next hpow => exact absurd hpow hkind.2
        · rfl
    rw [hplain]
    exact .mul hhead hrest

end

/-! ## Whole numbers -/

/-- One or more digits. -/
def IsWhole (text : String) : Prop :=
  ∃ first tail, text.toList = first :: tail ∧ first.isDigit ∧ ∀ char ∈ tail, char.isDigit

/-- The words of a whole number and of the words right behind it. -/
def numeralBefore (text : String) : List Word → List Word
  | point :: fraction :: words =>
    if point.kind = .dot ∧ fraction.kind = .integer then
      ⟨.float, text ++ "." ++ fraction.text⟩ :: words
    else
      ⟨.integer, text⟩ :: point :: fraction :: words
  | words => ⟨.integer, text⟩ :: words

/-- What may follow an expression: a delimiter, or a point with a selector behind it. -/
structure Follows (rest : List Char) (words : List Word) : Prop where
  head : ∀ char ∈ rest.head?, char ∈ '.' :: delimiters
  exponent : exponentPart (rest.drop (fractionPart rest).length) = []
  selector : rest.head? = some '.' → ∀ char ∈ rest.tail.head?, ¬ Text.isBlank char
  dot : rest.head? ≠ some '.' → ∀ word ∈ words.head?, word.kind ≠ .dot

theorem follows_cons {char : Char} {rest : List Char} {words : List Word}
    (hmem : char ∈ delimiters) (hdot : ∀ word ∈ words.head?, word.kind ≠ .dot) :
    Follows (char :: rest) words := by
  have hplain : char ≠ '.' ∧ char ≠ 'e' ∧ char ≠ 'E' := by
    have hnone : ∀ char ∈ delimiters, char ≠ '.' ∧ char ≠ 'e' ∧ char ≠ 'E' := by
      simp [delimiters]
    exact hnone char hmem
  refine ⟨?_, ?_, ?_, fun _ => hdot⟩
  · simp [hmem]
  · have hfraction : fractionPart (char :: rest) = [] := by
      simp [fractionPart, hplain.1]
    rw [hfraction, List.length_nil, List.drop_zero]
    simp [exponentPart, hplain.2]
  · intro hhead
    exact absurd (Option.some.inj hhead) hplain.1

theorem follows_word {char : Char} {rest : List Char} {kind : Kind} {text : String}
    {words : List Word} (hmem : char ∈ delimiters) (hkind : kind ≠ .dot) :
    Follows (char :: rest) (⟨kind, text⟩ :: words) := by
  refine follows_cons hmem ?_
  rintro _ ⟨⟩
  exact hkind

/-- Nothing that may follow an expression continues a word that is no whole number. -/
theorem Follows.endsBefore {rest : List Char} {words : List Word} (hfollows : Follows rest words)
    {kind : Kind} (hkind : kind ≠ .integer) : EndsBefore kind rest := by
  intro char hchar
  rcases List.mem_cons.1 (hfollows.head char hchar) with rfl | hmem
  · exact .inr (.inl ⟨rfl, hkind⟩)
  · exact .inl hmem

theorem Follows.not_isDigit {rest : List Char} {words : List Word}
    (hfollows : Follows rest words) :
    ∀ char ∈ rest.head?, char.isDigit = false := by
  have hnone : ∀ char ∈ '.' :: delimiters, char.isDigit = false := by simp [delimiters]
  exact fun char hchar => hnone char (hfollows.head char hchar)

theorem numeralBefore_dot {text : String} {chars digits : List Char} {words : List Word}
    (htext : text.toList = chars) :
    numeralBefore text (Word.symbol .dot :: Lexeme.word ⟨.integer, digits⟩ :: words) =
      Lexeme.word ⟨.float, chars ++ '.' :: digits⟩ :: words := by
  have hjoined : text ++ "." ++ String.ofList digits = String.ofList (chars ++ '.' :: digits) := by
    rw [← String.toList_inj, ← htext]
    simp
  exact congrArg (fun joined => (⟨.float, joined⟩ : Word) :: words) hjoined

theorem exists_of_fractionPart_ne_nil {rest : List Char} (hfraction : fractionPart rest ≠ []) :
    ∃ digit more, rest = '.' :: digit :: more ∧ digit.isDigit := by
  revert hfraction
  fun_cases fractionPart rest with
  | case1 digit more hdigit => exact fun _ => ⟨digit, more, rfl, hdigit⟩
  | case2 | case3 => exact fun hnil => absurd rfl hnil

/-- Without a fraction a whole number ends before the point. -/
theorem numeralBefore_of_fractionPart {text : String} {rest : List Char} {words : List Word}
    (hfollows : Follows rest words) (hrest : Divides false rest words)
    (hfraction : fractionPart rest = []) :
    numeralBefore text words = ⟨.integer, text⟩ :: words := by
  match words with
  | [] => rfl
  | [_] => rfl
  | point :: fraction :: words =>
    refine if_neg ?_
    rintro ⟨hpoint, hinteger⟩
    by_cases hhead : rest.head? = some '.'
    · have hselector := hfollows.selector hhead
      obtain ⟨rest, rfl⟩ := List.head?_eq_some_iff.1 hhead
      obtain ⟨_, hwords, hmore⟩ := hrest.dot_inv
      cases hwords
      rcases rest with _ | ⟨char, rest⟩
      · cases hmore.nil_inv
      · obtain ⟨_, _, _, _, -, hread, hwords, -⟩ := hmore.cons_inv (hselector char rfl)
        cases hwords
        have hdigit := isDigit_of_read_number hread (by simpa using .inl hinteger)
        simp [fractionPart, hdigit] at hfraction
    · exact hfollows.dot hhead point rfl hpoint

theorem numeralBefore_of_head {text : String} {words : List Word}
    (hhead : ∀ word ∈ words.head?, word.kind ≠ .dot) :
    numeralBefore text words = ⟨.integer, text⟩ :: words := by
  match words with
  | [] => rfl
  | [_] => rfl
  | point :: _ :: _ =>
    have hpoint : point.kind ≠ .dot := hhead point rfl
    simp [numeralBefore, hpoint]

section

variable {afterDot : Bool} {text : String} {rest : List Char} {words : List Word}

/-- A position behind a dot has no fraction. -/
theorem Divides.index (hwhole : IsWhole text) (hhead : ∀ char ∈ rest.head?, char.isDigit = false)
    (hrest : Divides false rest words) :
    Divides true (text.toList ++ rest) (⟨.integer, text⟩ :: words) := by
  obtain ⟨first, tail, htext, hfirst, htail⟩ := hwhole
  have hread : Lexeme.read true first (tail ++ rest) = .ok ⟨.integer, first :: tail⟩ := by
    rw [read_of_isDigit hfirst, number, takeWhile_append_of_head tail hhead,
      List.takeWhile_eq_self_iff.2 htail]
    rfl
  have hword : (⟨.integer, first :: tail⟩ : Lexeme).word = ⟨.integer, text⟩ := by
    simp [Lexeme.word, Lexeme.text, ← htext]
  rw [htext, ← hword]
  exact .word (by simp [Text.not_isBlank_of_isDigit hfirst]) hread hrest

theorem Divides.numeral (hwhole : IsWhole text) (hfollows : Follows rest words)
    (hrest : Divides false rest words) :
    Divides false (text.toList ++ rest) (numeralBefore text words) := by
  obtain ⟨first, tail, htext, hfirst, htail⟩ := hwhole
  have hblank : ¬ Text.isBlank first := by simp [Text.not_isBlank_of_isDigit hfirst]
  have hhead := hfollows.not_isDigit
  have hwholeDigits : (tail ++ rest).takeWhile Char.isDigit = tail := by
    rw [takeWhile_append_of_head tail hhead, List.takeWhile_eq_self_iff.2 htail]
  have hnumber : number false first (tail ++ rest) =
      ⟨if (fractionPart rest).isEmpty then .integer else .float,
        first :: (tail ++ fractionPart rest)⟩ := by
    simp [number, hwholeDigits, hfollows.exponent]
  have hinteger : (⟨.integer, first :: tail⟩ : Lexeme).word = ⟨.integer, text⟩ := by
    simp [Lexeme.word, Lexeme.text, ← htext]
  rw [htext]
  by_cases hfraction : fractionPart rest = []
  · -- Without a fraction the number ends here, and no position follows a point.
    have hread : Lexeme.read false first (tail ++ rest) = .ok ⟨.integer, first :: tail⟩ := by
      rw [read_of_isDigit hfirst, hnumber, hfraction]
      simp
    rw [numeralBefore_of_fractionPart hfollows hrest hfraction, ← hinteger]
    exact .word hblank hread hrest
  · -- The point and the position behind it belong to the number.
    obtain ⟨digit, more, rfl, hdigit⟩ := exists_of_fractionPart_ne_nil hfraction
    obtain ⟨_, rfl, hposition⟩ := hrest.dot_inv
    obtain ⟨_, digits, more, words, rfl, hread, rfl, hmore⟩ :=
      hposition.cons_inv (by simp [Text.not_isBlank_of_isDigit hdigit])
    rw [read_of_isDigit hdigit, number] at hread
    obtain ⟨rfl, hdigits⟩ :
        Kind.integer = _ ∧ (digits ++ more).takeWhile Char.isDigit = digits := by
      simpa using hread
    have hjoined : Lexeme.read false first ((tail ++ '.' :: digit :: digits) ++ more) =
        .ok ⟨.float, first :: (tail ++ '.' :: digit :: digits)⟩ := by
      rw [List.append_assoc, read_of_isDigit hfirst, List.cons_append, List.cons_append, hnumber]
      simp [fractionPart, hdigit, hdigits]
    rw [numeralBefore_dot htext]
    have hdivides := Divides.word hblank hjoined hmore
    simpa using hdivides

/-! ## Selectors -/

theorem follows_name (hname : IsName text) : Follows ('.' :: (text.toList ++ rest)) words := by
  obtain ⟨first, tail, htext, hstart, -⟩ := hname
  refine ⟨by simp, ?_, ?_, fun hhead => absurd rfl hhead⟩
  · simp [htext, fractionPart, not_isDigit_of_isNameStart hstart, exponentPart]
  · simp [htext, not_isBlank_of_isNameStart hstart]

theorem follows_index {words' : List Word} (hwhole : IsWhole text) (hfollows : Follows rest words) :
    Follows ('.' :: (text.toList ++ rest)) words' := by
  obtain ⟨first, tail, htext, hfirst, htail⟩ := hwhole
  refine ⟨by simp, ?_, ?_, fun hhead => absurd rfl hhead⟩
  · have hfraction : fractionPart ('.' :: (text.toList ++ rest)) = '.' :: first :: tail := by
      simp [htext, fractionPart, hfirst, takeWhile_append_of_head tail hfollows.not_isDigit,
        List.takeWhile_eq_self_iff.2 htail]
    have hdrop : ('.' :: (text.toList ++ rest)).drop ('.' :: first :: tail).length = rest := by
      simp [htext]
    rw [hfraction, hdrop]
    have hmark : ∀ char ∈ rest.head?, char ≠ 'e' ∧ char ≠ 'E' := by
      have hnone : ∀ char ∈ '.' :: delimiters, char ≠ 'e' ∧ char ≠ 'E' := by simp [delimiters]
      exact fun char hchar => hnone char (hfollows.head char hchar)
    cases rest with
    | nil => rfl
    | cons char rest => simp [exponentPart, hmark char rfl]
  · simp [htext, Text.not_isBlank_of_isDigit hfirst]

end

end Stencil
