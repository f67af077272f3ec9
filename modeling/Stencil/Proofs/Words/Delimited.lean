import Stencil.Proofs.Places.Coverage

/-!
# Texts between quotes

Which texts may stand between two quotes as they are is decided twice: the scanner takes backslashes
in pairs from the left, and the canonical text counts those before each quote.  Both agree on every
text, so the canonical text of a scanned string is scanned as a string of the same value.
-/

namespace Stencil

open Lexeme (isQuote)

variable {afterDot : Bool} {quote : Char} {chars : List Char}

/-- The words of a text are those into which its characters are divided. -/
theorem scanExpression_iff_divides (source : String) (words : List Word) :
    (∃ tokens, Token.scanExpression source = .ok tokens ∧
        tokens.map Token.word = words ++ [Word.eof]) ↔
      Divides false source.toList words := by
  constructor
  · rintro ⟨tokens, hscan, hwords⟩
    obtain ⟨words', hdivides, hwords'⟩ := divides_of_scanFrom hscan
    exact List.append_cancel_right (hwords'.symm.trans hwords) ▸ hdivides
  · exact fun hdivides => hdivides.scanFrom .start

/-- Two quotes and a text between them are one string exactly if no quote inside closes it and the
last backslash does not escape the quote at the end. -/
theorem divides_quoted_iff (hquote : isQuote quote) :
    Divides afterDot (quote :: (chars ++ [quote])) [⟨.string, String.ofList chars⟩] ↔
      Expr.fitsQuotes quote false chars ∧ endsEscaped false chars = false := by
  obtain ⟨-, hblank, hslash⟩ := Lexeme.plain_of_isQuote hquote
  constructor
  · intro hdivides
    obtain ⟨kind, tail, more, words', hsplit, hread, hword, -⟩ :=
      hdivides.cons_inv (by simp [hblank])
    obtain ⟨rfl, htext⟩ := Word.mk.inj (List.cons.inj hword).1
    obtain ⟨-, body, hsource, hfits, heven⟩ := quoted_of_read hread rfl
    obtain rfl : tail = body ++ [quote] := (List.cons.inj hsource).2
    obtain rfl : chars = body := by simpa [Lexeme.text] using congrArg String.toList htext
    exact ⟨hfits, heven⟩
  · rintro ⟨hfits, heven⟩
    have htail : Lexeme.stringTail? quote ((chars ++ [quote]) ++ []) = some (chars ++ [quote]) := by
      rw [List.append_nil]
      exact stringTail?_of_fitsQuotes hslash hfits heven
    have hdivides : Divides afterDot _ _ :=
      .word (by simp [hblank]) (Lexeme.read_of_isQuote hquote htail) .nil
    simpa [Lexeme.word, Lexeme.text] using hdivides

/-- The value of a scanned string is read back from its canonical text. -/
theorem Word.IsScanned.stringText {word : Word} (hscanned : word.IsScanned)
    (hkind : word.kind = .string) :
    ∃ text, Divides afterDot (Expr.stringText (Grammar.unescape word.text)).toList
        [⟨.string, text⟩] ∧ Grammar.unescape text = Grammar.unescape word.text := by
  have hvalue := hscanned.quotable hkind
  refine ⟨_, List.append_nil _ ▸ Divides.string hvalue .nil, ?_⟩
  rw [unescape_flatMap_escapeChar hvalue.no_escape, String.ofList_toList]

/-- A string token of any text comes from the reading of a word. -/
theorem Token.isScanned_of_scanFrom {mode : ScanMode} {position : Position} {tokens : List Token}
    (hscan : Token.scanFrom mode afterDot position chars = .ok tokens) :
    ∀ token ∈ tokens, token.kind = .string → token.word.IsScanned := by
  intro token htoken hkind
  obtain ⟨-, inner, -, -, -, hreads⟩ := (covered_of_scanFrom hscan).exists_reads token htoken
  rcases hreads with hreads | ⟨heof, -⟩
  · exact hreads.isScanned (by simp [hkind])
  · exact absurd ((congrArg Word.kind heof).symm.trans hkind) Kind.noConfusion

/-- A text between two quotes is scanned as one string, with this text and nothing behind it, exactly
if the check of the canonical text accepts it and it ends in an even number of backslashes.  And from
whatever text a string token has been scanned, the canonical text of its value is scanned as one string,
and that has the same value. -/
theorem quote_check_matches_scanner :
    (∀ quote, isQuote quote → ∀ text : String,
      (∃ tokens,
        Token.scanExpression (String.ofList (quote :: (text.toList ++ [quote]))) = .ok tokens ∧
          tokens.map Token.word = [⟨.string, text⟩, Word.eof]) ↔
        Expr.fitsQuotes quote false text.toList ∧ backslashRun text.toList % 2 = 0) ∧
    ∀ mode afterDot position chars tokens,
      Token.scanFrom mode afterDot position chars = .ok tokens →
        ∀ token ∈ tokens, token.kind = .string →
          ∃ printed text,
            Token.scanExpression (Expr.stringText (Grammar.unescape token.text)) = .ok printed ∧
            printed.map Token.word = [⟨.string, text⟩, Word.eof] ∧
            Grammar.unescape text = Grammar.unescape token.text := by
  constructor
  · intro quote hquote text
    have hdivides : Divides false (quote :: (text.toList ++ [quote]))
        [⟨.string, String.ofList text.toList⟩] ↔ _ := divides_quoted_iff hquote
    rw [String.ofList_toList] at hdivides
    refine (scanExpression_iff_divides _ [⟨.string, text⟩]).trans ?_
    rw [String.toList_ofList, hdivides, endsEscaped_false, decide_eq_false_iff_not,
      Nat.mod_two_not_eq_one]
  · intro mode afterDot position chars tokens hscan token htoken hkind
    obtain ⟨text, hdivides, hvalue⟩ :=
      (Token.isScanned_of_scanFrom hscan token htoken hkind).stringText hkind
    obtain ⟨printed, hprinted, hwords⟩ := (scanExpression_iff_divides _ _).2 hdivides
    exact ⟨printed, text, hprinted, hwords, hvalue⟩

/-- A quote behind a backslash, a backslash that escapes the last quote, and a pair of backslashes whose
second one is read as a part of a line feed. -/
theorem quote_check_matches_scanner_backslashes :
    (∃ tokens, Token.scanExpression (String.ofList ('\'' :: ("it\\'s".toList ++ ['\'']))) = .ok tokens ∧
      tokens.map Token.word = [⟨.string, "it\\'s"⟩, Word.eof]) ∧
    (¬ ∃ tokens, Token.scanExpression (String.ofList ('"' :: ("\\".toList ++ ['"']))) = .ok tokens ∧
      tokens.map Token.word = [⟨.string, "\\"⟩, Word.eof]) ∧
    ∃ printed text,
      Token.scanExpression (Expr.stringText (Grammar.unescape "\\\\n")) = .ok printed ∧
        printed.map Token.word = [⟨.string, text⟩, Word.eof] ∧
        Grammar.unescape text = Grammar.unescape "\\\\n" := by
  obtain ⟨hcheck, hprint⟩ := quote_check_matches_scanner
  refine ⟨(hcheck '\'' rfl "it\\'s").2 (by decide), mt (hcheck '"' rfl "\\").1 (by decide), ?_⟩
  obtain ⟨tokens, hscan, hwords⟩ := (hcheck '"' rfl "\\\\n").2 (by decide)
  obtain ⟨token, rest, rfl, hword, -⟩ := List.map_eq_cons_iff.1 hwords
  obtain ⟨hkind, htext⟩ := Word.mk.inj hword
  exact htext ▸ hprint _ _ _ _ _ hscan token List.mem_cons_self hkind

end Stencil
