import Stencil.Proofs.Words.Texts

/-!
# The texts of scanned words

What the kind of a word tells about its text when the word comes from the scanner: numbers start
with a digit, names are names, and the value of a string can be written between quotes again.
-/

namespace Stencil

open Lexeme Grammar

/-- A word that the scanner has found in some text. -/
def Word.IsScanned (word : Word) : Prop :=
  ∃ afterDot first rest lexeme, Lexeme.read afterDot first rest = .ok lexeme ∧
    word = Lexeme.word lexeme

theorem Divides.isScanned {afterDot : Bool} {chars : List Char} {words : List Word}
    (hdivides : Divides afterDot chars words) : ∀ word ∈ words, word.IsScanned := by
  induction hdivides with
  | nil => simp
  | blank _ _ ih => exact ih
  | word _ hread _ ih => exact List.forall_mem_cons.2 ⟨⟨_, _, _, _, hread, rfl⟩, ih⟩

namespace Word.IsScanned

variable {word : Word}

theorem isName (hscanned : word.IsScanned) (hkind : word.kind = .name) : IsName word.text := by
  obtain ⟨afterDot, first, rest, lexeme, hread, rfl⟩ := hscanned
  change lexeme.kind = .name at hkind
  rcases read_cases hread with ⟨-, rfl⟩ | ⟨-, tail, -, rfl⟩ | ⟨hstart, rfl⟩ | ⟨-, hsymbol⟩
  · have hnumber := kind_number afterDot first rest
    rw [hkind] at hnumber
    exact absurd hnumber (by decide)
  · cases hkind
  · refine ⟨first, rest.takeWhile isNameChar, ?_, hstart, fun char hmem => ?_⟩
    · simp [Lexeme.word, Lexeme.text, name]
    · exact List.mem_takeWhile_imp hmem
  · have hmem := (exists_of_symbol? hsymbol).1
    rw [hkind] at hmem
    exact absurd hmem (by decide)

theorem isDigit (hscanned : word.IsScanned) (hkind : word.kind ∈ [Kind.integer, .float]) :
    ∃ first tail, word.text.toList = first :: tail ∧ first.isDigit := by
  obtain ⟨afterDot, first, rest, lexeme, hread, rfl⟩ := hscanned
  obtain ⟨tail, hsource, -⟩ := source_of_read hread
  refine ⟨first, tail, ?_, isDigit_of_read_number hread hkind⟩
  have hstring : lexeme.kind ≠ .string := by
    intro hstring
    have hcontra : lexeme.kind ∈ [Kind.integer, .float] := hkind
    rw [hstring] at hcontra
    exact absurd hcontra (by decide)
  simp [Lexeme.word, Lexeme.text, hsource]

end Word.IsScanned

/-! ## Values of strings -/

/-- What stands between two quotes holds the quote only behind an odd run of backslashes. -/
theorem fitsQuotes_of_stringTail? {quote : Char} {chars tail : List Char} (hquote : quote ≠ '\\')
    (htail : stringTail? quote chars = some tail) :
    ∃ body, tail = body ++ [quote] ∧ Expr.fitsQuotes quote false body ∧
      endsEscaped false body = false := by
  fun_induction stringTail? quote chars generalizing tail with
  | case1 => cases htail
  | case2 char rest ih =>
    obtain ⟨inner, hinner, rfl⟩ := Option.map_eq_some_iff.1 htail
    obtain ⟨body, rfl, hfits, heven⟩ := ih hinner
    refine ⟨'\\' :: char :: body, rfl, ?_, ?_⟩
    · simpa [Expr.fitsQuotes, hquote.symm] using hfits
    · simpa [endsEscaped] using heven
  | case3 rest _ =>
    cases htail
    exact ⟨[], rfl, rfl, rfl⟩
  | case4 char rest hescape hne ih =>
    obtain ⟨inner, hinner, rfl⟩ := Option.map_eq_some_iff.1 htail
    have hchar : char ≠ '\\' := by
      rintro rfl
      cases rest with
      | nil => cases hinner
      | cons next rest => exact hescape next rest rfl rfl
    obtain ⟨body, rfl, hfits, heven⟩ := ih hinner
    have hplain : (char == '\\') = false := by simpa using hchar
    refine ⟨char :: body, rfl, ?_, ?_⟩
    · rw [Expr.fitsQuotes]
      simpa [hne, hplain] using hfits
    · simpa [endsEscaped, hplain] using heven

/-- A string that is read stands between two quotes, and nothing in it closes it. -/
theorem quoted_of_read {afterDot : Bool} {first : Char} {rest : List Char} {lexeme : Lexeme}
    (hread : Lexeme.read afterDot first rest = .ok lexeme) (hkind : lexeme.kind = .string) :
    isQuote first ∧ ∃ body, lexeme.source = first :: (body ++ [first]) ∧
      Expr.fitsQuotes first false body ∧ endsEscaped false body = false := by
  rcases read_cases hread with ⟨-, rfl⟩ | ⟨hquote, tail, htail, rfl⟩ | ⟨-, rfl⟩ | ⟨-, hsymbol⟩
  · have hnumber := kind_number afterDot first rest
    rw [hkind] at hnumber
    exact absurd hnumber (by decide)
  · obtain ⟨body, rfl, hfits, heven⟩ :=
      fitsQuotes_of_stringTail? (plain_of_isQuote hquote).2.2 htail
    exact ⟨hquote, body, rfl, hfits, heven⟩
  · cases hkind
  · have hmem := (exists_of_symbol? hsymbol).1
    rw [hkind] at hmem
    exact absurd hmem (by decide)

section

variable {letter value : Char}

/-- What is read first is the first character or the value of an escape. -/
theorem head_replaceEscape {char : Char} {chars : List Char} :
    ∃ head tail, replaceEscape letter value (char :: chars) = head :: tail ∧
      (head = char ∨ head = value) := by
  unfold replaceEscape
  split
  · split
    · exact ⟨_, _, rfl, .inl rfl⟩
    · split
      · exact ⟨_, _, rfl, .inr rfl⟩
      · exact ⟨_, _, rfl, .inl rfl⟩
  · exact ⟨_, _, rfl, .inl rfl⟩

/-- No escape of the same kind is left, and none of another kind arises. -/
theorem isInfix_of_replaceEscape {other : Char} {chars : List Char} (hvalue : value ≠ '\\')
    (hother : other ≠ value) (hsegment : ['\\', other] <:+: replaceEscape letter value chars) :
    other ≠ letter ∧ ['\\', other] <:+: chars := by
  fun_induction replaceEscape letter value chars with
  | case1 | case2 => exact absurd hsegment.length_le (by simp)
  | case3 rest ih =>
    rw [List.infix_cons_iff, List.cons_prefix_cons] at hsegment
    have hbehind := hsegment.resolve_left fun hstart => hvalue hstart.1.symm
    exact (ih hbehind).imp_right fun hrest => List.infix_cons (List.infix_cons hrest)
  | case4 next rest hne ih =>
    rw [List.infix_cons_iff, List.cons_prefix_cons] at hsegment
    rcases hsegment with ⟨-, hstart⟩ | hbehind
    · obtain ⟨head, tail, hread, hhead⟩ := @head_replaceEscape letter value next rest
      rw [hread, List.cons_prefix_cons] at hstart
      obtain ⟨rfl, -⟩ := hstart
      obtain rfl := hhead.resolve_right hother
      exact ⟨hne, [], rest, rfl⟩
    · exact (ih hbehind).imp_right List.infix_cons
  | case5 char rest hne ih =>
    rw [List.infix_cons_iff, List.cons_prefix_cons] at hsegment
    have hbehind := hsegment.resolve_left fun hstart => hne hstart.1.symm
    exact (ih hbehind).imp_right List.infix_cons

variable (hletter : (letter == '\\') = false) (hvalue : (value == '\\') = false)
include hletter hvalue

/-- Replacing an escape by another character leaves every other character behind as many
backslashes as before. -/
theorem endsEscaped_replaceEscape {escaped : Bool} {chars : List Char} :
    endsEscaped escaped (replaceEscape letter value chars) = endsEscaped escaped chars := by
  fun_induction replaceEscape letter value chars generalizing escaped with
  | case1 | case2 => rfl
  | case3 rest ih => simpa [endsEscaped, hletter, hvalue] using @ih false
  | case4 next rest hne ih => exact ih
  | case5 char rest hne ih => exact ih

theorem fitsQuotes_replaceEscape {quote : Char} {escaped : Bool} {chars : List Char}
    (hquote : quote ∉ ['\\', letter, value]) :
    Expr.fitsQuotes quote escaped (replaceEscape letter value chars) =
      Expr.fitsQuotes quote escaped chars := by
  simp only [List.mem_cons, List.not_mem_nil, or_false, not_or] at hquote
  obtain ⟨hslash, hquoteLetter, hquoteValue⟩ := hquote
  fun_induction replaceEscape letter value chars generalizing escaped with
  | case1 | case2 => rfl
  | case3 rest ih =>
    simp [Expr.fitsQuotes, ih, hletter, hvalue, Ne.symm hslash, Ne.symm hquoteLetter,
      Ne.symm hquoteValue]
  | case4 next rest hne ih =>
    rw [Expr.fitsQuotes, ih]
    rfl
  | case5 char rest hne ih =>
    rw [Expr.fitsQuotes, ih]
    rfl

end

/-- The value of a scanned string can be written between the quotes that it was read from. -/
theorem Word.IsScanned.quotable {word : Word} (hscanned : word.IsScanned)
    (hkind : word.kind = .string) : Quotable (unescape word.text) := by
  obtain ⟨afterDot, first, rest, ⟨kind, source⟩, hread, rfl⟩ := hscanned
  obtain rfl : kind = .string := hkind
  obtain ⟨hquote, body, rfl, hfits, heven⟩ := quoted_of_read hread rfl
  have htext : (unescape (Lexeme.word ⟨.string, first :: (body ++ [first])⟩).text).toList =
      replaceEscape 't' '\t' (replaceEscape 'n' '\n' body) := by
    simp [unescape, Lexeme.word, Lexeme.text]
  have hfirst : first = '"' ∨ first = '\'' := by simpa [isQuote] using hquote
  refine ⟨fun letter hmem hsegment => ?_, ?_, ?_⟩
  · rw [htext] at hsegment
    have hother : letter ≠ '\t' ∧ letter ≠ '\n' := by
      simp only [List.mem_cons, List.not_mem_nil, or_false] at hmem
      rcases hmem with rfl | rfl <;> decide
    obtain ⟨htab, hinner⟩ := isInfix_of_replaceEscape (by decide) hother.1 hsegment
    obtain ⟨hfeed, -⟩ := isInfix_of_replaceEscape (by decide) hother.2 hinner
    simp [htab, hfeed] at hmem
  · have hrun : endsEscaped false (unescape (Lexeme.word ⟨.string,
        first :: (body ++ [first])⟩).text).toList = false := by
      rw [htext, endsEscaped_replaceEscape rfl rfl, endsEscaped_replaceEscape rfl rfl, heven]
    rw [endsEscaped_false, decide_eq_false_iff_not] at hrun
    omega
  · have hescaped : QuotesEscaped first (unescape (Lexeme.word ⟨.string,
        first :: (body ++ [first])⟩).text).toList := by
      rw [quotesEscaped_iff, htext, fitsQuotes_replaceEscape rfl rfl,
        fitsQuotes_replaceEscape rfl rfl]
      · exact hfits
      · rcases hfirst with rfl | rfl <;> decide
      · rcases hfirst with rfl | rfl <;> decide
    rcases hfirst with rfl | rfl
    · exact .inr hescaped
    · exact .inl hescaped

end Stencil
