import Stencil.Expression.Canonical
import Stencil.Grammar.Operand
import Stencil.Proofs.Words.Ends

/-!
# Quoted strings

A backslash keeps the character behind it from closing a string, so what closes one depends on
whether the number of backslashes right before it is odd.  A value that can be written between
quotes at all is read back from its written form.
-/

namespace Stencil

/-- The number of backslashes at the end of the characters. -/
def backslashRun (chars : List Char) : Nat :=
  (chars.reverse.takeWhile fun char => char == '\\').length

/-- Every `quote` stands behind an odd number of backslashes. -/
def QuotesEscaped (quote : Char) (chars : List Char) : Prop :=
  ∀ before after, chars = before ++ quote :: after → backslashRun before % 2 = 1

/-- The values that can be written between quotes. -/
structure Quotable (value : String) : Prop where
  no_escape : ∀ letter ∈ ['n', 't'], ¬ ['\\', letter] <:+: value.toList
  even_run : backslashRun value.toList % 2 = 0
  quotes : QuotesEscaped '\'' value.toList ∨ QuotesEscaped '"' value.toList

/-! ## Odd runs of backslashes -/

/-- Whether the characters end in an odd run of backslashes, where `escaped` tells the same of what
stands before them. -/
def endsEscaped (escaped : Bool) (chars : List Char) : Bool :=
  chars.foldl (fun escaped char => char == '\\' && !escaped) escaped

theorem backslashRun_append_singleton (chars : List Char) (char : Char) :
    backslashRun (chars ++ [char]) = if char = '\\' then backslashRun chars + 1 else 0 := by
  by_cases hchar : char = '\\' <;> simp [backslashRun, hchar]

theorem endsEscaped_false (chars : List Char) :
    endsEscaped false chars = decide (backslashRun chars % 2 = 1) := by
  induction chars using List.reverseRecOn with
  | nil => rfl
  | append_singleton chars char ih =>
    have hlast : endsEscaped false (chars ++ [char]) =
        (char == '\\' && !endsEscaped false chars) := by
      simp [endsEscaped]
    rw [hlast, ih, backslashRun_append_singleton]
    by_cases hchar : char = '\\'
    · simp only [hchar, beq_self_eq_true, Bool.true_and, if_true]
      by_cases hodd : backslashRun chars % 2 = 1
      · simp [hodd]
        omega
      · simp [hodd]
        omega
    · simp [hchar]

theorem fitsQuotes_iff {quote : Char} {escaped : Bool} {chars : List Char} :
    Expr.fitsQuotes quote escaped chars ↔
      ∀ before after, chars = before ++ quote :: after → endsEscaped escaped before := by
  induction chars generalizing escaped with
  | nil => simp [Expr.fitsQuotes]
  | cons char chars ih =>
    unfold Expr.fitsQuotes
    constructor
    · intro hfits before after hchars
      split at hfits
      · cases hfits
      · next hopen =>
        rcases before with _ | ⟨first, before⟩
        · obtain ⟨rfl, -⟩ := List.cons.inj hchars
          simpa [endsEscaped] using hopen
        · obtain ⟨rfl, hmore⟩ := List.cons.inj hchars
          exact ih.1 hfits before after hmore
    · intro hescaped
      split
      · next hopen =>
        have := hescaped [] chars (by rw [hopen.1]; rfl)
        simp [endsEscaped, hopen.2] at this
      · exact ih.2 fun before after hchars =>
          hescaped (char :: before) after (by rw [hchars]; rfl)

theorem quotesEscaped_iff {quote : Char} {chars : List Char} :
    QuotesEscaped quote chars ↔ Expr.fitsQuotes quote false chars := by
  simp [fitsQuotes_iff, QuotesEscaped, endsEscaped_false]

/-! ## Closing a string -/

/-- A string goes on up to the first quote that closes it. -/
theorem stringTail?_of_fitsQuotes {quote : Char} {chars more : List Char} (hquote : quote ≠ '\\')
    (hfits : Expr.fitsQuotes quote false chars) (heven : endsEscaped false chars = false) :
    Lexeme.stringTail? quote (chars ++ quote :: more) = some (chars ++ [quote]) := by
  match chars with
  | [] => rw [List.nil_append, Lexeme.stringTail?_cons hquote, if_pos rfl, List.nil_append]
  | [char] =>
    have hchar : char ≠ '\\' := by
      rintro rfl
      simp [endsEscaped] at heven
    have hne : char ≠ quote := by
      rintro rfl
      simp [Expr.fitsQuotes] at hfits
    rw [List.singleton_append, Lexeme.stringTail?_cons hchar, if_neg hne,
      Lexeme.stringTail?_cons hquote, if_pos rfl]
    rfl
  | first :: second :: chars =>
    by_cases hfirst : first = '\\'
    · subst hfirst
      have hmore : Lexeme.stringTail? quote (chars ++ quote :: more) = some (chars ++ [quote]) := by
        refine stringTail?_of_fitsQuotes hquote ?_ ?_
        · simpa [Expr.fitsQuotes, hquote.symm] using hfits
        · simpa [endsEscaped] using heven
      simp [Lexeme.stringTail?, hmore]
    · have hne : first ≠ quote := by
        rintro rfl
        simp [Expr.fitsQuotes] at hfits
      have hmore : Lexeme.stringTail? quote (second :: chars ++ quote :: more) =
          some (second :: chars ++ [quote]) := by
        have hplain : (first == '\\') = false := by simpa using hfirst
        refine stringTail?_of_fitsQuotes hquote ?_ ?_
        · rw [Expr.fitsQuotes] at hfits
          simpa only [hne, hplain, false_and, if_false, Bool.false_and] using hfits
        · simpa only [endsEscaped, List.foldl_cons, hplain, Bool.false_and] using heven
      rw [List.cons_append, Lexeme.stringTail?_cons hfirst, if_neg hne, hmore]
      rfl

/-! ## Escapes -/

theorem fitsQuotes_escapeChar {quote char : Char} {escaped : Bool} {chars : List Char}
    (hquote : quote ∈ ['\'', '"']) :
    Expr.fitsQuotes quote escaped (Expr.escapeChar char ++ chars) =
      Expr.fitsQuotes quote escaped (char :: chars) := by
  have hne : '\\' ≠ quote ∧ 'n' ≠ quote ∧ 't' ≠ quote ∧ '\n' ≠ quote ∧ '\t' ≠ quote := by
    revert hquote
    simp only [List.mem_cons, List.not_mem_nil, or_false]
    rintro (rfl | rfl) <;> decide
  unfold Expr.escapeChar
  split
  · next hfeed =>
    subst hfeed
    simp [Expr.fitsQuotes, hne]
  · split
    · next htab =>
      subst htab
      simp [Expr.fitsQuotes, hne]
    · rfl

theorem endsEscaped_escapeChar {char : Char} {escaped : Bool} {chars : List Char} :
    endsEscaped escaped (Expr.escapeChar char ++ chars) = endsEscaped escaped (char :: chars) := by
  unfold Expr.escapeChar
  split
  · next hfeed =>
    subst hfeed
    simp [endsEscaped]
  · split
    · next htab =>
      subst htab
      simp [endsEscaped]
    · rfl

theorem fitsQuotes_flatMap_escapeChar {quote : Char} {escaped : Bool} {chars : List Char}
    (hquote : quote ∈ ['\'', '"']) :
    Expr.fitsQuotes quote escaped (chars.flatMap Expr.escapeChar) =
      Expr.fitsQuotes quote escaped chars := by
  induction chars generalizing escaped with
  | nil => rfl
  | cons char chars ih =>
    rw [List.flatMap_cons, fitsQuotes_escapeChar hquote, Expr.fitsQuotes, Expr.fitsQuotes, ih]

theorem endsEscaped_flatMap_escapeChar {escaped : Bool} {chars : List Char} :
    endsEscaped escaped (chars.flatMap Expr.escapeChar) = endsEscaped escaped chars := by
  induction chars generalizing escaped with
  | nil => rfl
  | cons char chars ih =>
    rw [List.flatMap_cons, endsEscaped_escapeChar]
    exact ih

theorem replaceEscape_cons_of_head {letter value : Char} {chars : List Char}
    (hhead : chars.head? ≠ some letter) :
    Grammar.replaceEscape letter value ('\\' :: chars) =
      '\\' :: Grammar.replaceEscape letter value chars := by
  cases chars with
  | nil => simp [Grammar.replaceEscape]
  | cons next chars =>
    have hne : next ≠ letter := by simpa using hhead
    rw [Grammar.replaceEscape]
    simp [hne]

theorem replaceEscape_cons_of_ne {letter value char : Char} {chars : List Char}
    (hchar : char ≠ '\\') :
    Grammar.replaceEscape letter value (char :: chars) =
      char :: Grammar.replaceEscape letter value chars := by
  cases chars <;> simp [Grammar.replaceEscape, hchar]

/-- What is written begins with the letter of an escape only if what it is written for does. -/
theorem head?_flatMap_ne {letter : Char} {write : Char → List Char} {chars : List Char}
    (hletter : letter ≠ '\\')
    (hforms : ∀ char, write char = [char] ∨ ∃ other, write char = ['\\', other])
    (hhead : chars.head? ≠ some letter) : (chars.flatMap write).head? ≠ some letter := by
  cases chars with
  | nil => simp
  | cons next chars =>
    rw [List.flatMap_cons]
    rcases hforms next with hself | ⟨other, hescape⟩
    · simpa [hself] using hhead
    · simpa [hescape] using hletter.symm

/-- Reading one kind of escape undoes writing it, where the values hold no text that looks like the
escape.  The other characters may be written by other escapes. -/
theorem replaceEscape_flatMap {letter value : Char} {write rest : Char → List Char}
    {chars : List Char} (hletter : letter ≠ '\\') (hvalue : value ≠ '\\')
    (hwrite : write value = ['\\', letter]) (hrest : rest value = [value])
    (hother : ∀ char, char ≠ value → rest char = write char ∧
      (write char = [char] ∨
        char ≠ '\\' ∧ ∃ other, other ≠ letter ∧ other ≠ '\\' ∧ write char = ['\\', other]))
    (hplain : ¬ ['\\', letter] <:+: chars) :
    Grammar.replaceEscape letter value (chars.flatMap write) = chars.flatMap rest := by
  have hforms : ∀ char, write char = [char] ∨ ∃ other, write char = ['\\', other] := by
    intro char
    by_cases hchar : char = value
    · exact .inr ⟨letter, hchar ▸ hwrite⟩
    · exact (hother char hchar).2.imp_right fun ⟨_, other, _, _, hescape⟩ => ⟨other, hescape⟩
  induction chars with
  | nil => rfl
  | cons char chars ih =>
    have hmore := ih fun hinfix => hplain (List.infix_cons hinfix)
    rw [List.flatMap_cons, List.flatMap_cons]
    by_cases hchar : char = value
    · subst hchar
      rw [hwrite, hrest]
      simp [Grammar.replaceEscape, hmore]
    · obtain ⟨hsame, hform⟩ := hother char hchar
      rw [hsame]
      rcases hform with hself | ⟨-, other, hother', hslash, hescape⟩
      · rw [hself, List.singleton_append, List.singleton_append]
        by_cases hbackslash : char = '\\'
        · subst hbackslash
          have hhead : chars.head? ≠ some letter := by
            intro hletter
            obtain ⟨behind, rfl⟩ := List.head?_eq_some_iff.1 hletter
            exact hplain ⟨[], behind, rfl⟩
          rw [replaceEscape_cons_of_head (head?_flatMap_ne hletter hforms hhead), hmore]
        · rw [replaceEscape_cons_of_ne hbackslash, hmore]
      · rw [hescape, List.cons_append, List.singleton_append,
          replaceEscape_cons_of_head (by simpa using hother'), replaceEscape_cons_of_ne hslash,
          hmore]
        rfl

/-- A tab is written as an escape, but not a line feed. -/
def escapeTab (char : Char) : List Char :=
  if char = '\t' then ['\\', 't'] else [char]

theorem unescape_flatMap_escapeChar {chars : List Char}
    (hplain : ∀ letter ∈ ['n', 't'], ¬ ['\\', letter] <:+: chars) :
    Grammar.unescape (String.ofList (chars.flatMap Expr.escapeChar)) = String.ofList chars := by
  have hfeed : Grammar.replaceEscape 'n' '\n' (chars.flatMap Expr.escapeChar) =
      chars.flatMap escapeTab := by
    refine replaceEscape_flatMap (by decide) (by decide) rfl rfl ?_ (hplain 'n' (by simp))
    intro char hchar
    by_cases htab : char = '\t'
    · subst htab
      exact ⟨rfl, .inr ⟨by decide, 't', by decide, by decide, rfl⟩⟩
    · simp [escapeTab, Expr.escapeChar, hchar, htab]
  have htab : Grammar.replaceEscape 't' '\t' (chars.flatMap escapeTab) =
      chars.flatMap fun char => [char] := by
    refine replaceEscape_flatMap (by decide) (by decide) rfl rfl ?_ (hplain 't' (by simp))
    intro char hchar
    simp [escapeTab, hchar]
  simp [Grammar.unescape, hfeed, htab]

end Stencil
