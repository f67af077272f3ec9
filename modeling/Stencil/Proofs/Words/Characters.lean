import Mathlib
import Stencil.Token.Lexeme

/-!
# Classes of characters

The tables of letters and numerals hold no ASCII characters, and no blank character is a letter; so
the first character of a word tells which of the recognisers reads it.
-/

namespace Stencil

namespace Text

theorem letterTable_above {row : Nat × Nat} (hrow : row ∈ letterTable) : 128 ≤ row.1 := by
  have hall : (letterTable.all fun row => decide (128 ≤ row.1)) = true := by
    decide +kernel
  simpa using List.all_eq_true.1 hall row hrow

theorem numeralTable_above {row : Nat × Nat} (hrow : row ∈ numeralTable) : 128 ≤ row.1 := by
  have hall : (numeralTable.all fun row => decide (128 ≤ row.1)) = true := by
    decide +kernel
  simpa using List.all_eq_true.1 hall row hrow

/-- Below the tables, letters are those of the Latin alphabet. -/
theorem isLetter_ascii {char : Char} (hascii : char.toNat < 128) :
    isLetter char = char.isAlpha := by
  have htable : letterTable.contains char = false :=
    CodeTable.contains_eq_false_of_lt fun _ hrow => hascii.trans_le (letterTable_above hrow)
  simp [isLetter, htable]

theorem isNumeral_ascii {char : Char} (hascii : char.toNat < 128) :
    isNumeral char = char.isDigit := by
  have htable : numeralTable.contains char = false :=
    CodeTable.contains_eq_false_of_lt fun _ hrow => hascii.trans_le (numeralTable_above hrow)
  simp [isNumeral, htable]

/-- The digits are a range of characters. -/
theorem isDigit_iff {char : Char} : char.isDigit ↔ 48 ≤ char.toNat ∧ char.toNat ≤ 57 := by
  simp [Char.isDigit, UInt32.le_iff_toNat_le]

theorem isAlpha_iff {char : Char} :
    char.isAlpha ↔ 65 ≤ char.toNat ∧ char.toNat ≤ 90 ∨ 97 ≤ char.toNat ∧ char.toNat ≤ 122 := by
  simp [Char.isAlpha, Char.isUpper, Char.isLower, UInt32.le_iff_toNat_le]

/-- No range of blank characters meets a range of the table. -/
theorem contains_eq_false_of_isBlank {table : CodeTable} {char : Char}
    (hdisjoint : (blankTable.all fun blank => table.all fun row =>
      decide (blank.2 < row.1) || decide (row.2 < blank.1)) = true)
    (hblank : isBlank char) : table.contains char = false := by
  obtain ⟨blank, hmem, hrange⟩ := List.any_eq_true.1 hblank
  simp only [Bool.and_eq_true, decide_eq_true_eq] at hrange
  simp only [CodeTable.contains, List.any_eq_false, Bool.and_eq_true, decide_eq_true_eq]
  intro row hrow hletter
  have hapart := List.all_eq_true.1 (List.all_eq_true.1 hdisjoint blank hmem) row hrow
  simp only [Bool.or_eq_true, decide_eq_true_eq] at hapart
  omega

/-- No range of blank characters meets these codes. -/
theorem not_isBlank_of_range {char : Char} (low high : Nat)
    (hdisjoint : (blankTable.all fun blank => [(low, high)].all fun row =>
      decide (blank.2 < row.1) || decide (row.2 < blank.1)) = true)
    (hlow : low ≤ char.toNat) (hhigh : char.toNat ≤ high) : isBlank char = false := by
  by_contra hblank
  rw [Bool.not_eq_false] at hblank
  have hcontains := contains_eq_false_of_isBlank hdisjoint hblank
  simp [CodeTable.contains, hlow, hhigh.not_gt] at hcontains

theorem not_isBlank_of_isDigit {char : Char} (hdigit : char.isDigit) : isBlank char = false := by
  rw [isDigit_iff] at hdigit
  exact not_isBlank_of_range 48 57 (by decide) hdigit.1 hdigit.2

theorem not_isBlank_of_isAlpha {char : Char} (halpha : char.isAlpha) : isBlank char = false := by
  rw [isAlpha_iff] at halpha
  exact not_isBlank_of_range 65 122 (by decide) (by omega) (by omega)

theorem not_isNumeral_of_isBlank {char : Char} (hblank : isBlank char) :
    isNumeral char = false := by
  have hdigit : char.isDigit = false := by
    by_contra hdigit
    rw [Bool.not_eq_false] at hdigit
    rw [not_isBlank_of_isDigit hdigit] at hblank
    cases hblank
  rw [isNumeral, hdigit, contains_eq_false_of_isBlank (by decide +kernel) hblank, Bool.or_self]

theorem not_isLetter_of_isBlank {char : Char} (hblank : isBlank char) : isLetter char = false := by
  have halpha : ¬ char.isAlpha := by
    intro halpha
    rw [not_isBlank_of_isAlpha halpha] at hblank
    cases hblank
  have htable : letterTable.contains char = false :=
    contains_eq_false_of_isBlank (by decide +kernel) hblank
  simp [isLetter, htable, halpha]

end Text

namespace Lexeme

open Text

theorem isNameChar_of_isNameStart {char : Char} (hstart : isNameStart char) : isNameChar char := by
  simp only [isNameStart, isNameChar, Bool.or_eq_true] at hstart ⊢
  exact hstart.imp_left .inl

/-- Below the tables, names start with a letter or an underscore. -/
theorem isNameStart_ascii {char : Char} (hascii : char.toNat < 128) :
    isNameStart char = (char.isAlpha || char == '_') := by
  rw [isNameStart, isLetter_ascii hascii]

theorem isNameChar_ascii {char : Char} (hascii : char.toNat < 128) :
    isNameChar char = (char.isAlpha || char.isDigit || char == '_') := by
  rw [isNameChar, isLetter_ascii hascii, isNumeral_ascii hascii]

theorem not_isDigit_of_isNameStart {char : Char} (hstart : isNameStart char) :
    char.isDigit = false := by
  by_contra hdigit
  rw [Bool.not_eq_false, isDigit_iff] at hdigit
  rw [isNameStart_ascii (by omega), Bool.or_eq_true, isAlpha_iff, beq_iff_eq] at hstart
  rcases hstart with hstart | rfl
  · omega
  · revert hdigit
    decide

theorem not_isQuote_of_isNameStart {char : Char} (hstart : isNameStart char) :
    isQuote char = false := by
  by_contra hquote
  rw [Bool.not_eq_false, isQuote, Bool.or_eq_true, beq_iff_eq, beq_iff_eq] at hquote
  rcases hquote with rfl | rfl <;> rw [isNameStart_ascii (by decide)] at hstart <;>
    exact absurd hstart (by decide)

theorem not_isBlank_of_isNameStart {char : Char} (hstart : isNameStart char) :
    isBlank char = false := by
  by_contra hblank
  rw [Bool.not_eq_false] at hblank
  rw [isNameStart, not_isLetter_of_isBlank hblank, Bool.false_or, beq_iff_eq] at hstart
  subst hstart
  exact absurd hblank (by decide)

/-- A name is read wherever one can start. -/
theorem read_of_isNameStart {afterDot : Bool} {first : Char} {rest : List Char}
    (hstart : isNameStart first) : read afterDot first rest = .ok (name first rest) := by
  unfold read
  rw [if_neg (by simp [not_isDigit_of_isNameStart hstart]),
    if_neg (by simp [not_isQuote_of_isNameStart hstart]), if_pos hstart]

/-- A number is read wherever a digit stands. -/
theorem read_of_isDigit {afterDot : Bool} {first : Char} {rest : List Char}
    (hdigit : first.isDigit) : read afterDot first rest = .ok (number afterDot first rest) := by
  rw [read, if_pos hdigit]

/-- A quote is no digit, is not blank, and is not the character that escapes it. -/
theorem plain_of_isQuote {char : Char} (hquote : isQuote char) :
    char.isDigit = false ∧ isBlank char = false ∧ char ≠ '\\' := by
  rw [isQuote, Bool.or_eq_true, beq_iff_eq, beq_iff_eq] at hquote
  rcases hquote with rfl | rfl <;> decide

/-- A string is read wherever a quote has its counterpart. -/
theorem read_of_isQuote {afterDot : Bool} {first : Char} {rest tail : List Char}
    (hquote : isQuote first) (htail : stringTail? first rest = some tail) :
    read afterDot first rest = .ok ⟨.string, first :: tail⟩ := by
  simp [read, (plain_of_isQuote hquote).1, hquote, htail]

/-- A character that starts no name, no number and no string starts a mark. -/
theorem read_symbol {afterDot : Bool} {first : Char} {rest : List Char} {lexeme : Lexeme}
    (hascii : first.toNat < 128)
    (hplain : (first.isDigit || isQuote first || first.isAlpha || first == '_') = false)
    (hsymbol : symbol? (first :: rest) = some lexeme) : read afterDot first rest = .ok lexeme := by
  simp only [Bool.or_eq_false_iff] at hplain
  obtain ⟨⟨⟨hdigit, hquote⟩, halpha⟩, hline⟩ := hplain
  unfold read
  rw [if_neg (by simp [hdigit]), if_neg (by simp [hquote]),
    if_neg (by simp [isNameStart_ascii hascii, halpha, hline]), hsymbol]

end Lexeme

end Stencil
