import Stencil.Proofs.Words.Ends

/-!
# Breaks between words

Behind blank characters, brackets and most punctuation marks no word goes on, whatever it is.  A
word that is read from a text is so read from its own characters alone, and from every other text
that breaks off behind them.
-/

namespace Stencil

namespace Lexeme

/-- The marks behind which the longer of two words may have to be read. -/
def joints : List Char :=
  ['.', '+', '-', '=', '/', '*']

/-- No word goes on with the first character of the text. -/
def Breaks (more : List Char) : Prop :=
  ∀ char ∈ more.head?, isNameChar char = false ∧ char ∉ joints

variable {afterDot : Bool} {first : Char} {tail rest more : List Char} {lexeme : Lexeme}

theorem breaks_nil : Breaks [] := by
  simp [Breaks]

theorem breaks_of_isBlank {char : Char} (hblank : Text.isBlank char) : Breaks (char :: more) := by
  intro head hhead
  cases hhead
  have hapart : (('_' :: joints).all fun char => !Text.isBlank char) = true := by decide
  have hmem : char ∉ '_' :: joints := by
    intro hmem
    have hfalse := List.all_eq_true.1 hapart char hmem
    rw [hblank] at hfalse
    cases hfalse
  obtain ⟨hline, hjoints⟩ := not_or.1 (mt List.mem_cons.2 hmem)
  refine ⟨?_, hjoints⟩
  simp [isNameChar, Text.not_isLetter_of_isBlank hblank, Text.not_isNumeral_of_isBlank hblank,
    hline]

theorem breaks_of_delimiters (hmore : ∀ char ∈ more.head?, char ∈ delimiters) : Breaks more := by
  intro char hchar
  have hends : EndsBefore .name more := fun char hchar => .inl (hmore char hchar)
  have hapart : (delimiters.all fun char => decide (char ∉ joints)) = true := by decide
  exact ⟨hends.isNameChar_head char hchar,
    of_decide_eq_true (List.all_eq_true.1 hapart char (hmore char hchar))⟩

theorem Breaks.isDigit_head (hbreaks : Breaks more) :
    ∀ char ∈ more.head?, char.isDigit = false := by
  intro char hchar
  by_contra hdigit
  rw [Bool.not_eq_false] at hdigit
  have hname := (hbreaks char hchar).1
  simp [isNameChar, Text.isNumeral_of_isDigit hdigit] at hname

theorem Breaks.head_ne (hbreaks : Breaks more) {char : Char}
    (hchar : isNameChar char ∨ char ∈ joints) :
    more.head? ≠ some char := by
  intro hhead
  obtain ⟨hname, hjoints⟩ := hbreaks char hhead
  rcases hchar with hchar | hchar
  · rw [hname] at hchar
    cases hchar
  · exact hjoints hchar

/-- No symbol of two characters reaches over a break. -/
theorem Breaks.head_ne_second (hbreaks : Breaks more) :
    ∀ second, (first, second) ∈ longSymbols → more.head? ≠ some second := by
  intro second hmem
  have hall : ∀ pair ∈ longSymbols, pair.2 ∈ joints := by decide
  exact hbreaks.head_ne (.inr (hall _ hmem))

theorem number_append_of_breaks (hbreaks : Breaks more) :
    number afterDot first (rest ++ more) = number afterDot first rest := by
  have hdigit := hbreaks.isDigit_head
  have hwhole : (rest ++ more).takeWhile Char.isDigit = rest.takeWhile Char.isDigit :=
    takeWhile_append_of_head rest hdigit
  have hlength := (List.takeWhile_prefix Char.isDigit (l := rest)).length_le
  have hfraction (chars : List Char) : fractionPart (chars ++ more) = fractionPart chars :=
    fractionPart_append hdigit fun _ => hbreaks.head_ne (.inr (by decide))
  have hmark : ∀ char ∈ ['e', 'E', '+', '-'], more.head? ≠ some char := by
    simp only [List.forall_mem_cons]
    have hletter (char : Char) (halpha : char.isAlpha) : isNameChar char := by
      simp [isNameChar, Text.isLetter_of_isAlpha halpha]
    exact ⟨hbreaks.head_ne (.inl (hletter 'e' rfl)), hbreaks.head_ne (.inl (hletter 'E' rfl)),
      hbreaks.head_ne (.inr (by decide)), hbreaks.head_ne (.inr (by decide)), List.forall_mem_nil _⟩
  have hpower (chars : List Char) : exponentPart (chars ++ more) = exponentPart chars :=
    exponentPart_append hdigit chars hmark
  have hshorter :=
    (fractionPart_isPrefix (rest.drop (rest.takeWhile Char.isDigit).length)).length_le
  simp only [number, hwhole, List.drop_append_of_le_length hlength, hfraction,
    List.drop_append_of_le_length hshorter, hpower]

/-- What stands behind a text makes no difference to a word in it, if no word goes on there. -/
theorem read_append_of_breaks (hread : read afterDot first rest = .ok lexeme)
    (hbreaks : Breaks more) : read afterDot first (rest ++ more) = .ok lexeme := by
  rcases read_cases hread with ⟨hstart, rfl⟩ | ⟨hquote, string, hstring, rfl⟩ | ⟨hstart, rfl⟩ |
    ⟨hplain, hsymbol⟩
  · rw [read_of_isDigit hstart, number_append_of_breaks hbreaks]
  · rw [read_of_isQuote hquote (stringTail?_append (plain_of_isQuote hquote).2.2 hstring)]
  · rw [read_of_isNameStart hstart, name, name,
      takeWhile_append_of_head rest fun char hchar => (hbreaks char hchar).1]
  · simp only [Bool.or_eq_false_iff] at hplain
    simp [read, hplain, symbol?_append hbreaks.head_ne_second, hsymbol]

/-! ## Words by themselves -/

theorem takeWhile_takeWhile_self (p : Char → Bool) (chars : List Char) :
    (chars.takeWhile p).takeWhile p = chars.takeWhile p := by
  rw [List.takeWhile_takeWhile]
  simp

/-- The digits at the start of a text end where something else begins. -/
theorem takeWhile_isDigit_append (chars : List Char)
    (hmore : ∀ char ∈ more.head?, char.isDigit = false) :
    (chars.takeWhile Char.isDigit ++ more).takeWhile Char.isDigit =
      chars.takeWhile Char.isDigit := by
  rw [takeWhile_append_of_head _ hmore, takeWhile_takeWhile_self]

theorem fractionPart_head (chars : List Char) :
    ∀ char ∈ (fractionPart chars).head?, char = '.' := by
  fun_cases fractionPart chars with
  | case1 digit rest hdigit => simp
  | case2 | case3 => simp

theorem fractionPart_fractionPart (chars : List Char)
    (hdigit : ∀ char ∈ more.head?, char.isDigit = false) (hpoint : more.head? ≠ some '.') :
    fractionPart (fractionPart chars ++ more) = fractionPart chars := by
  rw [fractionPart_append hdigit fun _ => hpoint]
  fun_cases fractionPart chars with
  | case1 digit rest hdigit =>
    rw [fractionPart, if_pos hdigit, takeWhile_takeWhile_self]
  | case2 | case3 => rfl

theorem exponentDigits_exponentDigits (chars : List Char) :
    exponentDigits (exponentDigits chars) = exponentDigits chars := by
  fun_cases exponentDigits chars with
  | case2 first rest hdigit =>
    simp only [exponentDigits, hdigit, if_true, takeWhile_takeWhile_self]
  | case4 first hfirst hsign digit rest hdigit =>
    simp only [exponentDigits, hfirst, hsign, hdigit, if_true, takeWhile_takeWhile_self,
      Bool.false_eq_true, if_false]
  | case1 | case3 | case5 | case6 => rfl

theorem exponentPart_head (chars : List Char) :
    ∀ char ∈ (exponentPart chars).head?, char = 'e' ∨ char = 'E' := by
  fun_cases exponentPart chars with
  | case3 mark rest => simp_all
  | case1 | case2 | case4 => simp

theorem exponentPart_exponentPart (chars : List Char) :
    exponentPart (exponentPart chars) = exponentPart chars := by
  fun_cases exponentPart chars with
  | case3 mark rest hmark hsome =>
    rw [exponentPart, if_pos hmark, exponentDigits_exponentDigits]
    split
    · next hnil => exact absurd hnil hsome
    · rfl
  | case1 | case2 | case4 => rfl

/-- A number that is read from a text is read from its own characters. -/
theorem number_alone {kind : Kind} (hnumber : number afterDot first rest = ⟨kind, first :: tail⟩) :
    number afterDot first tail = ⟨kind, first :: tail⟩ := by
  cases afterDot with
  | true =>
    simp only [number, if_true, Lexeme.mk.injEq, List.cons.injEq, true_and] at hnumber ⊢
    obtain ⟨hkind, rfl⟩ := hnumber
    exact ⟨hkind, takeWhile_takeWhile_self _ _⟩
  | false =>
    simp only [number, Bool.false_eq_true, if_false, Lexeme.mk.injEq, List.cons.injEq, true_and]
      at hnumber ⊢
    obtain ⟨hkind, rfl⟩ := hnumber
    generalize rest.drop (rest.takeWhile Char.isDigit).length = afterWhole at hkind ⊢
    generalize afterWhole.drop (fractionPart afterWhole).length = afterFraction at hkind ⊢
    have hpower : ∀ char ∈ (exponentPart afterFraction).head?,
        char.isDigit = false ∧ char ≠ '.' := by
      intro char hchar
      rcases exponentPart_head afterFraction char hchar with rfl | rfl <;> decide
    have hfraction : ∀ char ∈ (fractionPart afterWhole ++ exponentPart afterFraction).head?,
        char.isDigit = false := by
      intro char hchar
      cases hpart : fractionPart afterWhole with
      | nil =>
        rw [hpart, List.nil_append] at hchar
        exact (hpower char hchar).1
      | cons point digits =>
        rw [hpart, List.cons_append, List.head?_cons] at hchar
        have hpoint := fractionPart_head afterWhole point (by rw [hpart]; rfl)
        rw [← Option.mem_some_iff.1 hchar, hpoint]
        rfl
    have hpoint : (exponentPart afterFraction).head? ≠ some '.' :=
      fun hhead => (hpower '.' hhead).2 rfl
    rw [List.append_assoc, takeWhile_isDigit_append _ hfraction, List.drop_left,
      fractionPart_fractionPart _ (fun char hchar => (hpower char hchar).1) hpoint, List.drop_left,
      exponentPart_exponentPart]
    exact ⟨hkind, List.append_assoc _ _ _⟩

theorem stringTail?_alone {quote : Char} (hquote : quote ≠ '\\')
    (htail : stringTail? quote rest = some tail) : stringTail? quote tail = some tail := by
  simpa using stringTail?_tail_append hquote htail []

theorem symbol?_symbolChars {kind : Kind} (hmem : kind ∈ symbolKinds) :
    symbol? (symbolChars kind) = some ⟨kind, symbolChars kind⟩ := by
  revert hmem
  cases kind <;> decide

theorem read_alone {kind : Kind} (hread : read afterDot first rest = .ok ⟨kind, first :: tail⟩) :
    read afterDot first tail = .ok ⟨kind, first :: tail⟩ := by
  rcases read_cases hread with ⟨hstart, hnumber⟩ | ⟨hquote, string, hstring, hsame⟩ |
    ⟨hstart, hname⟩ | ⟨hplain, hsymbol⟩
  · rw [read_of_isDigit hstart, number_alone hnumber.symm]
  · cases hsame
    exact read_of_isQuote hquote (stringTail?_alone (plain_of_isQuote hquote).2.2 hstring)
  · simp only [name, Lexeme.mk.injEq, List.cons.injEq, true_and] at hname
    obtain ⟨rfl, rfl⟩ := hname
    rw [read_of_isNameStart hstart, name, takeWhile_takeWhile_self]
  · obtain ⟨hmem, hsource, -⟩ := exists_of_symbol? hsymbol
    have halone : symbol? (first :: tail) = some ⟨kind, first :: tail⟩ := by
      rw [show first :: tail = symbolChars kind from hsource]
      exact symbol?_symbolChars hmem
    simp only [Bool.or_eq_false_iff] at hplain
    simp [read, hplain, halone]

/-- A word that is read from one text is read from every other in which no word goes on behind
it. -/
theorem read_of_breaks {kind : Kind} (hread : read afterDot first rest = .ok ⟨kind, first :: tail⟩)
    (hbreaks : Breaks more) : read afterDot first (tail ++ more) = .ok ⟨kind, first :: tail⟩ :=
  read_append_of_breaks (read_alone hread) hbreaks

/-- A word that ends before a break does not depend on what stands behind the break. -/
theorem read_of_read_append {kind : Kind}
    (hread : read afterDot first (tail ++ (rest ++ more)) = .ok ⟨kind, first :: tail⟩)
    (hbreaks : Breaks more) : read afterDot first (tail ++ rest) = .ok ⟨kind, first :: tail⟩ := by
  rw [← List.append_assoc] at hread
  rcases read_cases hread with ⟨hstart, hnumber⟩ | ⟨hquote, string, hstring, hsame⟩ |
    ⟨hstart, hname⟩ | ⟨hplain, hsymbol⟩
  · rw [read_of_isDigit hstart, hnumber, number_append_of_breaks hbreaks]
  · cases hsame
    have hplain := (plain_of_isQuote hquote).2.2
    exact read_of_isQuote hquote (stringTail?_append hplain (stringTail?_alone hplain hstring))
  · rw [read_of_isNameStart hstart, hname, name, name,
      takeWhile_append_of_head _ fun char hchar => (hbreaks char hchar).1]
  · rw [symbol?_append hbreaks.head_ne_second] at hsymbol
    simp only [Bool.or_eq_false_iff] at hplain
    simp [read, hplain, hsymbol]

end Lexeme

end Stencil
