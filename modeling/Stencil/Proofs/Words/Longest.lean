import Stencil.Proofs.Words.Breaks

/-!
# The longest word at a place

The language of the words of an expression, and the proof that the recognisers read the longest word
that starts at a place.  A whole number is a proper part of many longer numbers, and some marks are
parts of others; every other word is the only one of its kind at its place.
-/

namespace Stencil

namespace Lexeme

/-! ## The words of an expression -/

/-- At least one digit, and nothing else. -/
def IsDigits (chars : List Char) : Prop :=
  chars ≠ [] ∧ ∀ char ∈ chars, char.isDigit

/-- The fraction of a number, if it has one. -/
inductive IsFraction : List Char → Prop where
  | absent : IsFraction []
  | point {digits} : IsDigits digits → IsFraction ('.' :: digits)

/-- The exponent of a number, if it has one. -/
inductive IsExponent : List Char → Prop where
  | absent : IsExponent []
  | plain {mark digits} : mark ∈ ['e', 'E'] → IsDigits digits → IsExponent (mark :: digits)
  | signed {mark sign digits} : mark ∈ ['e', 'E'] → sign ∈ ['+', '-'] → IsDigits digits →
      IsExponent (mark :: sign :: digits)

/-- What may stand between two quotes: a backslash protects the character behind it. -/
inductive IsQuotable (quote : Char) : List Char → Prop where
  | nil : IsQuotable quote []
  | plain {char chars} : char ≠ quote → char ≠ '\\' → IsQuotable quote chars →
      IsQuotable quote (char :: chars)
  | escape {char chars} : IsQuotable quote chars → IsQuotable quote ('\\' :: char :: chars)

/-- The words of an expression with their kinds.  Right behind a dot a number has only digits. -/
inductive Spells (afterDot : Bool) : Kind → List Char → Prop where
  | name {first tail} : isNameStart first → (∀ char ∈ tail, isNameChar char) →
      Spells afterDot .name (first :: tail)
  | integer {digits} : IsDigits digits → Spells afterDot .integer digits
  | float {digits fraction exponent} : afterDot = false → IsDigits digits → IsFraction fraction →
      IsExponent exponent → fraction ++ exponent ≠ [] →
      Spells afterDot .float (digits ++ (fraction ++ exponent))
  | string {quote body} : isQuote quote → IsQuotable quote body →
      Spells afterDot .string (quote :: (body ++ [quote]))
  | symbol {kind text} : kind.symbol? = some text → kind ∉ [.variableBegin, .variableEnd] →
      Spells afterDot kind text.toList

/-- The longest word at the start of a text. -/
structure IsLongest (afterDot : Bool) (chars : List Char) (lexeme : Lexeme) : Prop where
  spells : Spells afterDot lexeme.kind lexeme.source
  isPrefix : lexeme.source <+: chars
  longest : ∀ kind source, Spells afterDot kind source → source <+: chars →
    source.length ≤ lexeme.source.length

/-- No word starts at the start of a text. -/
def NoneStarts (afterDot : Bool) (chars : List Char) : Prop :=
  ∀ kind source, Spells afterDot kind source → ¬ source <+: chars

variable {afterDot : Bool} {first : Char} {rest more chars : List Char} {kind : Kind}

/-! ## Runs of characters -/

theorem isPrefix_takeWhile {p : Char → Bool} (hbegins : chars <+: rest)
    (hchars : ∀ char ∈ chars, p char) : chars <+: rest.takeWhile p := by
  obtain ⟨more, rfl⟩ := hbegins
  rw [List.takeWhile_append_of_pos hchars]
  exact List.prefix_append _ _

theorem takeWhile_append_eq_left {p : Char → Bool} (hchars : ∀ char ∈ chars, p char)
    (hmore : ∀ char ∈ more.head?, p char = false) : (chars ++ more).takeWhile p = chars := by
  rw [takeWhile_append_of_head chars hmore, List.takeWhile_eq_self_iff.2 hchars]

theorem isDigits_cons_takeWhile (hdigit : first.isDigit) :
    IsDigits (first :: rest.takeWhile Char.isDigit) :=
  ⟨List.cons_ne_nil _ _,
    List.forall_mem_cons.2 ⟨hdigit, fun _ hmem => List.mem_takeWhile_imp hmem⟩⟩

/-! ## Fractions -/

theorem isFraction_fractionPart (chars : List Char) : IsFraction (fractionPart chars) := by
  fun_cases fractionPart chars with
  | case1 digit rest hdigit => exact .point (isDigits_cons_takeWhile hdigit)
  | case2 | case3 => exact .absent

theorem fractionPart_point {digits : List Char} (hdigits : IsDigits digits) :
    fractionPart ('.' :: (digits ++ more)) = '.' :: (digits ++ more).takeWhile Char.isDigit := by
  obtain ⟨hne, hall⟩ := hdigits
  obtain ⟨digit, tail, rfl⟩ := List.exists_cons_of_ne_nil hne
  have hdigit : digit.isDigit := hall digit List.mem_cons_self
  rw [List.cons_append, fractionPart, if_pos hdigit, List.takeWhile_cons_of_pos hdigit]

theorem IsFraction.isPrefix_fractionPart {fraction : List Char} (hfraction : IsFraction fraction) :
    fraction <+: fractionPart (fraction ++ more) := by
  cases hfraction with
  | absent => exact List.nil_prefix
  | point hdigits =>
    rw [List.cons_append, fractionPart_point hdigits]
    exact (List.prefix_cons_inj _).2 (isPrefix_takeWhile (List.prefix_append _ _) hdigits.2)

/-- A fraction is read completely if neither a digit nor another point follows. -/
theorem IsFraction.fractionPart_append {fraction : List Char} (hfraction : IsFraction fraction)
    (hdigit : ∀ char ∈ more.head?, char.isDigit = false) (hpoint : more.head? ≠ some '.') :
    fractionPart (fraction ++ more) = fraction := by
  cases hfraction with
  | absent => exact Lexeme.fractionPart_append hdigit fun _ => hpoint
  | point hdigits =>
    rw [List.cons_append, fractionPart_point hdigits, takeWhile_append_eq_left hdigits.2 hdigit]

/-! ## Exponents -/

theorem exponentDigits_digits {digits : List Char} (hdigits : IsDigits digits) :
    exponentDigits (digits ++ more) = (digits ++ more).takeWhile Char.isDigit := by
  obtain ⟨hne, hall⟩ := hdigits
  obtain ⟨digit, tail, rfl⟩ := List.exists_cons_of_ne_nil hne
  have hdigit : digit.isDigit := hall digit List.mem_cons_self
  rw [List.cons_append, List.takeWhile_cons_of_pos hdigit]
  simp only [exponentDigits, hdigit, if_true]

theorem exponentDigits_signed {sign : Char} {digits : List Char} (hsign : sign ∈ ['+', '-'])
    (hdigits : IsDigits digits) :
    exponentDigits (sign :: (digits ++ more)) =
      sign :: (digits ++ more).takeWhile Char.isDigit := by
  obtain ⟨hne, hall⟩ := hdigits
  obtain ⟨digit, tail, rfl⟩ := List.exists_cons_of_ne_nil hne
  have hdigit : digit.isDigit := hall digit List.mem_cons_self
  have hsign : sign = '+' ∨ sign = '-' := by simpa using hsign
  have hnot : sign.isDigit = false := by rcases hsign with rfl | rfl <;> decide
  rw [List.cons_append, List.takeWhile_cons_of_pos hdigit]
  simp only [exponentDigits, hnot, hsign, hdigit, if_true, Bool.false_eq_true, if_false]

theorem exponentPart_mark {mark : Char} {digits : List Char} (hmark : mark ∈ ['e', 'E'])
    (hdigits : exponentDigits chars = digits) (hne : digits ≠ []) :
    exponentPart (mark :: chars) = mark :: digits := by
  have hmark : mark = 'e' ∨ mark = 'E' := by simpa using hmark
  obtain ⟨digit, tail, rfl⟩ := List.exists_cons_of_ne_nil hne
  rw [exponentPart, if_pos hmark, hdigits]

theorem isExponent_cons_exponentDigits {mark : Char} (hmark : mark ∈ ['e', 'E'])
    (hne : exponentDigits chars ≠ []) : IsExponent (mark :: exponentDigits chars) := by
  revert hne
  fun_cases exponentDigits chars with
  | case2 first rest hdigit => exact fun _ => .plain hmark (isDigits_cons_takeWhile hdigit)
  | case4 sign _ hsign digit rest hdigit =>
    exact fun _ => .signed hmark (by simpa using hsign) (isDigits_cons_takeWhile hdigit)
  | case1 | case3 | case5 | case6 => exact absurd rfl

theorem isExponent_exponentPart (chars : List Char) : IsExponent (exponentPart chars) := by
  fun_cases exponentPart chars with
  | case3 mark rest hmark hne =>
    exact isExponent_cons_exponentDigits (by simpa using hmark) hne
  | case1 | case2 | case4 => exact .absent

theorem IsExponent.isPrefix_exponentPart {exponent : List Char} (hexponent : IsExponent exponent) :
    exponent <+: exponentPart (exponent ++ more) := by
  cases hexponent with
  | absent => exact List.nil_prefix
  | @plain mark digits hmark hdigits =>
    have hrun : digits <+: (digits ++ more).takeWhile Char.isDigit :=
      isPrefix_takeWhile (List.prefix_append _ _) hdigits.2
    rw [List.cons_append, exponentPart_mark hmark (exponentDigits_digits hdigits)]
    · exact (List.prefix_cons_inj _).2 hrun
    · exact fun hnil => hdigits.1 (List.prefix_nil.1 (hnil ▸ hrun))
  | @signed mark sign digits hmark hsign hdigits =>
    have hrun : digits <+: (digits ++ more).takeWhile Char.isDigit :=
      isPrefix_takeWhile (List.prefix_append _ _) hdigits.2
    rw [List.cons_append, List.cons_append,
      exponentPart_mark hmark (exponentDigits_signed hsign hdigits) (List.cons_ne_nil _ _)]
    exact (List.prefix_cons_inj _).2 ((List.prefix_cons_inj _).2 hrun)

/-! ## Numbers -/

theorem IsDigits.exists_cons {digits : List Char} (hdigits : IsDigits digits) :
    ∃ first tail, digits = first :: tail ∧ first.isDigit ∧ ∀ char ∈ tail, char.isDigit := by
  obtain ⟨hne, hall⟩ := hdigits
  obtain ⟨first, tail, rfl⟩ := List.exists_cons_of_ne_nil hne
  exact ⟨first, tail, rfl, List.forall_mem_cons.1 hall⟩

theorem IsExponent.head_eq {exponent : List Char} (hexponent : IsExponent exponent) :
    ∀ char ∈ exponent.head?, char = 'e' ∨ char = 'E' := by
  cases hexponent with
  | absent => simp
  | plain hmark _ => simpa using hmark
  | signed hmark _ _ => simpa using hmark

theorem IsFraction.head_eq {fraction : List Char} (hfraction : IsFraction fraction) :
    ∀ char ∈ fraction.head?, char = '.' := by
  cases hfraction <;> simp

/-- Neither a fraction nor an exponent starts with a digit. -/
theorem isDigit_head_part {fraction exponent : List Char} (hfraction : IsFraction fraction)
    (hexponent : IsExponent exponent) :
    ∀ char ∈ (fraction ++ exponent).head?, char.isDigit = false := by
  intro char hchar
  rw [List.head?_append] at hchar
  cases hhead : fraction.head? with
  | some point =>
    rw [hhead] at hchar
    cases hchar
    rw [hfraction.head_eq char hhead]
    rfl
  | none =>
    rw [hhead] at hchar
    rcases hexponent.head_eq char hchar with rfl | rfl <;> rfl

/-- The fraction and the exponent at the start of a text. -/
def numberParts (chars : List Char) : List Char :=
  fractionPart chars ++ exponentPart (chars.drop (fractionPart chars).length)

theorem isDigit_head_numberParts (chars : List Char) :
    ∀ char ∈ (numberParts chars).head?, char.isDigit = false :=
  isDigit_head_part (isFraction_fractionPart _) (isExponent_exponentPart _)

/-- What is read of a fraction and an exponent has at least the parts that are there. -/
theorem isPrefix_numberParts {fraction exponent : List Char} (hfraction : IsFraction fraction)
    (hexponent : IsExponent exponent) :
    fraction ++ exponent <+: numberParts (fraction ++ (exponent ++ more)) := by
  rw [numberParts]
  cases exponent with
  | nil =>
    rw [List.append_nil, List.nil_append]
    exact hfraction.isPrefix_fractionPart.trans (List.prefix_append _ _)
  | cons mark digits =>
    have hmark := hexponent.head_eq mark rfl
    have hread : fractionPart (fraction ++ (mark :: digits ++ more)) = fraction := by
      refine hfraction.fractionPart_append (fun char hchar => ?_) ?_
      · cases hchar
        rcases hmark with rfl | rfl <;> rfl
      · rcases hmark with rfl | rfl <;> simp
    rw [hread, List.drop_left]
    exact (List.prefix_append_right_inj _).2 hexponent.isPrefix_exponentPart

theorem number_false :
    number false first rest =
      ⟨if numberParts (rest.drop (rest.takeWhile Char.isDigit).length) = [] then .integer
        else .float,
        first :: (rest.takeWhile Char.isDigit ++
          numberParts (rest.drop (rest.takeWhile Char.isDigit).length))⟩ := by
  simp [number, numberParts]

theorem spells_number (hdigit : first.isDigit) :
    Spells afterDot (number afterDot first rest).kind (number afterDot first rest).source := by
  have hdigits : IsDigits (first :: rest.takeWhile Char.isDigit) := isDigits_cons_takeWhile hdigit
  cases afterDot with
  | true => exact .integer hdigits
  | false =>
    rw [number_false]
    split
    · next hnone =>
      rw [hnone, List.append_nil]
      exact .integer hdigits
    · next hparts =>
      exact .float rfl hdigits (isFraction_fractionPart _) (isExponent_exponentPart _) hparts

/-- A whole number is a part of the number that is read, and is all of it only if that is whole. -/
theorem number_of_isDigits (hdigits : IsDigits (first :: chars)) (hbegins : chars <+: rest) :
    first :: chars <+: (number afterDot first rest).source ∧
      ((number afterDot first rest).source = first :: chars →
        (number afterDot first rest).kind = .integer) := by
  have hall : ∀ char ∈ chars, char.isDigit := (List.forall_mem_cons.1 hdigits.2).2
  have hrun := isPrefix_takeWhile hbegins hall
  cases afterDot with
  | true => exact ⟨(List.prefix_cons_inj _).2 hrun, fun _ => rfl⟩
  | false =>
    rw [number_false]
    refine ⟨(List.prefix_cons_inj _).2 (hrun.trans (List.prefix_append _ _)), fun hsame => ?_⟩
    have hhead := isDigit_head_numberParts (rest.drop (rest.takeWhile Char.isDigit).length)
    generalize numberParts (rest.drop (rest.takeWhile Char.isDigit).length) = parts at *
    cases parts with
    | nil => rfl
    | cons mark parts =>
      have hmem : mark ∈ chars := by
        rw [← List.tail_eq_of_cons_eq hsame]
        simp
      exact absurd (hall mark hmem) (by simp [hhead mark rfl])

/-- A number with a fraction or an exponent is a part of the number that is read. -/
theorem number_of_parts {fraction exponent : List Char} (hdigits : IsDigits (first :: chars))
    (hfraction : IsFraction fraction) (hexponent : IsExponent exponent)
    (hparts : fraction ++ exponent ≠ []) (hbegins : chars ++ (fraction ++ exponent) <+: rest) :
    first :: (chars ++ (fraction ++ exponent)) <+: (number false first rest).source ∧
      (number false first rest).kind = .float := by
  obtain ⟨more, rfl⟩ := hbegins
  have hall : ∀ char ∈ chars, char.isDigit := (List.forall_mem_cons.1 hdigits.2).2
  have hhead : ∀ char ∈ (fraction ++ (exponent ++ more)).head?, char.isDigit = false := by
    intro char hchar
    refine isDigit_head_part hfraction hexponent char ?_
    rw [← List.append_assoc, List.head?_append_of_ne_nil _ hparts] at hchar
    exact hchar
  have hrun : ((chars ++ (fraction ++ exponent)) ++ more).takeWhile Char.isDigit = chars := by
    rw [List.append_assoc, List.append_assoc]
    exact takeWhile_append_eq_left hall hhead
  have hread : fraction ++ exponent <+: numberParts (fraction ++ (exponent ++ more)) :=
    isPrefix_numberParts hfraction hexponent
  have hbehind : ((chars ++ (fraction ++ exponent)) ++ more).drop chars.length =
      fraction ++ (exponent ++ more) := by
    rw [List.append_assoc, List.drop_left, List.append_assoc]
  rw [number_false, hrun, hbehind]
  refine ⟨(List.prefix_cons_inj _).2 ((List.prefix_append_right_inj _).2 hread), if_neg ?_⟩
  exact fun hnil => hparts (List.prefix_nil.1 (hnil ▸ hread))

/-! ## Strings -/

theorem stringTail?_of_isQuotable {quote : Char} {body : List Char} (hquote : quote ≠ '\\')
    (hbody : IsQuotable quote body) :
    stringTail? quote (body ++ (quote :: more)) = some (body ++ [quote]) := by
  induction hbody with
  | nil => rw [List.nil_append, stringTail?_cons hquote, if_pos rfl, List.nil_append]
  | @plain char chars hne hplain _ ih =>
    rw [List.cons_append, stringTail?_cons hplain, if_neg hne, ih]
    rfl
  | @escape char chars _ ih =>
    rw [List.cons_append, List.cons_append, stringTail?, ih]
    rfl

theorem isQuotable_of_stringTail? {quote : Char} {tail : List Char}
    (htail : stringTail? quote chars = some tail) :
    ∃ body, tail = body ++ [quote] ∧ IsQuotable quote body := by
  fun_induction stringTail? quote chars generalizing tail with
  | case1 => cases htail
  | case2 char rest ih =>
    obtain ⟨inner, hinner, rfl⟩ := Option.map_eq_some_iff.1 htail
    obtain ⟨body, rfl, hbody⟩ := ih hinner
    exact ⟨_, rfl, .escape hbody⟩
  | case3 rest _ =>
    cases htail
    exact ⟨[], rfl, .nil⟩
  | case4 char rest hescape hne ih =>
    obtain ⟨inner, hinner, rfl⟩ := Option.map_eq_some_iff.1 htail
    obtain ⟨body, rfl, hbody⟩ := ih hinner
    have hplain : char ≠ '\\' := by
      rintro rfl
      cases rest with
      | nil => cases hinner
      | cons next rest => exact hescape next rest rfl rfl
    exact ⟨_, rfl, .plain hne hplain hbody⟩

/-! ## Symbols -/

theorem mem_symbolKinds_iff :
    kind ∈ symbolKinds ↔
      (∃ text, kind.symbol? = some text) ∧ kind ∉ [Kind.variableBegin, .variableEnd] := by
  cases kind <;> simp [symbolKinds, Kind.symbol?]

/-- Among the spellings that start a text, the one that is found is a longest one. -/
theorem symbol?_of_isPrefix (hmem : kind ∈ symbolKinds) (hbegins : symbolChars kind <+: chars) :
    ∃ lexeme, symbol? chars = some lexeme ∧ symbolChars kind <+: lexeme.source ∧
      (lexeme.source = symbolChars kind → lexeme.kind = kind) := by
  have hsorted : symbolKinds.Pairwise fun kind later =>
      (symbolChars later).length ≤ (symbolChars kind).length := by
    decide
  have hinjective : ∀ kind ∈ symbolKinds, ∀ other ∈ symbolKinds,
      symbolChars kind = symbolChars other → kind = other := by
    decide
  cases hfind : symbolKinds.find? fun other => (symbolChars other).isPrefixOf chars with
  | none =>
    have hnone := List.find?_eq_none.1 hfind kind hmem
    exact absurd (List.isPrefixOf_iff_prefix.2 hbegins) hnone
  | some found =>
    obtain ⟨hfound, before, behind, hsplit, hbefore⟩ := List.find?_eq_some_iff_append.1 hfind
    have hfound : symbolChars found <+: chars := List.isPrefixOf_iff_prefix.1 hfound
    have hlength : (symbolChars kind).length ≤ (symbolChars found).length := by
      rw [hsplit, List.mem_append, List.mem_cons] at hmem
      rw [hsplit] at hsorted
      rcases hmem with hearlier | rfl | hlater
      · have hskipped := hbefore kind hearlier
        rw [List.isPrefixOf_iff_prefix.2 hbegins] at hskipped
        cases hskipped
      · exact le_rfl
      · exact (List.pairwise_cons.1 (List.pairwise_append.1 hsorted).2.1).1 kind hlater
    refine ⟨_, by rw [symbol?, hfind]; rfl, List.prefix_of_prefix_length_le hbegins hfound hlength,
      fun hsame => ?_⟩
    exact hinjective found (List.mem_of_find?_eq_some hfind) kind hmem hsame

/-- The first character of a mark starts no other word. -/
theorem read_of_symbol {lexeme : Lexeme} (hmem : kind ∈ symbolKinds)
    (hbegins : symbolChars kind <+: first :: rest)
    (hsymbol : symbol? (first :: rest) = some lexeme) :
    read afterDot first rest = .ok lexeme := by
  have hplain : (symbolKinds.all fun kind => (symbolChars kind).all fun char =>
      decide (char.toNat < 128) &&
        !(char.isDigit || isQuote char || char.isAlpha || char == '_')) = true := by
    decide
  obtain ⟨char, tail, hchars⟩ := List.exists_cons_of_ne_nil (symbolChars_ne_nil hmem)
  obtain ⟨rfl, -⟩ := List.cons_prefix_cons.1 (hchars ▸ hbegins)
  have hchar := List.all_eq_true.1 (List.all_eq_true.1 hplain kind hmem) char (by simp [hchars])
  rw [Bool.and_eq_true, decide_eq_true_eq, Bool.not_eq_true'] at hchar
  exact read_symbol hchar.1 hchar.2 hsymbol

/-! ## Reading -/

/-- What is read is a word. -/
theorem spells_of_read {lexeme : Lexeme} (hread : read afterDot first rest = .ok lexeme) :
    Spells afterDot lexeme.kind lexeme.source := by
  rcases read_cases hread with ⟨hdigit, rfl⟩ | ⟨hquote, tail, htail, rfl⟩ | ⟨hstart, rfl⟩ |
    ⟨-, hsymbol⟩
  · exact spells_number hdigit
  · obtain ⟨body, rfl, hbody⟩ := isQuotable_of_stringTail? htail
    exact .string hquote hbody
  · exact .name hstart fun _ hmem => List.mem_takeWhile_imp hmem
  · obtain ⟨hmem, hsource, -⟩ := exists_of_symbol? hsymbol
    obtain ⟨⟨text, htext⟩, hdelimiter⟩ := mem_symbolKinds_iff.1 hmem
    have hchars : symbolChars lexeme.kind = text.toList := by rw [symbolChars, htext]; rfl
    rw [hsource, hchars]
    exact .symbol htext hdelimiter

/-- Where a word starts something is read, and the word is a part of it. -/
theorem exists_read_of_spells {source : List Char} (hspells : Spells afterDot kind source)
    (hbegins : source <+: first :: rest) :
    ∃ lexeme, read afterDot first rest = .ok lexeme ∧ source <+: lexeme.source ∧
      (lexeme.source = source → lexeme.kind = kind) := by
  cases hspells with
  | name hstart htail =>
    obtain ⟨rfl, htail'⟩ := List.cons_prefix_cons.1 hbegins
    refine ⟨_, read_of_isNameStart hstart, ?_, fun _ => rfl⟩
    exact (List.prefix_cons_inj _).2 (isPrefix_takeWhile htail' htail)
  | integer hdigits =>
    obtain ⟨digit, tail, rfl, hdigit, -⟩ := hdigits.exists_cons
    obtain ⟨rfl, htail⟩ := List.cons_prefix_cons.1 hbegins
    exact ⟨_, read_of_isDigit hdigit, number_of_isDigits hdigits htail⟩
  | float hafter hdigits hfraction hexponent hparts =>
    subst hafter
    obtain ⟨digit, tail, rfl, hdigit, -⟩ := hdigits.exists_cons
    obtain ⟨rfl, htail⟩ := List.cons_prefix_cons.1 hbegins
    obtain ⟨hsource, hkind⟩ := number_of_parts hdigits hfraction hexponent hparts htail
    exact ⟨_, read_of_isDigit hdigit, hsource, fun _ => hkind⟩
  | string hquote hbody =>
    obtain ⟨rfl, more, rfl⟩ := List.cons_prefix_cons.1 hbegins
    have hplain := (plain_of_isQuote hquote).2.2
    rw [List.append_assoc]
    exact ⟨_, read_of_isQuote hquote (stringTail?_of_isQuotable hplain hbody),
      List.prefix_refl _, fun _ => rfl⟩
  | @symbol _ text htext hdelimiter =>
    have hmem : kind ∈ symbolKinds := mem_symbolKinds_iff.2 ⟨⟨text, htext⟩, hdelimiter⟩
    have hchars : symbolChars kind = text.toList := by rw [symbolChars, htext]; rfl
    rw [← hchars] at hbegins ⊢
    obtain ⟨lexeme, hsymbol, hlonger, hkind⟩ := symbol?_of_isPrefix hmem hbegins
    exact ⟨lexeme, read_of_symbol hmem hbegins hsymbol, hlonger, hkind⟩

/-- What is read is the longest word. -/
theorem read_eq_ok_iff {lexeme : Lexeme} :
    read afterDot first rest = .ok lexeme ↔ IsLongest afterDot (first :: rest) lexeme := by
  constructor
  · intro hread
    obtain ⟨tail, hsource, htail⟩ := source_of_read hread
    refine ⟨spells_of_read hread, ?_, fun kind source hspells hbegins => ?_⟩
    · rw [hsource]
      exact (List.prefix_cons_inj _).2 htail
    · obtain ⟨lexeme', hread', hlonger, -⟩ := exists_read_of_spells hspells hbegins
      rw [hread] at hread'
      cases hread'
      exact hlonger.length_le
  · rintro ⟨hspells, hbegins, hlongest⟩
    obtain ⟨lexeme', hread, hlonger, hkind⟩ := exists_read_of_spells hspells hbegins
    obtain ⟨tail, hsource, htail⟩ := source_of_read hread
    have hshorter := hlongest _ _ (spells_of_read hread)
      (hsource ▸ (List.prefix_cons_inj _).2 htail)
    have hsame : lexeme.source = lexeme'.source := hlonger.eq_of_length_le hshorter
    rw [hread]
    exact congrArg Except.ok (congrArg₂ Lexeme.mk (hkind hsame.symm) hsame.symm)

theorem fault_of_read {fault : ScanFault} (hread : read afterDot first rest = .error fault) :
    fault = if isQuote first then .unterminatedString else .unexpectedCharacter first := by
  unfold read at hread
  split at hread
  · cases hread
  · split at hread
    · next hquote =>
      rw [if_pos hquote]
      split at hread <;> cases hread
      rfl
    · next hquote =>
      rw [if_neg hquote]
      split at hread
      · cases hread
      · split at hread <;> cases hread
        rfl

/-- Nothing is read exactly where no word starts. -/
theorem read_eq_error_iff {fault : ScanFault} :
    read afterDot first rest = .error fault ↔ NoneStarts afterDot (first :: rest) ∧
      fault = if isQuote first then .unterminatedString else .unexpectedCharacter first := by
  constructor
  · intro hread
    refine ⟨fun kind source hspells hbegins => ?_, fault_of_read hread⟩
    obtain ⟨lexeme, hread', -⟩ := exists_read_of_spells hspells hbegins
    rw [hread] at hread'
    cases hread'
  · rintro ⟨hnone, rfl⟩
    cases hread : read afterDot first rest with
    | ok lexeme =>
      obtain ⟨hspells, hbegins, -⟩ := read_eq_ok_iff.1 hread
      exact absurd hbegins (hnone _ _ hspells)
    | error fault => rw [fault_of_read hread]

end Lexeme

end Stencil
