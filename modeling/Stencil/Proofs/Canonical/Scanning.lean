import Stencil.Proofs.Canonical.Words
import Stencil.Proofs.Decimal.Floats

/-!
# Canonical text is divided into its words
-/

namespace Stencil

open Lexeme Writer

/-! ## Pieces of text -/

theorem isName_of_letters {text : String} (hne : text.toList ≠ [])
    (hletters : text.toList.all Char.isAlpha) : IsName text := by
  obtain ⟨first, tail, htext⟩ := List.exists_cons_of_ne_nil hne
  rw [htext, List.all_cons, Bool.and_eq_true, List.all_eq_true] at hletters
  have hstart {char : Char} (halpha : char.isAlpha) : isNameStart char := by
    simp [isNameStart, Text.isLetter_of_isAlpha halpha]
  exact ⟨first, tail, htext, hstart hletters.1,
    fun char hmem => isNameChar_of_isNameStart (hstart (hletters.2 char hmem))⟩

theorem isName_not : IsName "not" :=
  isName_of_letters (by decide) rfl

theorem isName_is : IsName "is" :=
  isName_of_letters (by decide) rfl

theorem isName_if : IsName "if" :=
  isName_of_letters (by decide) rfl

theorem isName_else : IsName "else" :=
  isName_of_letters (by decide) rfl

theorem isName_boolText (value : Bool) : IsName (Expr.boolText value) := by
  cases value <;> exact isName_of_letters (by decide) rfl

/-- The symbol of an operator is a word of its kind. -/
theorem isWord_symbol (op : BinaryOp) : IsWord false op.kind op.symbol := by
  cases op with
  | or | and | mem => exact (isName_of_letters (by decide) rfl).isWord
  | _ => exact ⟨_, _, rfl, by decide, read_symbol (by decide) (by decide) rfl⟩

/-- An integer that is not negative is written in digits alone. -/
theorem isWhole_integerText {value : Int64} (hsign : 0 ≤ value.toInt) :
    IsWhole (Decimal.integerText value) := by
  obtain ⟨first, rest, hdigits, hfirst, hrest⟩ := Decimal.toDigits_eq_cons value.toInt.toNat
  exact ⟨first, rest, (Decimal.integerText_toList hsign).trans hdigits, hfirst, hrest⟩

theorem isWhole_toString (value : Nat) : IsWhole (toString value) := by
  obtain ⟨first, rest, hdigits, hfirst, hrest⟩ := Decimal.toDigits_eq_cons value
  exact ⟨first, rest, Nat.toList_repr.trans hdigits, hfirst, hrest⟩

variable {rest : List Char} {words : List Word}

/-- A word with a blank behind it. -/
theorem Divides.spaced {afterDot : Bool} {kind : Kind} {text : String}
    (hword : IsWord afterDot kind text) (hkind : kind ≠ .string)
    (hrest : Divides (kind == .dot) rest words) :
    Divides afterDot (text.toList ++ ' ' :: rest) (⟨kind, text⟩ :: words) :=
  .cons hword hkind (endsBefore_cons (by decide)) hrest.space

/-- A word writes itself, save for the kinds that are scanned in another way. -/
theorem writes_word {kind : Kind} {text : String} (hword : IsWord false kind text)
    (hkind : kind ∉ [Kind.string, .dot, .integer]) : Writes text (word kind text) := by
  intro rest words hfollows hrest
  simp only [List.mem_cons, List.not_mem_nil, or_false, not_or] at hkind
  refine .cons hword hkind.1 (hfollows.endsBefore hkind.2.2) ?_
  have hdot : (kind == Kind.dot) = false := by simpa using hkind.2.1
  rw [hdot]
  exact hrest

/-- The marks that may stand right behind an expression and end its last word. -/
def closingMarks : List Kind :=
  [.comma, .colon, .pipe, .leftParen, .rightParen, .leftBracket, .rightBracket, .rightBrace]

/-- Closing marks are single characters that end every word before them. -/
theorem mem_delimiters_of_closingMarks {mark : Kind} {char : Char} (hmark : mark ∈ closingMarks)
    (hchars : symbolChars mark = [char]) : char ∈ delimiters ∧ mark ∈ soloKinds ∧ mark ≠ .dot := by
  simp only [closingMarks, List.mem_cons, List.not_mem_nil, or_false] at hmark
  rcases hmark with rfl | rfl | rfl | rfl | rfl | rfl | rfl | rfl <;> cases hchars <;> decide

/-- A text with such a mark behind it. -/
theorem Writes.before {text : String} {writer : Writer} (hwrites : Writes text writer)
    (mark : Kind) {char : Char} (hmark : mark ∈ closingMarks) (hchars : symbolChars mark = [char])
    (hrest : Divides false rest words) :
    Divides false (text.toList ++ char :: rest) (writer (Word.symbol mark :: words)) := by
  obtain ⟨hchar, hsolo, hdot⟩ := mem_delimiters_of_closingMarks hmark hchars
  have hsame : (mark == Kind.dot) = false := by simpa using hdot
  exact hwrites (follows_word hchar hdot) (.solo mark hsolo hchars (hsame ▸ hrest))

/-- What is written with commas between is written piece by piece. -/
theorem writes_separated {texts : List String} {writers : List Writer}
    (hwrites : List.Forall₂ Writes texts writers) :
    Writes (Expr.commaSeparated texts) (separated writers) := by
  induction hwrites with
  | nil => exact fun _ _ _ hrest => hrest
  | @cons text writer texts writers hfirst hmore ih =>
    cases hmore with
    | nil =>
      rw [Expr.commaSeparated, String.intercalate_singleton]
      exact hfirst
    | cons hsecond hmore =>
      intro rest words hfollows hrest
      rw [Expr.commaSeparated, String.intercalate_cons_cons]
      simp only [String.toList_append, List.append_assoc]
      refine hfirst.before .comma (by decide) rfl ?_
      exact (ih hfollows hrest).space

/-! ## How canonical text starts -/

/-- A character that ends no run of blanks and joins neither a star nor an equals sign. -/
def StartsPlain (char : Char) : Prop :=
  char ≠ '*' ∧ char ≠ '=' ∧ ¬ Text.isBlank char

theorem startsPlain_of_isDigit {char : Char} (hdigit : char.isDigit) : StartsPlain char := by
  refine ⟨?_, ?_, by simp [Text.not_isBlank_of_isDigit hdigit]⟩
  · rintro rfl
    exact absurd hdigit (by decide)
  · rintro rfl
    exact absurd hdigit (by decide)

/-- What starts a name is neither blank nor a star nor an equals sign. -/
theorem startsPlain_of_isNameStart {char : Char} (hstart : isNameStart char) :
    StartsPlain char := by
  refine ⟨?_, ?_, by simp [not_isBlank_of_isNameStart hstart]⟩
  · rintro rfl
    rw [isNameStart_ascii (by decide)] at hstart
    exact absurd hstart (by decide)
  · rintro rfl
    rw [isNameStart_ascii (by decide)] at hstart
    exact absurd hstart (by decide)

/-- A string starts with one of the two quotes. -/
theorem exists_stringText (value : String) :
    ∃ quote tail, (Expr.stringText value).toList = quote :: tail ∧ quote ∈ ['\'', '"'] := by
  refine ⟨_, _, by rw [Expr.stringText, String.toList_ofList], ?_⟩
  split <;> decide

/-- The text starts with a word, perhaps behind some stars. -/
def Starred (text : List Char) : Prop :=
  ∃ stars first tail, text = List.replicate stars '*' ++ first :: tail ∧ StartsPlain first

theorem starred_cons {first : Char} {tail : List Char} (hplain : StartsPlain first) :
    Starred (first :: tail) :=
  ⟨0, first, tail, rfl, hplain⟩

/-- A spread marker in front may be repeated. -/
theorem Starred.star {text : List Char} (hstarred : Starred text) : Starred ('*' :: text) := by
  obtain ⟨stars, first, tail, rfl, hplain⟩ := hstarred
  exact ⟨stars + 1, first, tail, rfl, hplain⟩

theorem Starred.append {text : List Char} (hstarred : Starred text) (more : List Char) :
    Starred (text ++ more) := by
  obtain ⟨stars, first, tail, rfl, hplain⟩ := hstarred
  exact ⟨stars, first, tail ++ more, by simp, hplain⟩

/-- Behind the markers comes something that is not blank. -/
theorem Starred.dropWhile {text : List Char} (hstarred : Starred text) :
    ∀ char ∈ (text.dropWhile fun char => char == '*').head?, ¬ Text.isBlank char := by
  obtain ⟨stars, first, tail, rfl, hplain⟩ := hstarred
  have hdrop : ((List.replicate stars '*' ++ first :: tail).dropWhile fun char => char == '*') =
      first :: tail := by
    induction stars with
    | zero => simp [hplain.1]
    | succ stars ih => simpa [List.replicate_succ] using ih
  rw [hdrop]
  rintro _ ⟨⟩
  exact hplain.2.2

/-- No canonical text starts with an equals sign, which would prolong the operator before it. -/
theorem Starred.head_ne {text : List Char} (hstarred : Starred text) : text.head? ≠ some '=' := by
  obtain ⟨stars, first, tail, rfl, hplain⟩ := hstarred
  cases stars with
  | zero => simpa using hplain.2.1
  | succ stars => simp [List.replicate_succ]

namespace Expr

variable {Mark : Type}

/-- Parentheses around a subject start it plainly. -/
theorem starred_subjectText {subject : Expr Mark} (hstarred : Starred subject.canonical.toList) :
    Starred (subjectText subject subject.canonical).toList := by
  unfold subjectText
  split
  · simp only [String.toList_append, List.append_assoc]
    exact starred_cons ⟨by decide, by decide, by decide⟩
  · exact hstarred

/-- Canonical text starts with markers and then plainly, whatever the form of the tree. -/
theorem starred_canonical {expr : Expr Mark} (hwritable : expr.Everywhere Writable) :
    Starred expr.canonical.toList := by
  induction hwritable with
  | @node expr hnode _ ih =>
  cases expr with
  | integer _ value =>
    obtain ⟨first, tail, htext, hfirst, -⟩ := isWhole_integerText hnode
    rw [canonical, htext]
    exact starred_cons (startsPlain_of_isDigit hfirst)
  | float _ value =>
    obtain ⟨first, tail, htext, -, hread⟩ := Decimal.isWord_floatText hnode.1 hnode.2
    rw [canonical, htext]
    exact starred_cons (startsPlain_of_isDigit (isDigit_of_read_number hread (by simp)))
  | string _ value =>
    obtain ⟨quote, tail, htext, hquote⟩ := exists_stringText value
    rw [canonical, htext]
    refine starred_cons ?_
    simp only [List.mem_cons, List.not_mem_nil, or_false] at hquote
    rcases hquote with rfl | rfl <;> exact ⟨by decide, by decide, by decide⟩
  | bool _ value =>
    obtain ⟨first, tail, htext, hfirst, -⟩ := isName_boolText value
    rw [canonical, htext]
    exact starred_cons (startsPlain_of_isNameStart hfirst)
  | name _ ident =>
    obtain ⟨first, tail, htext, hfirst, -⟩ := hnode.name
    rw [canonical, htext]
    exact starred_cons (startsPlain_of_isNameStart hfirst)
  | list | tuple | dict | binary | negation | signed | test | filter | conditional =>
    simp only [canonical, String.toList_append, List.append_assoc]
    exact starred_cons ⟨by decide, by decide, by decide⟩
  | member _ subject | subscript _ subject | slice _ subject | call _ subject =>
    have hsubject := starred_subjectText (ih subject (by simp [children]))
    simp only [canonical, String.toList_append, List.append_assoc]
    exact hsubject.append _
  | spread _ operand =>
    have hoperand := ih operand (by simp [children])
    simpa [canonical] using hoperand.star
  | namedSpread _ operand =>
    have hoperand := ih operand (by simp [children])
    simpa [canonical] using hoperand.star.star

/-! ## The words of canonical text -/

/-- The parentheses that a subject may need are written with it. -/
theorem writes_subjectText {subject : Expr Mark}
    (hsubject : Writes subject.canonical subject.writer) :
    Writes (subjectText subject subject.canonical) (subjectWriter subject subject.writer) := by
  cases subject with
  | integer =>
    intro rest words _ hrest
    simp only [subjectText, String.toList_append, List.append_assoc]
    refine .solo .leftParen (by decide) rfl ?_
    exact hsubject.before .rightParen (by decide) rfl hrest
  | _ => exact hsubject

theorem writes_items {items : List (Expr Mark)}
    (hitems : ∀ item ∈ items, Writes item.canonical item.writer) :
    List.Forall₂ Writes (canonicalItems items) (itemWriters items) := by
  induction items with
  | nil => exact .nil
  | cons item items ih =>
    rw [List.forall_mem_cons] at hitems
    exact .cons hitems.1 (ih hitems.2)

theorem writes_pairs {pairs : List (Expr Mark × Expr Mark)}
    (hpairs : ∀ pair ∈ pairs, Writes pair.1.canonical pair.1.writer ∧
      Writes pair.2.canonical pair.2.writer) :
    List.Forall₂ Writes (canonicalPairs pairs) (pairWriters pairs) := by
  induction pairs with
  | nil => exact .nil
  | cons pair pairs ih =>
    rw [List.forall_mem_cons] at hpairs
    refine .cons ?_ (ih hpairs.2)
    intro rest words hfollows hrest
    simp only [String.toList_append, List.append_assoc]
    refine hpairs.1.1.before .colon (by decide) rfl ?_
    exact (hpairs.1.2 hfollows hrest).space

/-- A keyword and its equals sign stand right before a value, which must not start with another such
sign. -/
theorem writes_named {named : List (String × Expr Mark)}
    (hkeys : ∀ key ∈ named.map Prod.fst, IsPlainName key)
    (hnamed : ∀ value ∈ named.map Prod.snd,
      Writes value.canonical value.writer ∧ Starred value.canonical.toList) :
    List.Forall₂ Writes (canonicalNamed named) (namedWriters named) := by
  induction named with
  | nil => exact .nil
  | cons pair named ih =>
    rw [List.map_cons, List.forall_mem_cons] at hkeys hnamed
    refine .cons ?_ (ih hkeys.2 hnamed.2)
    intro rest words hfollows hrest
    simp only [String.toList_append, List.append_assoc]
    refine .cons hkeys.1.name.isWord (by decide) ?_ ?_
    · rintro _ ⟨⟩
      exact .inr (.inr ⟨rfl, rfl⟩)
    · exact .assign (hnamed.1.2.append _).head_ne (hnamed.1.1 hfollows hrest)

theorem writes_option {lead : String} {leading : Writer} {option : Option (Expr Mark)}
    (hlead : ∀ expr ∈ option, Writes (lead ++ expr.canonical) (all [leading, expr.writer])) :
    Writes (canonicalOption lead option) (optionWriter leading option) := by
  cases option with
  | none => exact fun _ _ _ hrest => hrest
  | some expr => exact hlead expr rfl

theorem writes_bound {option : Option (Expr Mark)}
    (hoption : ∀ expr ∈ option, Writes expr.canonical expr.writer) :
    Writes (canonicalOption "" option) (optionWriter id option) :=
  writes_option fun expr hexpr => by
    rw [String.empty_append]
    exact hoption expr hexpr

/-- No test that takes an argument is named by a point. -/
theorem labelKind_ne_dot {label : String} (hlabel : IsLabel label)
    (htakes : Dialect.standard.takesArgument label) : labelKind label ≠ .dot := by
  intro hdot
  obtain ⟨first, tail, htext, -, hread⟩ := hlabel.word
  rw [hdot] at hread
  have hsource : first :: tail = symbolChars .dot :=
    source_of_symbol hread (show Kind.dot ∈ symbolKinds by decide)
  have hpoint : label = "." := by
    rw [← String.toList_inj, htext, hsource]
    rfl
  subst hpoint
  exact absurd htakes (by decide)

/-- The arguments of a call or of a filter between their parentheses. -/
theorem writes_arguments {positional : List (Expr Mark)} {named : List (String × Expr Mark)}
    (hkeys : ∀ key ∈ named.map Prod.fst, IsPlainName key)
    (hbelow : ∀ value ∈ positional ++ named.map Prod.snd,
      Writes value.canonical value.writer ∧ Starred value.canonical.toList)
    {rest : List Char} {words : List Word} {afterDot : Bool} (hrest : Divides false rest words) :
    Divides afterDot
      ('(' :: ((commaSeparated (canonicalItems positional ++ canonicalNamed named)).toList ++
        ')' :: rest))
      (all [symbol .leftParen, separated (itemWriters positional ++ namedWriters named),
        symbol .rightParen] words) := by
  have hpositional := writes_items fun item hitem =>
    (hbelow item (List.mem_append_left _ hitem)).1
  have hnamed := writes_named hkeys fun value hvalue =>
    hbelow value (List.mem_append_right _ hvalue)
  refine .solo .leftParen (by decide) rfl ?_
  have harguments := writes_separated (List.rel_append hpositional hnamed)
  exact harguments.before .rightParen (by decide) rfl hrest

/-- The canonical text of a tree is scanned to the words of its writer, by induction over the tree.
-/
theorem writes_canonical {expr : Expr Mark} (hwritable : expr.Everywhere Writable) :
    Writes expr.canonical expr.writer := by
  induction hwritable with
  | @node expr hnode hbelow ih =>
  intro rest words hfollows hrest
  cases expr with
  | integer _ value => exact .numeral (isWhole_integerText hnode) hfollows hrest
  | float _ value =>
    exact writes_word (Decimal.isWord_floatText hnode.1 hnode.2) (by decide) hfollows hrest
  | string _ value => exact .string hnode hrest
  | bool _ value => exact writes_word (isName_boolText value).isWord (by decide) hfollows hrest
  | name _ ident => exact writes_word hnode.name.isWord (by decide) hfollows hrest
  | list _ items =>
    have hitems := writes_separated (writes_items ih)
    simp only [canonical, String.toList_append, List.append_assoc]
    refine .solo .leftBracket (by decide) rfl ?_
    exact hitems.before .rightBracket (by decide) rfl hrest
  | tuple _ items =>
    have hitems := writes_separated (writes_items ih)
    simp only [canonical, String.toList_append, List.append_assoc]
    refine .solo .leftParen (by decide) rfl ?_
    by_cases hone : items.length = 1
    · simp only [hone, if_true]
      refine hitems.before .comma (by decide) rfl ?_
      exact .solo .rightParen (by decide) rfl hrest
    · simp only [hone, if_false]
      exact hitems.before .rightParen (by decide) rfl hrest
  | dict _ pairs =>
    have hpairs := writes_separated (writes_pairs fun pair hmem =>
      ⟨ih _ (mem_children_dict hmem).1, ih _ (mem_children_dict hmem).2⟩)
    simp only [canonical, String.toList_append, List.append_assoc]
    refine .solo .leftBrace (by decide) rfl ?_
    exact hpairs.before .rightBrace (by decide) rfl hrest
  | member _ subject selector =>
    have hsubject := writes_subjectText (ih subject (by simp [children]))
    simp only [canonical, String.toList_append, List.append_assoc]
    cases selector with
    | name ident =>
      refine hsubject (follows_name hnode) ?_
      refine .solo .dot (by decide) rfl ?_
      exact .cons hnode.isWord (by decide) (hfollows.endsBefore (by decide)) hrest
    | index index =>
      refine hsubject (follows_index (isWhole_toString _) hfollows) ?_
      refine .solo .dot (by decide) rfl ?_
      exact .index (isWhole_toString _) hfollows.not_isDigit hrest
  | subscript _ subject key =>
    have hsubject := writes_subjectText (ih subject (by simp [children]))
    have hkey := ih key (by simp [children])
    simp only [canonical, String.toList_append, List.append_assoc]
    refine hsubject.before .leftBracket (by decide) rfl ?_
    exact hkey.before .rightBracket (by decide) rfl hrest
  | slice _ subject start stop =>
    have hsubject := writes_subjectText (ih subject (by simp [children]))
    have hstart : Writes (canonicalOption "" start) (optionWriter id start) :=
      writes_bound fun expr hexpr => ih expr (by simp [children, Option.mem_def.1 hexpr])
    have hstop : Writes (canonicalOption "" stop) (optionWriter id stop) :=
      writes_bound fun expr hexpr => ih expr (by simp [children, Option.mem_def.1 hexpr])
    simp only [canonical, String.toList_append, List.append_assoc]
    refine hsubject.before .leftBracket (by decide) rfl ?_
    refine hstart.before .colon (by decide) rfl ?_
    exact hstop.before .rightBracket (by decide) rfl hrest
  | call mark callee positional named =>
    have hcallee := writes_subjectText (ih callee (by simp [children]))
    simp only [canonical, String.toList_append, List.append_assoc]
    refine hcallee (follows_word (by decide) (by decide)) ?_
    refine writes_arguments hnode.2 (fun value hvalue => ?_) hrest
    have hchild : value ∈ (call mark callee positional named).children :=
      List.mem_cons_of_mem _ hvalue
    exact ⟨ih value hchild, starred_canonical (hbelow value hchild)⟩
  | binary _ op left right =>
    simp only [canonical, String.toList_append, List.append_assoc]
    refine .solo .leftParen (by decide) rfl ?_
    refine ih left (by simp [children]) (follows_word (by decide) (by cases op <;> decide)) ?_
    refine .space
      (.cons (isWord_symbol op) (by cases op <;> decide) (endsBefore_cons (by decide)) ?_)
    have hdot : (op.kind == Kind.dot) = false := by cases op <;> rfl
    rw [hdot]
    exact .space ((ih right (by simp [children])).before .rightParen (by decide) rfl hrest)
  | negation _ operand =>
    simp only [canonical, String.toList_append, List.append_assoc]
    refine .solo .leftParen (by decide) rfl ?_
    refine Divides.spaced isName_not.isWord (by decide) ?_
    exact (ih operand (by simp [children])).before .rightParen (by decide) rfl hrest
  | signed _ sign operand =>
    have hsign : Divides false ((sign.symbol).toList ++ (operand.canonical.toList ++ ')' :: rest))
        (Word.symbol sign.kind :: operand.writer (Word.symbol .rightParen :: words)) := by
      have hoperand : Divides false (operand.canonical.toList ++ ')' :: rest)
          (operand.writer (Word.symbol .rightParen :: words)) :=
        (ih operand (by simp [children])).before .rightParen (by decide) rfl hrest
      cases sign with
      | minus => exact .solo .sub (by decide) rfl hoperand
      | plus => exact .solo .add (by decide) rfl hoperand
    simp only [canonical, String.toList_append, List.append_assoc]
    exact .solo .leftParen (by decide) rfl hsign
  | test _ subject label argument =>
    obtain ⟨hlabel, htakes⟩ := hnode
    simp only [canonical, String.toList_append, List.append_assoc]
    refine .solo .leftParen (by decide) rfl ?_
    refine ih subject (by simp [children]) (follows_word (by decide) (by decide)) ?_
    refine .space (Divides.spaced isName_is.isWord (by decide) ?_)
    cases argument with
    | none =>
      refine .cons hlabel.word hlabel.not_string (endsBefore_cons (by decide)) ?_
      exact .solo .rightParen (by decide) rfl hrest
    | some argument =>
      have hdot : (labelKind label == Kind.dot) = false := by
        simpa using labelKind_ne_dot hlabel htakes.symm
      simp only [canonicalOption, String.toList_append, List.append_assoc]
      refine Divides.spaced hlabel.word hlabel.not_string ?_
      rw [hdot]
      exact (ih argument (by simp [children])).before .rightParen (by decide) rfl hrest
  | filter mark subject label positional named =>
    obtain ⟨hlabel, -, hkeys⟩ := hnode
    simp only [canonical, String.toList_append, List.append_assoc]
    refine .solo .leftParen (by decide) rfl ?_
    refine (ih subject (by simp [children])).before .pipe (by decide) rfl ?_
    by_cases hempty : positional.isEmpty && named.isEmpty
    · simp only [if_pos hempty]
      refine .cons hlabel.isWord (by decide) (endsBefore_cons (by decide)) ?_
      exact .solo .rightParen (by decide) rfl hrest
    · simp only [if_neg hempty, String.toList_append, List.append_assoc]
      refine .cons hlabel.isWord (by decide) (endsBefore_cons (by decide)) ?_
      refine writes_arguments hkeys (fun value hvalue => ?_)
        (.solo .rightParen (by decide) rfl hrest)
      have hchild : value ∈ (filter mark subject label positional named).children :=
        List.mem_cons_of_mem _ hvalue
      exact ⟨ih value hchild, starred_canonical (hbelow value hchild)⟩
  | conditional _ condition consequent alternative =>
    simp only [canonical, String.toList_append, List.append_assoc]
    refine .solo .leftParen (by decide) rfl ?_
    refine ih consequent (by simp [children]) (follows_word (by decide) (by decide)) ?_
    refine .space (Divides.spaced isName_if.isWord (by decide) ?_)
    cases alternative with
    | none =>
      exact (ih condition (by simp [children])).before .rightParen (by decide) rfl hrest
    | some alternative =>
      simp only [canonicalOption, String.toList_append, List.append_assoc]
      refine ih condition (by simp [children]) (follows_word (by decide) (by decide)) ?_
      refine .space (Divides.spaced isName_else.isWord (by decide) ?_)
      exact (ih alternative (by simp [children])).before .rightParen (by decide) rfl hrest
  | spread _ operand =>
    have hstarred := (starred_canonical (hbelow operand (by simp [children]))).append rest
    have hoperand := ih operand (by simp [children]) hfollows hrest
    simp only [canonical, String.toList_append]
    exact hoperand.star hstarred.dropWhile
  | namedSpread _ operand =>
    have hoperand := ih operand (by simp [children]) hfollows hrest
    simp only [canonical, String.toList_append]
    exact hoperand.pow

end Expr

end Stencil
