import Mathlib
import Stencil.Token.Scan

/-!
# Words

What the scanner finds in a bare expression, without the places in the source.  A text is divided
into words one after the other, and each word is the longest one that starts where the word before
it ends; blank characters only separate words.
-/

namespace Stencil

/-- A token without its place. -/
structure Word where
  kind : Kind
  text : String
  deriving DecidableEq, Repr

def Token.word (token : Token) : Word :=
  ⟨token.kind, token.text⟩

namespace Lexeme

def word (lexeme : Lexeme) : Word :=
  ⟨lexeme.kind, lexeme.text⟩

/-! ## What a word covers -/

theorem fractionPart_isPrefix (chars : List Char) : fractionPart chars <+: chars := by
  fun_cases fractionPart chars with
  | case1 digit rest hdigit =>
    exact (List.prefix_cons_inj _).2 ((List.prefix_cons_inj _).2 (List.takeWhile_prefix _))
  | case2 | case3 => exact List.nil_prefix

theorem exponentDigits_isPrefix (chars : List Char) : exponentDigits chars <+: chars := by
  fun_cases exponentDigits chars with
  | case2 first rest hdigit => exact (List.prefix_cons_inj _).2 (List.takeWhile_prefix _)
  | case4 =>
    exact (List.prefix_cons_inj _).2 ((List.prefix_cons_inj _).2 (List.takeWhile_prefix _))
  | case1 | case3 | case5 | case6 => exact List.nil_prefix

theorem exponentPart_isPrefix (chars : List Char) : exponentPart chars <+: chars := by
  fun_cases exponentPart chars with
  | case3 mark rest =>
    exact (List.prefix_cons_inj _).2 (exponentDigits_isPrefix rest)
  | case1 | case2 | case4 => exact List.nil_prefix

theorem stringTail?_isPrefix {quote : Char} {chars tail : List Char}
    (htail : stringTail? quote chars = some tail) : tail <+: chars := by
  fun_induction stringTail? quote chars generalizing tail with
  | case1 => cases htail
  | case2 char rest ih =>
    obtain ⟨inner, hinner, rfl⟩ := Option.map_eq_some_iff.1 htail
    exact (List.prefix_cons_inj _).2 ((List.prefix_cons_inj _).2 (ih hinner))
  | case3 rest _ =>
    cases htail
    exact (List.prefix_cons_inj _).2 List.nil_prefix
  | case4 char rest _ _ ih =>
    obtain ⟨inner, hinner, rfl⟩ := Option.map_eq_some_iff.1 htail
    exact (List.prefix_cons_inj _).2 (ih hinner)

/-- The digits of a number, its fraction and its exponent follow each other. -/
theorem numberTail_isPrefix (rest : List Char) :
    let whole := rest.takeWhile Char.isDigit
    let fraction := fractionPart (rest.drop whole.length)
    let power := exponentPart ((rest.drop whole.length).drop fraction.length)
    whole ++ fraction ++ power <+: rest := by
  intro whole fraction power
  obtain ⟨afterWhole, hwhole⟩ : whole <+: rest := List.takeWhile_prefix _
  obtain ⟨afterFraction, hfraction⟩ := fractionPart_isPrefix (rest.drop whole.length)
  obtain ⟨afterPower, hpower⟩ :=
    exponentPart_isPrefix ((rest.drop whole.length).drop fraction.length)
  have hdrop : rest.drop whole.length = afterWhole := by
    rw [← hwhole, List.drop_left]
  have hdropFraction : (rest.drop whole.length).drop fraction.length = afterFraction := by
    rw [← hfraction, List.drop_left]
  refine ⟨afterPower, ?_⟩
  rw [List.append_assoc, hpower, hdropFraction, List.append_assoc, hfraction, hdrop, hwhole]

theorem exists_of_symbol? {chars : List Char} {lexeme : Lexeme}
    (hsymbol : symbol? chars = some lexeme) :
    lexeme.kind ∈ symbolKinds ∧ lexeme.source = symbolChars lexeme.kind ∧
      symbolChars lexeme.kind <+: chars := by
  obtain ⟨kind, hfind, rfl⟩ := Option.map_eq_some_iff.1 hsymbol
  have hprefix : symbolChars kind <+: chars := by
    simpa using List.find?_some hfind
  exact ⟨List.mem_of_find?_eq_some hfind, rfl, hprefix⟩

/-- The first character of a word tells what it is. -/
theorem read_cases {afterDot : Bool} {first : Char} {rest : List Char} {lexeme : Lexeme}
    (hread : read afterDot first rest = .ok lexeme) :
    (first.isDigit ∧ lexeme = number afterDot first rest) ∨
      (isQuote first ∧ ∃ tail, stringTail? first rest = some tail ∧
        lexeme = ⟨.string, first :: tail⟩) ∨
      (isNameStart first ∧ lexeme = name first rest) ∨
      ((first.isDigit || isQuote first || isNameStart first) = false ∧
        symbol? (first :: rest) = some lexeme) := by
  unfold read at hread
  split at hread
  · next hdigit =>
    cases hread
    exact .inl ⟨hdigit, rfl⟩
  · next hdigit =>
    split at hread
    · next hquote =>
      split at hread
      · next tail htail =>
        cases hread
        exact .inr (.inl ⟨hquote, tail, htail, rfl⟩)
      · cases hread
    · next hquote =>
      split at hread
      · next hstart =>
        cases hread
        exact .inr (.inr (.inl ⟨hstart, rfl⟩))
      · next hstart =>
        split at hread
        · next lexeme hsymbol =>
          cases hread
          exact .inr (.inr (.inr ⟨by simp [hdigit, hquote, hstart], hsymbol⟩))
        · cases hread

theorem kind_number (afterDot : Bool) (first : Char) (rest : List Char) :
    (number afterDot first rest).kind ∈ [Kind.integer, .float] := by
  unfold number
  split
  · simp
  · dsimp only
    split <;> simp

theorem symbolChars_ne_nil {kind : Kind} (hmem : kind ∈ symbolKinds) : symbolChars kind ≠ [] := by
  revert hmem
  cases kind <;> decide

/-- A word is made of the characters at the start of the text. -/
theorem source_of_read {afterDot : Bool} {first : Char} {rest : List Char} {lexeme : Lexeme}
    (hread : read afterDot first rest = .ok lexeme) :
    ∃ tail, lexeme.source = first :: tail ∧ tail <+: rest := by
  rcases read_cases hread with ⟨-, rfl⟩ | ⟨-, tail, htail, rfl⟩ | ⟨-, rfl⟩ | ⟨-, hsymbol⟩
  · unfold number
    split
    · exact ⟨_, rfl, List.takeWhile_prefix _⟩
    · exact ⟨_, rfl, numberTail_isPrefix rest⟩
  · exact ⟨tail, rfl, stringTail?_isPrefix htail⟩
  · exact ⟨_, rfl, List.takeWhile_prefix _⟩
  · obtain ⟨hmem, hsource, hprefix⟩ := exists_of_symbol? hsymbol
    obtain ⟨head, tail, hchars⟩ := List.exists_cons_of_ne_nil (symbolChars_ne_nil hmem)
    rw [hchars, List.cons_prefix_cons] at hprefix
    obtain ⟨rfl, htail⟩ := hprefix
    exact ⟨tail, hsource.trans hchars, htail⟩

theorem isDigit_of_read_number {afterDot : Bool} {first : Char} {rest : List Char}
    {lexeme : Lexeme} (hread : read afterDot first rest = .ok lexeme)
    (hkind : lexeme.kind ∈ [Kind.integer, .float]) : first.isDigit := by
  rcases read_cases hread with ⟨hdigit, -⟩ | ⟨-, tail, -, rfl⟩ | ⟨-, rfl⟩ | ⟨-, hsymbol⟩
  · exact hdigit
  · exact absurd hkind (show Kind.string ∉ [Kind.integer, .float] by decide)
  · exact absurd hkind (show Kind.name ∉ [Kind.integer, .float] by decide)
  · have hmem := (exists_of_symbol? hsymbol).1
    have hapart : lexeme.kind ∉ [Kind.integer, .float] := by
      clear hkind
      revert hmem
      cases lexeme.kind <;> decide
    exact absurd hkind hapart

/-- The scanner makes the end token and the delimiters of a template by itself. -/
theorem kind_of_read {afterDot : Bool} {first : Char} {rest : List Char} {lexeme : Lexeme}
    (hread : read afterDot first rest = .ok lexeme) :
    lexeme.kind ∉ [Kind.eof, .data, .variableBegin, .variableEnd] := by
  rcases read_cases hread with ⟨-, rfl⟩ | ⟨-, tail, -, rfl⟩ | ⟨-, rfl⟩ | ⟨-, hsymbol⟩
  · have hkind := kind_number afterDot first rest
    intro hmem
    simp only [List.mem_cons, List.not_mem_nil, or_false] at hkind hmem
    rcases hkind with hkind | hkind <;> simp [hkind] at hmem
  · simp
  · simp [name]
  · have hmem := (exists_of_symbol? hsymbol).1
    revert hmem
    cases lexeme.kind <;> decide

/-- A kind with a fixed spelling is always spelled in that way. -/
theorem source_of_symbol {afterDot : Bool} {first : Char} {rest : List Char} {lexeme : Lexeme}
    (hread : read afterDot first rest = .ok lexeme) (hkind : lexeme.kind ∈ symbolKinds) :
    lexeme.source = symbolChars lexeme.kind := by
  rcases read_cases hread with ⟨-, rfl⟩ | ⟨-, tail, -, rfl⟩ | ⟨-, rfl⟩ | ⟨-, hsymbol⟩
  · have hnumber := kind_number afterDot first rest
    simp only [List.mem_cons, List.not_mem_nil, or_false] at hnumber
    rcases hnumber with hnumber | hnumber <;> rw [hnumber] at hkind <;>
      exact absurd hkind (by decide)
  · exact absurd hkind (show Kind.string ∉ symbolKinds by decide)
  · exact absurd hkind (show Kind.name ∉ symbolKinds by decide)
  · exact (exists_of_symbol? hsymbol).2.1

end Lexeme

/-! ## Steps of the scanner -/

theorem ScanMode.exists_after (kind : Kind) (depth : Nat) :
    ∃ depth', after kind (.block depth) = .block depth' := by
  cases kind <;> exact ⟨_, rfl⟩

theorem ScanMode.of_closesWith {mode : ScanMode} {first : Char} {rest : List Char}
    (hcloses : mode.closesWith first rest = true) :
    mode = .block 0 ∧ first = '}' ∧ ∃ behind, rest = '}' :: behind := by
  fun_cases closesWith first rest mode with
  | case1 =>
    simp only [closesWith, Bool.and_eq_true, beq_iff_eq] at hcloses
    exact ⟨rfl, hcloses.1, List.head?_eq_some_iff.1 hcloses.2⟩
  | case2 => simp_all [closesWith]

namespace Token

/-- The tokens of a text inside of an expression, word by word up to the end of the expression. -/
inductive Scans : ScanMode → Bool → Position → List Char → List Token → Prop where
  | eof {afterDot position} : Scans .expression afterDot position [] [covering .eof "" position []]
  | closing {afterDot position rest more} :
      scanFrom .literal false (position.afterAll ['}', '}']) rest = .ok more →
      Scans (.block 0) afterDot position ('}' :: '}' :: rest)
        (covering .variableEnd "\x7d\x7d" position ['}', '}'] :: more)
  | blank {mode afterDot position first rest tokens} : Text.isBlank first →
      Scans mode afterDot (position.after first) rest tokens →
      Scans mode afterDot position (first :: rest) tokens
  | word {mode afterDot position kind first tail chars more} : ¬ Text.isBlank first →
      mode.closesWith first (tail ++ chars) = false →
      Lexeme.read afterDot first (tail ++ chars) = .ok ⟨kind, first :: tail⟩ →
      Scans (mode.after kind) (kind == .dot) (position.afterAll (first :: tail)) chars more →
      Scans mode afterDot position (first :: (tail ++ chars))
        (covering kind (Lexeme.text ⟨kind, first :: tail⟩) position (first :: tail) :: more)

variable {mode : ScanMode} {afterDot : Bool} {position : Position} {first : Char}
  {rest chars : List Char} {tokens : List Token}

theorem scanFrom_literal_nil : scanFrom .literal afterDot position [] =
    .ok [covering .eof "" position []] := by
  rw [scanFrom]
  simp

theorem scanFrom_literal_block (inner : List Char) :
    scanFrom .literal afterDot position ('{' :: '{' :: inner) =
      (scanFrom (.block 0) false (position.afterAll ['{', '{']) inner).map fun tokens =>
        covering .variableBegin "\x7b\x7b" position ['{', '{'] :: tokens := by
  have hopens : opensBlock ('{' :: '{' :: inner) = true := rfl
  rw [scanFrom, if_pos hopens]
  cases scanFrom (.block 0) false (position.afterAll ['{', '{']) inner <;> rfl

theorem scanFrom_blank (hmode : mode ≠ .literal) (hblank : Text.isBlank first) :
    scanFrom mode afterDot position (first :: rest) =
      scanFrom mode afterDot (position.after first) rest := by
  rw [scanFrom]
  · rw [if_pos hblank]
  · exact hmode

theorem scanFrom_closing : scanFrom (.block 0) afterDot position ('}' :: '}' :: rest) =
    (scanFrom .literal false (position.afterAll ['}', '}']) rest).map fun more =>
      covering .variableEnd "\x7d\x7d" position ['}', '}'] :: more := by
  have hblank : ¬ Text.isBlank '}' := by decide
  have hcloses : (ScanMode.block 0).closesWith '}' ('}' :: rest) = true := rfl
  rw [scanFrom]
  · rw [if_neg hblank, if_pos hcloses, List.tail_cons]
    cases scanFrom .literal false (position.afterAll ['}', '}']) rest <;> rfl
  · simp

theorem scanFrom_word {kind : Kind} {tail chars : List Char} (hmode : mode ≠ .literal)
    (hblank : ¬ Text.isBlank first) (hopen : mode.closesWith first (tail ++ chars) = false)
    (hread : Lexeme.read afterDot first (tail ++ chars) = .ok ⟨kind, first :: tail⟩) :
    scanFrom mode afterDot position (first :: (tail ++ chars)) =
      (scanFrom (mode.after kind) (kind == .dot) (position.afterAll (first :: tail)) chars).map
        fun more => covering kind (Lexeme.text ⟨kind, first :: tail⟩) position (first :: tail) ::
          more := by
  rw [scanFrom]
  · rw [if_neg hblank, if_neg (Bool.eq_false_iff.1 hopen), hread]
    simp only [List.tail_cons, List.drop_left]
    generalize scanFrom (mode.after kind) (kind == .dot) (position.afterAll (first :: tail))
      chars = scanned
    cases scanned <;> rfl
  · exact hmode

theorem exists_of_scan_cons {scanned : Except ScanError (List Token)} {token : Token}
    (hscan : (do let more ← scanned; return token :: more) = .ok tokens) :
    ∃ more, scanned = .ok more ∧ tokens = token :: more := by
  cases scanned with
  | error error => cases hscan
  | ok more =>
    cases hscan
    exact ⟨more, rfl, rfl⟩

theorem scans_of_scanFrom (hmode : mode ≠ .literal)
    (hscan : scanFrom mode afterDot position chars = .ok tokens) :
    Scans mode afterDot position chars tokens := by
  fun_induction scanFrom mode afterDot position chars generalizing tokens with
  | case1 | case10 => cases hscan
  | case2 afterDot position mode hblock =>
    cases hscan
    cases mode with
    | literal => exact absurd rfl hmode
    | expression => exact .eof
    | block depth => exact absurd rfl (hblock depth)
  | case3 | case4 | case5 | case6 | case7 => exact absurd rfl hmode
  | case8 _ _ _ _ _ _ hblank ih => exact .blank hblank (ih hmode hscan)
  | case9 _ _ _ _ _ _ _ hcloses =>
    obtain ⟨rfl, rfl, behind, rfl⟩ := ScanMode.of_closesWith hcloses
    obtain ⟨more, hmore, rfl⟩ := exists_of_scan_cons hscan
    exact .closing hmore
  | case11 _ _ _ _ mode _ hblank hopen lexeme hread =>
    rename_i ih
    obtain ⟨kind, source⟩ := lexeme
    obtain ⟨tail, rfl, chars, rfl⟩ := Lexeme.source_of_read hread
    obtain ⟨more, hmore, rfl⟩ := exists_of_scan_cons hscan
    simp only [List.tail_cons, List.drop_left] at ih hmore
    have hmode' : mode.after kind ≠ .literal := by
      cases mode with
      | literal => exact hmode
      | expression => exact hmode
      | block depth =>
        obtain ⟨depth', hdepth⟩ := ScanMode.exists_after kind depth
        rw [hdepth]
        exact ScanMode.noConfusion
    exact .word hblank (Bool.eq_false_iff.2 hopen) hread (ih hmode' hmore)

end Token

/-! ## Texts as sequences of words -/

/-- The characters are divided into the words.  The first argument tells whether a dot stands right
before them. -/
inductive Divides : Bool → List Char → List Word → Prop where
  | nil {afterDot} : Divides afterDot [] []
  | blank {afterDot char chars words} : Text.isBlank char → Divides afterDot chars words →
      Divides afterDot (char :: chars) words
  | word {afterDot kind first tail chars words} : ¬ Text.isBlank first →
      Lexeme.read afterDot first (tail ++ chars) = .ok ⟨kind, first :: tail⟩ →
      Divides (kind == .dot) chars words →
      Divides afterDot (first :: (tail ++ chars)) (Lexeme.word ⟨kind, first :: tail⟩ :: words)

/-- The word behind the last one of a text. -/
def Word.eof : Word :=
  ⟨.eof, ""⟩

theorem Divides.kind_ne_eof {afterDot : Bool} {chars : List Char} {words : List Word}
    (hdivides : Divides afterDot chars words) : ∀ word ∈ words, word.kind ≠ .eof := by
  induction hdivides with
  | nil => simp
  | blank _ _ ih => exact ih
  | word _ hread _ ih =>
    have hkind := Lexeme.kind_of_read hread
    simp only [List.mem_cons, not_or] at hkind
    exact List.forall_mem_cons.2 ⟨hkind.1, ih⟩

theorem Divides.scanFrom {afterDot : Bool} {chars : List Char} {words : List Word}
    (hdivides : Divides afterDot chars words) (position : Position) :
    ∃ tokens, Token.scanFrom .expression afterDot position chars = .ok tokens ∧
      tokens.map Token.word = words ++ [Word.eof] := by
  have hmode : ScanMode.expression ≠ .literal := ScanMode.noConfusion
  induction hdivides generalizing position with
  | nil => exact ⟨_, by rw [Token.scanFrom]; simp, rfl⟩
  | blank hblank _ ih =>
    obtain ⟨tokens, hscan, hwords⟩ := ih (position.after _)
    exact ⟨tokens, (Token.scanFrom_blank hmode hblank).trans hscan, hwords⟩
  | @word afterDot kind first tail chars words hblank hread _ ih =>
    obtain ⟨tokens, hscan, hwords⟩ := ih (position.afterAll (first :: tail))
    have hmore : (Token.covering kind (Lexeme.text ⟨kind, first :: tail⟩) position
        (first :: tail) :: tokens).map Token.word =
          Lexeme.word ⟨kind, first :: tail⟩ :: (words ++ [Word.eof]) :=
      congrArg (List.cons _) hwords
    refine ⟨_, ?_, hmore⟩
    have hafter : ScanMode.after kind .expression = .expression := rfl
    rw [Token.scanFrom_word hmode hblank rfl hread, hafter, hscan]
    rfl

theorem divides_of_scanFrom {afterDot : Bool} {position : Position} {chars : List Char}
    {tokens : List Token}
    (hscan : Token.scanFrom .expression afterDot position chars = .ok tokens) :
    ∃ words, Divides afterDot chars words ∧ tokens.map Token.word = words ++ [Word.eof] := by
  replace hscan := Token.scans_of_scanFrom ScanMode.noConfusion hscan
  generalize hmode : ScanMode.expression = mode at hscan
  induction hscan with
  | eof => exact ⟨[], .nil, rfl⟩
  | closing => cases hmode
  | blank hblank _ ih =>
    obtain ⟨words, hdivides, hwords⟩ := ih hmode
    exact ⟨words, .blank hblank hdivides, hwords⟩
  | @word mode afterDot position kind first tail chars more hblank _ hread _ ih =>
    subst hmode
    obtain ⟨words, hdivides, hwords⟩ := ih rfl
    exact ⟨_, .word hblank hread hdivides,
      congrArg (List.cons (Lexeme.word ⟨kind, first :: tail⟩)) hwords⟩

end Stencil
