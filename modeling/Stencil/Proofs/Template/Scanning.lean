import Stencil.Proofs.Words.Breaks

/-!
# Blocks, comments and texts of a template

Where a block or a comment ends is settled by the characters up to its end.  Whatever is appended to
a template is left over behind the same block or comment.
-/

namespace Stencil

/-! ## Blocks -/

/-- A block in which `depth` braces are open holds the words up to its end, and the second text
stands behind it. -/
inductive Encloses : Nat → Bool → List Char → List Word → List Char → Prop where
  | close {afterDot rest} : Encloses 0 afterDot ('}' :: '}' :: rest) [] rest
  | blank {depth afterDot char chars words rest} : Text.isBlank char →
      Encloses depth afterDot chars words rest → Encloses depth afterDot (char :: chars) words rest
  | word {depth depth' afterDot kind first tail chars words rest} : ¬ Text.isBlank first →
      (ScanMode.block depth).closesWith first (tail ++ chars) = false →
      Lexeme.read afterDot first (tail ++ chars) = .ok ⟨kind, first :: tail⟩ →
      ScanMode.after kind (.block depth) = .block depth' →
      Encloses depth' (kind == .dot) chars words rest →
      Encloses depth afterDot (first :: (tail ++ chars))
        (Lexeme.word ⟨kind, first :: tail⟩ :: words) rest

namespace Encloses

variable {depth : Nat} {afterDot : Bool} {chars rest : List Char} {words : List Word}

theorem exists_inner (hencloses : Encloses depth afterDot chars words rest) :
    ∃ inner, chars = inner ++ '}' :: '}' :: rest := by
  induction hencloses with
  | close => exact ⟨[], rfl⟩
  | @blank _ _ char _ _ _ _ _ ih =>
    obtain ⟨inner, rfl⟩ := ih
    exact ⟨char :: inner, rfl⟩
  | @word _ _ _ _ first tail _ _ _ _ _ _ _ _ ih =>
    obtain ⟨inner, rfl⟩ := ih
    exact ⟨first :: (tail ++ inner), by simp⟩

theorem length_lt (hencloses : Encloses depth afterDot chars words rest) :
    rest.length < chars.length := by
  obtain ⟨inner, rfl⟩ := hencloses.exists_inner
  simp
  omega

/-- The end of a block stays where it is. -/
theorem append (hencloses : Encloses depth afterDot chars words rest) (more : List Char) :
    Encloses depth afterDot (chars ++ more) words (rest ++ more) := by
  induction hencloses with
  | close => exact .close
  | blank hblank _ ih => exact .blank hblank ih
  | @word depth depth' afterDot kind first tail chars words rest hblank hopen hread hdepth
      hrest ih =>
    obtain ⟨inner, rfl⟩ := hrest.exists_inner
    have hbreaks (rest : List Char) : Lexeme.Breaks ('}' :: '}' :: rest) :=
      Lexeme.breaks_of_delimiters (by simp [Lexeme.delimiters])
    have hinner := Lexeme.read_of_read_append hread (hbreaks rest)
    have hlonger : Lexeme.read afterDot first (tail ++ ((inner ++ '}' :: '}' :: rest) ++ more)) =
        .ok ⟨kind, first :: tail⟩ := by
      rw [List.append_assoc, ← List.append_assoc tail]
      exact Lexeme.read_append_of_breaks hinner (hbreaks (rest ++ more))
    have hopen' : (ScanMode.block depth).closesWith first
        (tail ++ ((inner ++ '}' :: '}' :: rest) ++ more)) = false := by
      rw [← hopen]
      cases depth <;> simp [ScanMode.closesWith, List.head?_append]
    rw [List.cons_append, List.append_assoc]
    exact .word hblank hopen' hlonger hdepth ih

end Encloses

/-! ## Comments -/

theorem commentTail?_append {chars tail : List Char}
    (htail : commentTail? chars = some tail) (more : List Char) :
    commentTail? (chars ++ more) = some tail := by
  fun_induction commentTail? chars generalizing tail with
  | case1 => cases htail
  | case2 rest =>
    cases htail
    rfl
  | case3 char rest hopen ih =>
    obtain ⟨inner, hinner, rfl⟩ := Option.map_eq_some_iff.1 htail
    have hopen' : ∀ behind, char = '#' → rest ++ more = '}' :: behind → False := by
      rintro behind rfl hrest
      cases rest with
      | nil => cases hinner
      | cons second rest =>
        cases hrest
        exact hopen rest rfl rfl
    rw [List.cons_append, commentTail?, ih hinner]
    · rfl
    · exact hopen'

theorem commentTail?_isPrefix {chars tail : List Char} (htail : commentTail? chars = some tail) :
    tail <+: chars := by
  fun_induction commentTail? chars generalizing tail with
  | case1 => cases htail
  | case2 rest =>
    cases htail
    exact ⟨rest, rfl⟩
  | case3 char rest _ ih =>
    obtain ⟨inner, hinner, rfl⟩ := Option.map_eq_some_iff.1 htail
    exact List.cons_prefix_cons.2 ⟨rfl, ih hinner⟩

/-- A comment ends with the first closing mark. -/
theorem commentTail?_closed {comment : List Char} (hcomment : ¬ ['#', '}'] <:+: comment) :
    commentTail? (comment ++ ['#', '}']) = some (comment ++ ['#', '}']) := by
  induction comment with
  | nil => rfl
  | cons char rest ih =>
    have hrest := ih fun hinside => hcomment (hinside.trans (List.suffix_cons char rest).isInfix)
    have hopen : ∀ behind, char = '#' → rest ++ ['#', '}'] = '}' :: behind → False := by
      rintro behind rfl hbehind
      cases rest with
      | nil => cases hbehind
      | cons second rest =>
        cases hbehind
        exact hcomment ⟨[], rest, rfl⟩
    rw [List.cons_append, commentTail?, hrest]
    · rfl
    · exact hopen

/-! ## Opening marks -/

/-- What stands behind a brace that opens a block, a comment or a statement. -/
def openingMarks : List Char :=
  ['{', '#', '%']

theorem opensBlock_iff {first : Char} {rest : List Char} :
    opensBlock (first :: rest) = true ↔
      first = '{' ∧ ∃ second ∈ rest.head?, second ∈ openingMarks := by
  cases rest with
  | nil => simp [opensBlock]
  | cons second rest =>
    by_cases hfirst : first = '{'
    · subst hfirst
      simp [opensBlock, openingMarks, or_assoc]
    · simp [opensBlock, hfirst]

theorem opensBlock_eq_false_iff {first : Char} {rest : List Char} :
    opensBlock (first :: rest) = false ↔
      (first = '{' → ∀ second ∈ rest.head?, second ∉ openingMarks) := by
  rw [← Bool.not_eq_true, opensBlock_iff]
  simp

theorem literalText_cons {first : Char} {rest : List Char}
    (hopens : opensBlock (first :: rest) = false) :
    literalText (first :: rest) = first :: literalText rest := by
  rw [literalText, if_neg (Bool.eq_false_iff.1 hopens)]

namespace Token

variable {depth : Nat} {afterDot : Bool} {position : Position} {chars inner rest : List Char}
  {tokens : List Token} {words : List Word}

/-- A block that is scanned has an end. -/
theorem exists_encloses_of_scanFrom
    (hscan : scanFrom (.block depth) afterDot position chars = .ok tokens) :
    ∃ words rest, Encloses depth afterDot chars words rest := by
  replace hscan := scans_of_scanFrom ScanMode.noConfusion hscan
  generalize hmode : ScanMode.block depth = mode at hscan
  induction hscan generalizing depth with
  | eof => cases hmode
  | closing =>
    cases hmode
    exact ⟨[], _, .close⟩
  | blank hblank _ ih =>
    obtain ⟨words, behind, hencloses⟩ := ih hmode
    exact ⟨words, behind, .blank hblank hencloses⟩
  | @word mode afterDot position kind first tail chars more hblank hopen hread _ ih =>
    subst hmode
    obtain ⟨depth', hdepth⟩ := ScanMode.exists_after kind depth
    obtain ⟨words, behind, hencloses⟩ := ih hdepth.symm
    exact ⟨_, behind, .word hblank hopen hread hdepth hencloses⟩

/-- The words of a block and the mark that closes it come first, whatever becomes of the rest. -/
theorem scanFrom_of_encloses (hencloses : Encloses depth afterDot chars words rest)
    (position : Position) :
    ∃ inner closing position', inner.map word = words ∧ closing.kind = .variableEnd ∧
      (∀ token ∈ inner, token.kind ∉ [Kind.eof, .data, .variableBegin, .variableEnd]) ∧
      scanFrom (.block depth) afterDot position chars =
        (scanFrom .literal false position' rest).map fun more => inner ++ closing :: more := by
  have hmode (depth : Nat) : ScanMode.block depth ≠ .literal := ScanMode.noConfusion
  induction hencloses generalizing position with
  | @close afterDot rest =>
    exact ⟨[], covering .variableEnd "\x7d\x7d" position ['}', '}'],
      position.afterAll ['}', '}'], rfl, rfl, List.forall_mem_nil _, scanFrom_closing⟩
  | @blank depth afterDot char chars words rest hblank _ ih =>
    obtain ⟨inner, closing, position', hwords, hclosing, hkinds, hscan⟩ := ih (position.after char)
    exact ⟨inner, closing, position', hwords, hclosing, hkinds,
      (scanFrom_blank (hmode depth) hblank).trans hscan⟩
  | @word depth depth' afterDot kind first tail chars words rest hblank hopen hread hdepth _ ih =>
    obtain ⟨inner, closing, position', hwords, hclosing, hkinds, hscan⟩ :=
      ih (position.afterAll (first :: tail))
    refine ⟨covering kind (Lexeme.text ⟨kind, first :: tail⟩) position (first :: tail) :: inner,
      closing, position', congrArg (List.cons _) hwords, hclosing,
      List.forall_mem_cons.2 ⟨Lexeme.kind_of_read hread, hkinds⟩, ?_⟩
    rw [scanFrom_word (hmode depth) hblank hopen hread, hdepth, hscan]
    cases scanFrom .literal false position' rest <;> rfl

/-! ## Templates -/

theorem scanFrom_literal_comment {tail : List Char}
    (htail : commentTail? (tail ++ rest) = some tail) :
    scanFrom .literal afterDot position ('{' :: '#' :: (tail ++ rest)) =
      scanFrom .literal false (position.afterAll ('{' :: '#' :: tail)) rest := by
  have hopens : opensBlock ('{' :: '#' :: (tail ++ rest)) = true := rfl
  rw [scanFrom, if_pos hopens]
  simp only [htail, List.drop_left]

theorem scanFrom_literal_text {first : Char} (hopens : opensBlock (first :: rest) = false) :
    scanFrom .literal afterDot position (first :: rest) =
      (scanFrom .literal false (position.afterAll (literalText (first :: rest)))
        ((first :: rest).drop (literalText (first :: rest)).length)).map fun tokens =>
          covering .data (String.ofList (literalText (first :: rest))) position
            (literalText (first :: rest)) :: tokens := by
  have hopens' : ¬ opensBlock (first :: rest) = true := Bool.eq_false_iff.1 hopens
  rw [scanFrom.eq_def, literalText_cons hopens, List.length_cons, List.drop_succ_cons]
  simp only [if_neg hopens']
  generalize scanFrom .literal false (position.afterAll (first :: literalText rest))
    (rest.drop (literalText rest).length) = scanned
  cases scanned <;> rfl

/-- What is scanned as a template starts with a text, a comment or a block, unless it is empty. -/
theorem scanFrom_literal_cases (hscan : scanFrom .literal afterDot position chars = .ok tokens) :
    chars = [] ∨ (∃ first rest, chars = first :: rest ∧ opensBlock (first :: rest) = false) ∨
      (∃ tail rest, chars = '{' :: '#' :: (tail ++ rest) ∧
        commentTail? (tail ++ rest) = some tail) ∨
      ∃ inner words rest, chars = '{' :: '{' :: inner ∧ Encloses 0 false inner words rest := by
  rcases chars with _ | ⟨first, rest⟩
  · exact .inl rfl
  by_cases hopens : opensBlock (first :: rest)
  · refine .inr (.inr ?_)
    obtain ⟨rfl, second, hsecond, hmark⟩ := opensBlock_iff.1 hopens
    obtain ⟨inner, rfl⟩ := List.head?_eq_some_iff.1 hsecond
    simp only [openingMarks, List.mem_cons, List.not_mem_nil, or_false] at hmark
    rcases hmark with rfl | rfl | rfl
    · rw [scanFrom, if_pos hopens] at hscan
      obtain ⟨more, hmore, -⟩ := exists_of_scan_cons hscan
      obtain ⟨words, behind, hencloses⟩ := exists_encloses_of_scanFrom hmore
      exact .inr ⟨inner, words, behind, rfl, hencloses⟩
    · cases htail : commentTail? inner with
      | some tail =>
        obtain ⟨behind, rfl⟩ := commentTail?_isPrefix htail
        exact .inl ⟨tail, behind, rfl, htail⟩
      | none =>
        rw [scanFrom] at hscan
        simp [hopens, htail] at hscan
    · rw [scanFrom] at hscan
      · simp [hopens] at hscan
      · simp
      · simp
  · exact .inr (.inl ⟨first, rest, rfl, Bool.eq_false_iff.2 hopens⟩)

theorem exists_eof_of_scanFrom {mode : ScanMode}
    (hscan : scanFrom mode afterDot position chars = .ok tokens) :
    ∃ token ∈ tokens, token.kind = .eof := by
  have hcons {first : Token} {more : List Token} (hends : ∃ token ∈ more, token.kind = .eof) :
      ∃ token ∈ first :: more, token.kind = .eof := by
    obtain ⟨token, hmem, hkind⟩ := hends
    exact ⟨token, List.mem_cons_of_mem _ hmem, hkind⟩
  fun_induction scanFrom mode afterDot position chars generalizing tokens with
  | case1 | case5 | case6 | case10 => cases hscan
  | case2 =>
    cases hscan
    exact ⟨_, List.mem_cons_self, rfl⟩
  | case3 | case7 | case9 | case11 =>
    rename_i ih
    obtain ⟨more, hmore, rfl⟩ := exists_of_scan_cons hscan
    exact hcons (ih hmore)
  | case4 | case8 =>
    rename_i ih
    exact ih hscan

end Token

end Stencil
