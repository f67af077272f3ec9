import Stencil.Proofs.Words.Breaks

/-!
# Expressions in variable blocks

A text that is divided into words as a bare expression is divided into the same words between double
braces, each two characters further on.  A brace that closes in the text closes one that opened in
it, so the block ends nowhere before its own end.
-/

namespace Stencil

namespace Position

/-- The place of the same character behind two braces at the start of the text. -/
def inBlock (position : Position) : Position :=
  ⟨position.offset + 2, position.line,
    if position.line = 1 then position.column + 2 else position.column⟩

theorem inBlock_after {position : Position} (hline : 0 < position.line) (char : Char) :
    (position.after char).inBlock = position.inBlock.after char := by
  unfold after
  split
  · simp [inBlock, hline.ne']
  · by_cases hfirst : position.line = 1
    · simp [inBlock, hfirst]
    · simp [inBlock, hfirst]

theorem line_after_pos {position : Position} (hline : 0 < position.line) (char : Char) :
    0 < (position.after char).line := by
  unfold after
  split
  · exact Nat.succ_pos _
  · exact hline

theorem inBlock_afterAll {position : Position} (hline : 0 < position.line) (chars : List Char) :
    (position.afterAll chars).inBlock = position.inBlock.afterAll chars ∧
      0 < (position.afterAll chars).line := by
  induction chars generalizing position with
  | nil => exact ⟨rfl, hline⟩
  | cons char chars ih =>
    rw [afterAll_cons, afterAll_cons, ← inBlock_after hline]
    exact ih (line_after_pos hline char)

end Position

namespace Token

/-- The same token in a text that has two braces more at its start. -/
def inBlock (token : Token) : Token :=
  { token with
    span := ⟨token.span.start + 2, token.span.stop + 2, token.span.line,
      if token.span.line = 1 then token.span.column + 2 else token.span.column⟩ }

theorem inBlock_covering {position : Position} (hline : 0 < position.line) (kind : Kind)
    (text : String) (source : List Char) :
    (covering kind text position source).inBlock =
      covering kind text position.inBlock source := by
  have hstop := congrArg Position.offset (Position.inBlock_afterAll hline source).1
  simp only [inBlock, covering, Span.between, ← hstop]
  rfl

/-- No brace closes before it has been opened, if `depth` are open to begin with, and in the end all
are closed. -/
structure Balanced (depth : Nat) (tokens : List Token) : Prop where
  closed : ∀ start, start <+: tokens →
    start.countP (fun token => token.kind == .rightBrace) ≤
      depth + start.countP (fun token => token.kind == .leftBrace)
  all : tokens.countP (fun token => token.kind == .rightBrace) =
    depth + tokens.countP (fun token => token.kind == .leftBrace)

theorem balanced_iff {depth : Nat} {tokens : List Token} :
    Balanced depth tokens ↔
      (∀ start ∈ tokens.inits, start.countP (fun token => token.kind == .rightBrace) ≤
        depth + start.countP (fun token => token.kind == .leftBrace)) ∧
      tokens.countP (fun token => token.kind == .rightBrace) =
        depth + tokens.countP (fun token => token.kind == .leftBrace) := by
  simp only [List.mem_inits]
  exact ⟨fun hbalanced => ⟨hbalanced.closed, hbalanced.all⟩, fun hboth => ⟨hboth.1, hboth.2⟩⟩

instance (depth : Nat) (tokens : List Token) : Decidable (Balanced depth tokens) :=
  decidable_of_iff' _ balanced_iff

end Token

namespace Token

theorem Balanced.of_cons {depth depth' : Nat} {token : Token} {tokens : List Token}
    (hbalanced : Balanced depth (token :: tokens))
    (hdepth : depth' + (if token.kind == .rightBrace then 1 else 0) =
      depth + (if token.kind == .leftBrace then 1 else 0)) : Balanced depth' tokens where
  closed start hstart := by
    have hcons := hbalanced.closed (token :: start) (List.cons_prefix_cons.2 ⟨rfl, hstart⟩)
    simp only [List.countP_cons] at hcons
    omega
  all := by
    have hcons := hbalanced.all
    simp only [List.countP_cons] at hcons
    omega

/-- The depth of a block follows the braces that are open. -/
theorem Balanced.tail {depth : Nat} {token : Token} {tokens : List Token}
    (hbalanced : Balanced depth (token :: tokens)) : ∃ depth', Balanced depth' tokens ∧
      ScanMode.after token.kind (.block depth) = .block depth' ∧
        (token.kind = .rightBrace → 0 < depth) := by
  by_cases hright : token.kind = .rightBrace
  · have hopen := hbalanced.closed [token] (List.cons_prefix_cons.2 ⟨rfl, List.nil_prefix⟩)
    simp only [List.countP_singleton, hright, beq_self_eq_true, if_true] at hopen
    have hpos : 0 < depth := by
      have hleft : (Kind.rightBrace == Kind.leftBrace) = false := rfl
      simp only [hleft, Bool.false_eq_true, if_false] at hopen
      omega
    refine ⟨depth - 1, hbalanced.of_cons ?_, by rw [hright]; rfl, fun _ => hpos⟩
    rw [hright]
    exact Nat.sub_add_cancel hpos
  · by_cases hleft : token.kind = .leftBrace
    · exact ⟨depth + 1, hbalanced.of_cons (by rw [hleft]; rfl), by rw [hleft]; rfl,
        fun hkind => absurd hkind hright⟩
    · refine ⟨depth, hbalanced.of_cons ?_, ?_, fun hkind => absurd hkind hright⟩
      · simp [hleft, hright]
      · generalize token.kind = kind at hleft hright
        cases kind <;> first | rfl | contradiction

/-- No brace ends the block where one is open that the text has opened. -/
theorem closesWith_of_read {depth : Nat} {afterDot : Bool} {first : Char} {chars : List Char}
    {lexeme : Lexeme} (hread : Lexeme.read afterDot first chars = .ok lexeme)
    (hright : lexeme.kind = .rightBrace → 0 < depth) (rest : List Char) :
    (ScanMode.block depth).closesWith first rest = false := by
  cases depth with
  | succ depth => rfl
  | zero =>
    have hne : first ≠ '}' := by
      rintro rfl
      have hsolo : Lexeme.read afterDot '}' chars = .ok ⟨.rightBrace, ['}']⟩ :=
        Lexeme.read_solo (by decide) rfl chars
      rw [hsolo] at hread
      cases hread
      exact absurd (hright rfl) (Nat.lt_irrefl 0)
    simp [ScanMode.closesWith, hne]

theorem scanFrom_block_nil (afterDot : Bool) (position : Position) :
    scanFrom (.block 0) afterDot position ['}', '}'] =
      .ok [covering .variableEnd "\x7d\x7d" position ['}', '}'],
        covering .eof "" (position.afterAll ['}', '}']) []] := by
  rw [scanFrom_closing, scanFrom_literal_nil]
  rfl

/-- The words of a bare expression, and what the scanner makes of the same text in a block. -/
structure InBlock (tokens inner : List Token) : Prop where
  exists_words : ∃ words final closing last, tokens = words ++ [final] ∧
    inner = words.map inBlock ++ [closing, last] ∧
    (∀ word ∈ words, word.kind ∉ [Kind.eof, .variableEnd]) ∧
    final.kind = .eof ∧ closing.kind = .variableEnd ∧ last.kind = .eof

theorem InBlock.cons {token : Token} {tokens inner : List Token} (hblock : InBlock tokens inner)
    (hkind : token.kind ∉ [Kind.eof, .variableEnd]) :
    InBlock (token :: tokens) (token.inBlock :: inner) := by
  obtain ⟨words, final, closing, last, rfl, rfl, hwords, hends⟩ := hblock
  exact ⟨token :: words, final, closing, last, rfl, rfl, List.forall_mem_cons.2 ⟨hkind, hwords⟩,
    hends⟩

/-- A block is divided into the words of the expression that it holds. -/
theorem scanFrom_block {depth : Nat} {afterDot : Bool} {position : Position} {chars : List Char}
    {tokens : List Token} (hline : 0 < position.line)
    (hscan : scanFrom .expression afterDot position chars = .ok tokens)
    (hbalanced : Balanced depth tokens) :
    ∃ inner, scanFrom (.block depth) afterDot position.inBlock (chars ++ ['}', '}']) = .ok inner ∧
      InBlock tokens inner := by
  replace hscan := scans_of_scanFrom ScanMode.noConfusion hscan
  generalize hmode : ScanMode.expression = mode at hscan
  induction hscan generalizing depth with
  | @eof afterDot position =>
    obtain rfl : depth = 0 := hbalanced.all.symm
    exact ⟨_, scanFrom_block_nil afterDot position.inBlock,
      ⟨[], _, _, _, rfl, rfl, List.forall_mem_nil _, rfl, rfl, rfl⟩⟩
  | closing => cases hmode
  | @blank mode afterDot position first rest tokens hblank _ ih =>
    obtain ⟨inner, hinner, hblock⟩ := ih (Position.line_after_pos hline first) hbalanced hmode
    rw [List.cons_append, scanFrom_blank ScanMode.noConfusion hblank,
      ← Position.inBlock_after hline]
    exact ⟨inner, hinner, hblock⟩
  | @word mode afterDot position kind first tail chars more hblank _ hread _ ih =>
    subst hmode
    obtain ⟨depth', hbalanced', hdepth, hright⟩ := hbalanced.tail
    obtain ⟨hmoved, hline'⟩ := Position.inBlock_afterAll hline (first :: tail)
    obtain ⟨inner, hinner, hblock⟩ := ih hline' hbalanced' rfl
    have hopen := closesWith_of_read hread hright (tail ++ (chars ++ ['}', '}']))
    have hlonger : Lexeme.read afterDot first (tail ++ (chars ++ ['}', '}'])) =
        .ok ⟨kind, first :: tail⟩ := by
      rw [← List.append_assoc]
      exact Lexeme.read_append_of_breaks hread
        (Lexeme.breaks_of_delimiters (by simp [Lexeme.delimiters]))
    have hafter : ScanMode.after kind (.block depth) = .block depth' := hdepth
    have hends : [Kind.eof, .variableEnd] ⊆ [Kind.eof, .data, .variableBegin, .variableEnd] := by
      decide
    refine ⟨_, ?_, hblock.cons fun hmem => Lexeme.kind_of_read hread (hends hmem)⟩
    rw [List.cons_append, List.append_assoc,
      scanFrom_word ScanMode.noConfusion hblank hopen hlonger, hafter, ← hmoved, hinner,
      inBlock_covering hline]
    rfl

/-- A text between double braces. -/
def blockText (source : String) : String :=
  "\x7b\x7b" ++ source ++ "\x7d\x7d"

theorem scanTemplate_blockText {source : String} {tokens : List Token}
    (hscan : scanExpression source = .ok tokens) (hbalanced : Balanced 0 tokens) :
    ∃ opening inner, scanTemplate (blockText source) = .ok (opening :: inner) ∧
      opening.kind = .variableBegin ∧ InBlock tokens inner := by
  obtain ⟨inner, hinner, hblock⟩ := scanFrom_block Nat.one_pos hscan hbalanced
  have hchars : (blockText source).toList = '{' :: '{' :: (source.toList ++ ['}', '}']) := by
    simp [blockText]
  refine ⟨covering .variableBegin "\x7b\x7b" .start ['{', '{'], inner, ?_, rfl, hblock⟩
  have hstart : Position.start.afterAll ['{', '{'] = Position.start.inBlock := rfl
  rw [scanTemplate, hchars, scanFrom_literal_block, hstart, hinner]
  rfl

end Token

end Stencil
