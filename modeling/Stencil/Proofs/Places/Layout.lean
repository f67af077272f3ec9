import Stencil.Proofs.Places.Grammar
import Stencil.Proofs.Words.Breaks

/-!
# Layout of expressions

The words of an expression may be set apart by other blank characters than they are: the text is
divided into the same words, and so the tree is the same but for its places, or the fault is.
-/

namespace Stencil

namespace Token

/-- The part of the source that the token covers. -/
def slice (source : String) (token : Token) : List Char :=
  (source.toList.drop token.span.start).take (token.span.stop - token.span.start)

/-- Tokens in their spelling in the source, with a text behind each of them. -/
def layout (source : String) : List (Token × String) → String
  | [] => ""
  | (token, gap) :: parts => String.ofList (token.slice source) ++ gap ++ layout source parts

/-- The texts behind the tokens are blank, and none between two tokens is empty. -/
structure Spaced (parts : List (Token × String)) : Prop where
  blank : ∀ part ∈ parts, ∀ char ∈ part.2.toList, Text.isBlank char
  apart : ∀ part ∈ parts.dropLast, part.2 ≠ ""

/-- Each token covers a word of the source, which was read right there. -/
inductive Excerpts (source : String) : Bool → List Token → Prop where
  | nil {afterDot} : Excerpts source afterDot []
  | cons {afterDot token tokens kind first tail rest} : token.slice source = first :: tail →
      token.word = Lexeme.word ⟨kind, first :: tail⟩ → ¬ Text.isBlank first →
      Lexeme.read afterDot first rest = .ok ⟨kind, first :: tail⟩ →
      Excerpts source (kind == .dot) tokens → Excerpts source afterDot (token :: tokens)

theorem slice_covering {source : String} {position : Position} {chars rest : List Char}
    (hsource : source.toList.drop position.offset = chars ++ rest) (kind : Kind) (text : String) :
    (covering kind text position chars).slice source = chars := by
  simp [slice, covering, Span.between, hsource]

theorem excerpts_of_scanFrom {source : String} {afterDot : Bool} {position : Position}
    {chars : List Char} {tokens : List Token}
    (hscan : scanFrom .expression afterDot position chars = .ok tokens)
    (hsource : source.toList.drop position.offset = chars) :
    ∃ words final, tokens = words ++ [final] ∧ final.word = Word.eof ∧
      Excerpts source afterDot words := by
  replace hscan := scans_of_scanFrom ScanMode.noConfusion hscan
  generalize hmode : ScanMode.expression = mode at hscan
  induction hscan with
  | eof => exact ⟨[], _, rfl, rfl, .nil⟩
  | closing => cases hmode
  | @blank mode afterDot position first rest tokens _ _ ih =>
    have hafter : source.toList.drop (position.after first).offset = rest := by
      rw [Position.offset_after, ← List.drop_drop, hsource, List.drop_one, List.tail_cons]
    exact ih hafter hmode
  | @word mode afterDot position kind first tail chars more hblank _ hread _ ih =>
    subst hmode
    have hafter : source.toList.drop (position.afterAll (first :: tail)).offset = chars := by
      rw [Position.offset_afterAll, ← List.drop_drop, hsource, ← List.cons_append, List.drop_left]
    obtain ⟨words, final, rfl, hfinal, hwords⟩ := ih hafter rfl
    exact ⟨_ :: words, final, rfl, hfinal,
      .cons (slice_covering hsource _ _) rfl hblank hread hwords⟩

end Token

theorem Divides.blanks {afterDot : Bool} {gap chars : List Char} {words : List Word}
    (hgap : ∀ char ∈ gap, Text.isBlank char) (hdivides : Divides afterDot chars words) :
    Divides afterDot (gap ++ chars) words := by
  induction gap with
  | nil => exact hdivides
  | cons char gap ih =>
    obtain ⟨hchar, hrest⟩ := List.forall_mem_cons.1 hgap
    exact .blank hchar (ih hrest)

theorem Token.Spaced.breaks {token : Token} {gap : String} {parts : List (Token × String)}
    (hspaced : Token.Spaced ((token, gap) :: parts)) (source : String) :
    Lexeme.Breaks (gap.toList ++ (Token.layout source parts).toList) := by
  cases hgap : gap.toList with
  | cons char more =>
    exact Lexeme.breaks_of_isBlank
      (hspaced.blank (token, gap) List.mem_cons_self char (by simp [hgap]))
  | nil =>
    -- Only the last token may have nothing behind it.
    cases parts with
    | nil => exact Lexeme.breaks_nil
    | cons part parts =>
      have hempty : gap = "" := String.toList_injective hgap
      exact absurd hempty (hspaced.apart (token, gap) (by simp))

theorem Token.Excerpts.divides {source : String} {afterDot : Bool} {parts : List (Token × String)}
    (hexcerpts : Token.Excerpts source afterDot (parts.map Prod.fst))
    (hspaced : Token.Spaced parts) :
    Divides afterDot (Token.layout source parts).toList (parts.map fun part => part.1.word) := by
  induction parts generalizing afterDot with
  | nil => exact .nil
  | cons part parts ih =>
    obtain ⟨token, gap⟩ := part
    have hbreaks := hspaced.breaks source
    have hgap : ∀ char ∈ gap.toList, Text.isBlank char :=
      hspaced.blank (token, gap) List.mem_cons_self
    have hmore : Token.Spaced parts :=
      ⟨fun part hmem => hspaced.blank part (List.mem_cons_of_mem _ hmem), fun part hmem =>
        hspaced.apart part (by cases parts with
          | nil => cases hmem
          | cons next parts => exact List.mem_cons_of_mem _ hmem)⟩
    cases hexcerpts with
    | @cons _ _ _ kind first tail rest hslice hword hblank hread hrest =>
      have hchars : (Token.layout source ((token, gap) :: parts)).toList =
          first :: (tail ++ (gap.toList ++ (Token.layout source parts).toList)) := by
        simp [Token.layout, hslice]
      rw [hchars, List.map_cons, hword]
      exact .word hblank (Lexeme.read_of_breaks hread hbreaks) ((ih hrest hmore).blanks hgap)

/-! ## Trees and faults -/

/-- What a text is parsed to, without the places of its tokens. -/
def withoutPlaces (result : Except SyntaxError (Expr Token)) : Except SyntaxFault (Expr Word) :=
  (result.mapError SyntaxError.fault).map (Expr.mapMarks Token.word)

theorem withoutPlaces_parseTokens (dialect : Dialect) {tokens tokens' : List Token}
    (hwords : tokens.map Token.word = tokens'.map Token.word)
    (hend : ∃ token ∈ tokens, token.kind = .eof) :
    withoutPlaces (parseTokens (Grammar.wholeExpression dialect) tokens) =
      withoutPlaces (parseTokens (Grammar.wholeExpression dialect) tokens') := by
  have hrule := Grammar.shifts_wholeExpression Token.keeps_placeless dialect
  have hforget (tokens : List Token) (hend : ∃ token ∈ tokens, token.kind = .eof) :
      withoutPlaces (parseTokens (Grammar.wholeExpression dialect) tokens) =
        withoutPlaces (parseTokens (Grammar.wholeExpression dialect)
          (tokens.map Token.placeless)) := by
    unfold withoutPlaces
    rw [parseTokens_map Token.keeps_placeless hrule hend]
    cases (parseTokens (Grammar.wholeExpression dialect) tokens).mapError SyntaxError.fault with
    | error fault => rfl
    | ok expr =>
      exact congrArg Except.ok (Expr.mapMarks_mapMarks Token.placeless Token.word expr).symm
  rw [hforget tokens hend, Token.map_placeless_eq hwords, ← hforget tokens']
  exact Token.exists_eof_of_map_word hwords hend

/-- The words of an expression may be set apart in another way: the text is divided into the same
words, and it is parsed to the same tree but for the places, or fails with the same fault. -/
theorem parseExpression_layout {source lead : String} {parts : List (Token × String)}
    {final : Token} (hscan : Token.scanExpression source = .ok (parts.map Prod.fst ++ [final]))
    (hlead : ∀ char ∈ lead.toList, Text.isBlank char) (hspaced : Token.Spaced parts) :
    (∃ tokens, Token.scanExpression (lead ++ Token.layout source parts) = .ok tokens ∧
      tokens.map Token.word = parts.map (fun part => part.1.word) ++ [Word.eof]) ∧
    ∀ dialect, withoutPlaces (parseExpression dialect (lead ++ Token.layout source parts)) =
      withoutPlaces (parseExpression dialect source) := by
  obtain ⟨words, final', happend, hfinal, hexcerpts⟩ :=
    Token.excerpts_of_scanFrom hscan (List.drop_zero)
  obtain ⟨rfl, rfl⟩ : parts.map Prod.fst = words ∧ final = final' := by
    simpa using happend
  have hdivides : Divides false (lead ++ Token.layout source parts).toList
      (parts.map fun part => part.1.word) := by
    rw [String.toList_append]
    exact (hexcerpts.divides hspaced).blanks hlead
  obtain ⟨tokens, htokens, hwords⟩ := hdivides.scanFrom .start
  refine ⟨⟨tokens, htokens, hwords⟩, fun dialect => ?_⟩
  have hsame : tokens.map Token.word = (parts.map Prod.fst ++ [final]).map Token.word := by
    rw [hwords, List.map_append, List.map_map, List.map_singleton, hfinal]
    rfl
  have hend : ∃ token ∈ parts.map Prod.fst ++ [final], token.kind = .eof :=
    ⟨final, by simp, congrArg Word.kind hfinal⟩
  have hscan' : Token.scanExpression (lead ++ Token.layout source parts) = .ok tokens := htokens
  rw [parseExpression, parseExpression, hscan, hscan']
  exact withoutPlaces_parseTokens dialect hsame (Token.exists_eof_of_map_word hsame.symm hend)

set_option maxRecDepth 3000 in
/-- A position behind a dot stays one, however far from the dot it stands. -/
theorem parseExpression_layout_positions :
    withoutPlaces (parseExpression .standard "\ta .  0\n. 1") =
      withoutPlaces (parseExpression .standard "a.0.1") := by
  have hscan : Token.scanExpression "a.0.1" = .ok ([(⟨.name, "a", ⟨0, 1, 1, 1⟩⟩, " "),
      (⟨.dot, ".", ⟨1, 2, 1, 2⟩⟩, "  "), (⟨.integer, "0", ⟨2, 3, 1, 3⟩⟩, "\n"),
      (⟨.dot, ".", ⟨3, 4, 1, 4⟩⟩, " "), (⟨.integer, "1", ⟨4, 5, 1, 5⟩⟩, "")].map Prod.fst ++
        [⟨.eof, "", ⟨5, 5, 1, 6⟩⟩]) := by cbv
  have hspaced : Token.Spaced [(⟨.name, "a", ⟨0, 1, 1, 1⟩⟩, " "),
      (⟨.dot, ".", ⟨1, 2, 1, 2⟩⟩, "  "), (⟨.integer, "0", ⟨2, 3, 1, 3⟩⟩, "\n"),
      (⟨.dot, ".", ⟨3, 4, 1, 4⟩⟩, " "), (⟨.integer, "1", ⟨4, 5, 1, 5⟩⟩, "")] :=
    { apart := by decide
      blank := by
        intro part hpart char hchar
        have hspace : char = ' ' ∨ char = '\n' := by
          simp only [List.mem_cons, List.not_mem_nil, or_false] at hpart
          rcases hpart with rfl | rfl | rfl | rfl | rfl <;> simp_all
        rcases hspace with rfl | rfl <;> decide }
  have hlead : ∀ char ∈ "\t".toList, Text.isBlank char := by
    intro char hchar
    obtain rfl : char = '\t' := by simpa using hchar
    decide
  exact (parseExpression_layout hscan hlead hspaced).2 .standard

end Stencil
