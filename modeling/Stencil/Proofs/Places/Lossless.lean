import Stencil.Proofs.Places.Coverage

/-!
# Nothing is lost in scanning

The tokens of a source stand in its order and do not overlap; their texts and places are those of
the stretches that they cover.  What they leave out are blanks inside of an expression and comments
outside of all blocks.
-/

namespace Stencil

namespace Token

/-- Tokens and the stretches of the source that they stand for. -/
structure Locates (source : String) (tokens : List Token) : Prop where
  ordered : tokens.Pairwise fun token later => token.span.stop ≤ later.span.start
  ends : ∃ words final, tokens = words ++ [final] ∧ final.word = Word.eof ∧
    final.span.start = source.toList.length ∧ final.span.stop = source.toList.length ∧
    ∀ token ∈ words, token.kind ≠ .eof
  spans : ∀ token ∈ tokens, token.span.stop ≤ source.toList.length ∧
    (token.kind ≠ .eof → token.span.start < token.span.stop)
  texts : ∀ token ∈ tokens,
    (token.kind ≠ .string → token.text.toList = token.slice source) ∧
      (token.kind = .string → ∃ quote, Lexeme.isQuote quote ∧
        token.slice source = quote :: (token.text.toList ++ [quote]))
  places : ∀ token ∈ tokens,
    token.span.line = lineAfter (source.toList.take token.span.start) ∧
      token.span.column = columnAfter (source.toList.take token.span.start)

/-- No token covers the character at an index. -/
def LeftOut (tokens : List Token) (index : Nat) : Prop :=
  ∀ token ∈ tokens, index < token.span.start ∨ token.span.stop ≤ index

/-- The character at an index belongs to a comment, which ends with the first closing mark and has
nothing in common with any token. -/
def InComment (source : String) (tokens : List Token) (index : Nat) : Prop :=
  ∃ before body behind,
    source.toList = before ++ (('{' :: '#' :: (body ++ ['#', '}'])) ++ behind) ∧
      ¬ ['#', '}'] <:+: body ∧
      before.length ≤ index ∧ index < before.length + (body.length + 4) ∧
      ∀ token ∈ tokens, token.span.stop ≤ before.length ∨
        before.length + (body.length + 4) ≤ token.span.start

variable {region : Region} {source : String} {tokens : List Token} {index : Nat}

theorem Covered.locates (hcovered : Covered region .start source.toList tokens) :
    Locates source tokens where
  ordered := hcovered.pairwise
  ends := by
    obtain ⟨words, hwords, hkinds⟩ := hcovered.exists_eof
    have hoffset : (Position.start.afterAll source.toList).offset = source.toList.length := by
      rw [Position.afterAll_start]
    exact ⟨words, _, hwords, rfl, hoffset, hoffset, hkinds⟩
  spans token htoken := by
    obtain ⟨-, hstop, hempty⟩ := hcovered.bounds token htoken
    exact ⟨hstop.trans (Nat.zero_add _).le,
      fun hkind => hempty.resolve_right fun hboth => hkind hboth.1⟩
  texts token htoken := by
    obtain ⟨before, inner, behind, hsource, hplace, hreads⟩ := hcovered.exists_reads token htoken
    have hslice : token.slice source = inner := by
      have hdrop : source.toList.drop (Position.start.afterAll before).offset =
          inner ++ behind := by
        rw [Position.afterAll_start, hsource, List.drop_left]
      rw [hplace]
      exact slice_covering hdrop _ _
    rw [hslice]
    rcases hreads with hreads | ⟨hword, rfl⟩
    · exact hreads.text_eq
    · have hkind : token.kind = .eof := congrArg Word.kind hword
      have htext : token.text = "" := congrArg Word.text hword
      simp [hkind, htext]
  places token htoken := by
    obtain ⟨before, inner, behind, hsource, hplace, -⟩ := hcovered.exists_reads token htoken
    have hspan : token.span = .between (Position.start.afterAll before)
        ((Position.start.afterAll before).afterAll inner) := congrArg Token.span hplace
    have htake : source.toList.take token.span.start = before := by
      rw [hspan, hsource, Span.between, Position.afterAll_start, List.take_left]
    rw [htake, hspan, Span.between, Position.afterAll_start]
    exact ⟨rfl, rfl⟩

/-- What is left out is blank, unless it belongs to a comment in literal text. -/
theorem Covered.of_leftOut (hcovered : Covered region .start source.toList tokens) {char : Char}
    (hchar : source.toList[index]? = some char) (hleft : LeftOut tokens index) :
    if regionAt region tokens index = .literal then InComment source tokens index
    else Text.isBlank char := by
  have hlt : index < source.toList.length := (List.getElem?_eq_some_iff.1 hchar).1
  obtain ⟨before, skipped, behind, hsource, homits, hstart, hstop, hapart⟩ :=
    hcovered.omitted (Nat.zero_le index) (hlt.trans_eq (Nat.zero_add _).symm) hleft
  have hoffset : Position.start.offset + before.length = before.length := Nat.zero_add _
  rw [hoffset] at hstart hstop hapart
  generalize regionAt region tokens index = place at homits
  cases homits with
  | blank hregion hblank =>
    rw [if_neg hregion]
    have hindex : index = before.length := by
      rw [List.length_singleton] at hstop
      omega
    rw [hsource, hindex] at hchar
    simp only [List.getElem?_append_right le_rfl, Nat.sub_self, List.singleton_append,
      List.getElem?_cons_zero, Option.some.injEq] at hchar
    exact hchar ▸ hblank
  | @comment body hbody =>
    rw [if_pos rfl]
    have hlength : ('{' :: '#' :: (body ++ ['#', '}'])).length = body.length + 4 := by simp
    rw [hlength] at hstop hapart
    exact ⟨before, body, behind, hsource, hbody, hstart, hstop, hapart⟩

/-- Nothing is lost in scanning.  The tokens of a source stand in its order and do not overlap, and
their texts and places are those of what they cover.  In a bare expression only blanks are left
out, as in the blocks of a template; outside of its blocks, only comments are.  The delimiters of
blocks take turns, and literal text stands between blocks and opens none. -/
theorem scanning_is_lossless (source : String) :
    (∀ tokens, scanExpression source = .ok tokens → Locates source tokens ∧
      ∀ index char, source.toList[index]? = some char → LeftOut tokens index →
        Text.isBlank char) ∧
    ∀ tokens, scanTemplate source = .ok tokens → Locates source tokens ∧
      (∀ index char, source.toList[index]? = some char → LeftOut tokens index →
        if regionAt .literal tokens index = .literal then InComment source tokens index
        else Text.isBlank char) ∧
      (∃ count,
        (tokens.map Token.kind).filter (fun kind => kind ∈ [Kind.variableBegin, .variableEnd]) =
          (List.replicate count [Kind.variableBegin, .variableEnd]).flatten) ∧
      ∀ token ∈ tokens,
        (token.kind = .data → token.text ≠ "" ∧
          regionAt .literal tokens token.span.start = .literal ∧
          ∀ mark ∈ openingMarks, ¬ ['{', mark] <:+: token.text.toList) ∧
        (token.kind ∉ [Kind.data, .variableBegin, .variableEnd, .eof] →
          regionAt .literal tokens token.span.start = .block) := by
  refine ⟨fun tokens hscan => ?_, fun tokens hscan => ?_⟩
  · have hcovered := covered_of_scanFrom hscan
    refine ⟨hcovered.locates, fun index char hchar hleft => ?_⟩
    have hout := hcovered.of_leftOut hchar hleft
    rwa [Region.ofMode, hcovered.regionAt_expression, if_neg Region.noConfusion] at hout
  · have hcovered := covered_of_scanFrom hscan
    refine ⟨hcovered.locates, fun index char => hcovered.of_leftOut,
      hcovered.exists_delimiters Region.noConfusion, fun token htoken => ?_⟩
    obtain ⟨before, inner, behind, -, -, hreads⟩ := hcovered.exists_reads token htoken
    have hexpression : regionAt .literal tokens token.span.start ≠ .expression :=
      regionAt_ne_expression Region.noConfusion
    refine ⟨fun hkind => ?_, fun hkind => ?_⟩
    · have hdata := hreads.resolve_right fun heof => by
        have hword : token.kind = .eof := congrArg Word.kind heof.1
        simp [hkind] at hword
      rw [hkind] at hdata
      exact ⟨hdata.of_data.2.1, hdata.of_data.1, hdata.of_data.2.2⟩
    · have hword := hreads.resolve_right fun heof => hkind (by
        have hword : token.kind = .eof := congrArg Word.kind heof.1
        simp [hword])
      have hliteral := hword.region_ne_literal fun hmem => hkind (by simp_all)
      change regionAt .literal tokens token.span.start ≠ .literal at hliteral
      cases hregion : regionAt .literal tokens token.span.start with
      | literal => exact absurd hregion hliteral
      | expression => exact absurd hregion hexpression
      | block => rfl

/-- A comment and a string with line feeds, and the column of what stands behind them. -/
theorem scanning_is_lossless_comment :
    ∃ tokens, scanTemplate "a\x7b# b\n #\x7d\x7b\x7b 'c\n' \x7d\x7d" = .ok tokens ∧
      InComment "a\x7b# b\n #\x7d\x7b\x7b 'c\n' \x7d\x7d" tokens 5 ∧
      ∀ token ∈ tokens, token.kind = .eof → token.span.column = 5 := by
  have hscan : scanTemplate "a\x7b# b\n #\x7d\x7b\x7b 'c\n' \x7d\x7d" =
      .ok [⟨.data, "a", ⟨0, 1, 1, 1⟩⟩, ⟨.variableBegin, "\x7b\x7b", ⟨9, 11, 2, 4⟩⟩,
        ⟨.string, "c\n", ⟨12, 16, 2, 7⟩⟩, ⟨.variableEnd, "\x7d\x7d", ⟨17, 19, 3, 3⟩⟩,
        ⟨.eof, "", ⟨19, 19, 3, 5⟩⟩] := by cbv
  obtain ⟨hlocates, hleft, -⟩ := (scanning_is_lossless _).2 _ hscan
  refine ⟨_, hscan, hleft 5 '\n' rfl (by simp [LeftOut]), fun token htoken hkind => ?_⟩
  rw [(hlocates.places token htoken).2]
  simp only [List.mem_cons, List.not_mem_nil, or_false] at htoken
  rcases htoken with rfl | rfl | rfl | rfl | rfl
  all_goals first | rfl | cases hkind

end Token

end Stencil
