import Stencil.Proofs.Cursor
import Stencil.Proofs.Places.Blame
import Stencil.Proofs.Places.Lossless

/-!
# Syntax errors point into the source

The place of every syntax error is that of a character of the source, or its end.  It is the start of
a token, unless the source cannot be divided into tokens: then it is the start of what no token
covers.
-/

namespace Stencil

open Grammar

/-- The stretches that are laid out before a place, behind which the text goes on, and the mode at
the place. -/
inductive Leads : ScanMode → Bool → List Char → List Char → ScanMode → Prop where
  | here {mode afterDot behind} : Leads mode afterDot [] behind mode
  | stretch {mode afterDot word? chars before behind mode' afterDot' last} :
      Token.Stretch mode afterDot word? chars (before ++ behind) mode' afterDot' →
      Leads mode' afterDot' before behind last →
      Leads mode afterDot (chars ++ before) behind last

/-- Scanning fails behind the stretches that can be laid out, at the start of what offends. -/
theorem Token.ScansTo.exists_offends {mode : ScanMode} {afterDot : Bool} {position : Position}
    {chars : List Char} {result : Except ScanError (List Token)} {error : ScanError}
    (hscans : ScansTo mode afterDot position chars result) (hresult : result = .error error) :
    ∃ before behind last fault, chars = before ++ behind ∧ Leads mode afterDot before behind last ∧
      Offends (.ofMode last) fault behind ∧
      error = .ofFault fault (position.afterAll before) := by
  induction hscans with
  | eof => cases hresult
  | @fault mode _ _ fault chars hoffends =>
    cases hresult
    exact ⟨[], chars, mode, fault, rfl, .here, hoffends, rfl⟩
  | @gap _ _ _ skipped _ _ _ _ hstretch _ ih =>
    obtain ⟨before, behind, last, fault, rfl, hleads, hoffends, rfl⟩ := ih hresult
    exact ⟨skipped ++ before, behind, last, fault, (List.append_assoc _ _ _).symm,
      .stretch hstretch hleads, hoffends, by rw [Position.afterAll_append]⟩
  | @token _ _ _ _ chars _ _ _ result hstretch _ ih =>
    cases result with
    | ok tokens => cases hresult
    | error error' =>
      cases hresult
      obtain ⟨before, behind, last, fault, rfl, hleads, hoffends, rfl⟩ := ih rfl
      exact ⟨chars ++ before, behind, last, fault, (List.append_assoc _ _ _).symm,
        .stretch hstretch hleads, hoffends, by rw [Position.afterAll_append]⟩

/-- The line and the column of an error are those of a place of the source. -/
structure SyntaxError.PointsTo (source : String) (offset : Nat) (error : SyntaxError) : Prop where
  within : offset ≤ source.toList.length
  line : error.line = lineAfter (source.toList.take offset)
  column : error.column = columnAfter (source.toList.take offset)

/-- What stands at the place of an error: a token of a source that can be divided into tokens, and
otherwise what offends behind the stretches that can be laid out. -/
def SyntaxError.Shows (error : SyntaxError) (mode : ScanMode) (source : String) (offset : Nat) :
    Except ScanError (List Token) → Prop
  | .ok tokens => ∃ token ∈ tokens, token.span.start = offset
  | .error _ => ∃ fault last, error.fault = .scan fault ∧
      Leads mode false (source.toList.take offset) (source.toList.drop offset) last ∧
      Offends (.ofMode last) fault (source.toList.drop offset)

theorem TokenStream.holds_ofTokens {tokens : List Token}
    (hend : ∃ token ∈ tokens, token.kind = .eof) : (ofTokens tokens).Holds (· ∈ tokens) where
  upcoming _ htoken := (List.takeWhile_sublist _).mem htoken
  final := by
    obtain ⟨final, hfinal⟩ := exists_find?_eof hend
    simpa [ofTokens, hfinal] using List.mem_of_find?_eq_some hfinal

namespace Token.Locates

variable {source : String} {tokens : List Token} (hlocates : Token.Locates source tokens)
include hlocates

theorem start_le : ∀ token ∈ tokens, token.span.start ≤ source.toList.length := by
  obtain ⟨words, final, rfl, -, hstart, -, hkinds⟩ := hlocates.ends
  refine List.forall_mem_append.2 ⟨fun token htoken => ?_, by simp [hstart]⟩
  obtain ⟨hstop, hempty⟩ := hlocates.spans token (List.mem_append_left _ htoken)
  exact (hempty (hkinds token htoken)).le.trans hstop

/-- A rule that fails on the tokens of a source fails at the start of one of them. -/
theorem exists_pointsTo {α : Type} {rule : Rule α} {error : SyntaxError}
    (hrule : Rule.BlamesOnly (· ∈ tokens) rule) (hparse : parseTokens rule tokens = .error error) :
    ∃ token ∈ tokens, error.PointsTo source token.span.start := by
  obtain ⟨words, final, hwords, hfinal, -⟩ := hlocates.ends
  have hblames := hrule
    (TokenStream.holds_ofTokens ⟨final, by simp [hwords], congrArg Word.kind hfinal⟩)
  rw [parseTokens_eq] at hparse
  rcases hrun : rule.runOn (.ofTokens tokens) with ⟨error' | value, rest⟩
  · rw [hrun] at hblames hparse
    cases hparse
    obtain ⟨token, htoken, hline, hcolumn⟩ := hblames
    obtain ⟨hplace, hplace'⟩ := hlocates.places token htoken
    exact ⟨token, htoken, hlocates.start_le token htoken, hline.trans hplace, hcolumn.trans hplace'⟩
  · rw [hrun] at hparse
    cases hparse

end Token.Locates

/-- A text is parsed by dividing it into tokens and reading those; the place of a failure of either
is a place of the text. -/
theorem exists_pointsTo_of_scan {α : Type} {rule : Rule α} {mode : ScanMode} {source : String}
    {error : SyntaxError} (hrule : ∀ Known : Token → Prop, Rule.BlamesOnly Known rule)
    (hparse : (match Token.scanFrom mode false .start source.toList with
      | .ok tokens => parseTokens rule tokens
      | .error error => .error (.ofScanError error)) = .error error) :
    ∃ offset, error.PointsTo source offset ∧
      error.Shows mode source offset (Token.scanFrom mode false .start source.toList) := by
  have hscans := Token.scansTo_scanFrom mode false .start source.toList
  cases hscan : Token.scanFrom mode false .start source.toList with
  | ok tokens =>
    rw [hscan] at hparse
    obtain ⟨token, htoken, hpoints⟩ :=
      (Token.covered_of_scanFrom hscan).locates.exists_pointsTo (hrule _) hparse
    exact ⟨token.span.start, hpoints, token, htoken, rfl⟩
  | error scanError =>
    rw [hscan] at hparse
    cases hparse
    obtain ⟨before, behind, last, fault, hsource, hleads, hoffends, rfl⟩ :=
      hscans.exists_offends hscan
    have htake : source.toList.take before.length = before := by rw [hsource, List.take_left]
    have hdrop : source.toList.drop before.length = behind := by rw [hsource, List.drop_left]
    refine ⟨before.length, ⟨by simp [hsource], ?_, ?_⟩, fault, last, rfl, ?_, ?_⟩
    · rw [htake, Position.afterAll_start]
      rfl
    · rw [htake, Position.afterAll_start]
      rfl
    · rwa [htake, hdrop]
    · rwa [hdrop]

/-- Every syntax error points into the source.  Its line and column are those of some offset: that
of a token if the source can be divided into tokens, and otherwise that of the character, string,
comment or statement at which scanning stops, or the end of the source in an open block. -/
theorem syntax_errors_point_into_source (dialect : Dialect) (source : String)
    (error : SyntaxError) :
    (parseExpression dialect source = .error error →
      ∃ offset, error.PointsTo source offset ∧
        error.Shows .expression source offset (Token.scanExpression source)) ∧
    (parseTemplate dialect source = .error error →
      ∃ offset, error.PointsTo source offset ∧
        error.Shows .literal source offset (Token.scanTemplate source)) :=
  ⟨exists_pointsTo_of_scan fun _ => (blames_wholeExpression dialect).only,
    exists_pointsTo_of_scan fun _ => blames_body dialect⟩

set_option maxRecDepth 100000 in
/-- A parenthesis that is not closed and a comment that does not end are blamed where they start. -/
theorem syntax_errors_point_into_source_unclosed :
    (∃ error offset, parseExpression .standard "a +\n f(b" = .error error ∧ error.column = 3 ∧
      error.PointsTo "a +\n f(b" offset ∧
      error.Shows .expression "a +\n f(b" offset (Token.scanExpression "a +\n f(b")) ∧
    ∃ error offset, parseTemplate .standard "a\n\x7b\x7b b \x7d\x7d\x7b# c" = .error error ∧
      error.column = 8 ∧
      error.PointsTo "a\n\x7b\x7b b \x7d\x7d\x7b# c" offset ∧
      error.Shows .literal "a\n\x7b\x7b b \x7d\x7d\x7b# c" offset
        (Token.scanTemplate "a\n\x7b\x7b b \x7d\x7d\x7b# c") := by
  constructor
  · have hparse : parseExpression .standard "a +\n f(b" = .error ⟨.unbalancedParen, 2, 3⟩ := by cbv
    obtain ⟨offset, hpoints, hshows⟩ := (syntax_errors_point_into_source _ _ _).1 hparse
    exact ⟨_, offset, hparse, rfl, hpoints, hshows⟩
  · have hparse : parseTemplate .standard "a\n\x7b\x7b b \x7d\x7d\x7b# c" =
        .error ⟨.scan .unterminatedComment, 2, 8⟩ := by cbv
    obtain ⟨offset, hpoints, hshows⟩ := (syntax_errors_point_into_source _ _ _).2 hparse
    exact ⟨_, offset, hparse, rfl, hpoints, hshows⟩

end Stencil
