import Stencil.Proofs.Block.Nodes
import Stencil.Proofs.Block.Scanning
import Stencil.Proofs.Evaluation.Places
import Stencil.Proofs.Evaluation.Repetition

/-!
# Expressions and their blocks

A text is an expression exactly if the same text between double braces is a template that writes
this expression, and where the expression has a value, the template writes it.
-/

namespace Stencil

namespace Token

theorem keeps_inBlock : Token.Keeps inBlock :=
  ⟨fun _ => rfl⟩

/-- The same token in a text that has two braces less at its start. -/
def outOfBlock (token : Token) : Token :=
  { token with
    span := ⟨token.span.start - 2, token.span.stop - 2, token.span.line,
      if token.span.line = 1 then token.span.column - 2 else token.span.column⟩ }

theorem outOfBlock_inBlock (token : Token) : token.inBlock.outOfBlock = token := by
  obtain ⟨kind, text, start, stop, line, column⟩ := token
  by_cases hline : line = 1
  · simp [inBlock, outOfBlock, hline]
  · simp [inBlock, outOfBlock, hline]

end Token

namespace Expr

/-- The same expression, every token of which stands behind two braces more. -/
def inBlock (expr : Expr Token) : Expr Token :=
  expr.mapMarks Token.inBlock

theorem inBlock_injective : Function.Injective Expr.inBlock :=
  mapMarks_injective Token.outOfBlock_inBlock

end Expr

namespace Grammar

open Rule

theorem parseTokens_block {dialect : Dialect} {tokens inner : List Token} {opening : Token}
    (hblock : Token.InBlock tokens inner) (hopening : opening.kind = .variableBegin) :
    (∃ expr, parseTokens (wholeExpression dialect) tokens = .ok expr ∧
        parseTokens (body dialect) (opening :: inner) = .ok [.output expr.inBlock]) ∨
      ∃ error error', parseTokens (wholeExpression dialect) tokens = .error error ∧
        parseTokens (body dialect) (opening :: inner) = .error error' := by
  obtain ⟨words, final, closing, last, rfl, rfl, hwords, hfinal, hclosing, hlast⟩ := hblock
  let block : Enclosure := ⟨Token.inBlock, Token.keeps_inBlock, ⟨[], last⟩, hlast⟩
  have hplain : ∀ token ∈ words, token.kind ∉ endKinds := hwords
  have hkinds : ∀ token ∈ opening :: (words.map Token.inBlock ++ [closing]),
      token.kind ≠ .eof := by
    simp only [List.mem_cons, List.mem_append, List.mem_map, List.not_mem_nil, or_false]
    rintro _ (rfl | ⟨token, hmem, rfl⟩ | rfl)
    · simp [hopening]
    · rw [block.kind_change]
      exact fun hkind => hplain token hmem (by simp [endKinds, hkind])
    · simp [hclosing]
  have hstream : TokenStream.ofTokens (opening :: (words.map Token.inBlock ++ [closing, last])) =
      block.behind.prepend (opening :: (words.map block.change ++ [closing])) := by
    have happend := TokenStream.ofTokens_append_singleton hkinds hlast
    simpa [TokenStream.prepend, block] using happend
  have hiff {nodes : List (Node Token)} : parseTokens (body dialect)
        (opening :: (words.map Token.inBlock ++ [closing, last])) = .ok nodes ↔
      ∃ expr more, parseTokens (wholeExpression dialect) (words ++ [final]) = .ok expr ∧
        nodes = .output expr.inBlock :: more ∧ Collects (node? dialect) block.behind more := by
    rw [parseTokens_body_iff, hstream]
    exact collects_block_iff block hopening hclosing hfinal hplain
  cases hexpr : parseTokens (wholeExpression dialect) (words ++ [final]) with
  | ok expr =>
    exact .inl ⟨expr, rfl, hiff.2 ⟨expr, [], hexpr, rfl, (collects_end_iff block.ends rfl).2 rfl⟩⟩
  | error error =>
    cases hbody : parseTokens (body dialect)
        (opening :: (words.map Token.inBlock ++ [closing, last])) with
    | error error' => exact .inr ⟨error, error', rfl, rfl⟩
    | ok nodes =>
      obtain ⟨expr, more, hparse, -⟩ := hiff.1 hbody
      cases hexpr.symm.trans hparse

end Grammar

namespace Evaluation

variable {evaluator : Evaluator} {depth : Nat} {context after : Context} {value : Value}

theorem evaluateExpr_inBlock {expr : Expr Token}
    (hrun : (ExceptT.run (evaluateExpr evaluator depth expr)).run context =
      some (.ok value, after)) :
    (ExceptT.run (evaluateExpr evaluator depth expr.inBlock)).run context =
      some (.ok value, after) :=
  evaluateExpr_mapMarks Token.keeps_inBlock hrun

theorem renderBody_output {expr : Expr Token}
    (hrun : (ExceptT.run (evaluateExpr evaluator depth expr)).run context =
      some (.ok value, after)) :
    (ExceptT.run (renderBody evaluator depth [.output expr])).run context =
      some (.ok value.display, after) := by
  have hbody : (executeBody evaluator depth "" [.output expr]).run context =
      some (("" ++ value.display, none), after) := by
    rw [executeBody, execute, StateT.run_bind]
    change ((ExceptT.run (evaluateExpr evaluator depth expr)).run context).bind _ = _
    rw [hrun]
    rfl
  rw [run_renderBody, hbody, String.empty_append]
  rfl

end Evaluation

open Evaluation

/-- An expression that closes no brace before it has opened it is one exactly if its text between
double braces is a template that writes it.  Where the expression has a value, the template writes
that value. -/
theorem parseTemplate_blockText {source : String} {tokens : List Token}
    (hscan : Token.scanExpression source = .ok tokens) (hbalanced : Token.Balanced 0 tokens) :
    (∀ dialect expr, parseExpression dialect source = .ok expr ↔
      parseTemplate dialect (Token.blockText source) = .ok [.output expr.inBlock]) ∧
    (∀ dialect nodes, parseTemplate dialect (Token.blockText source) = .ok nodes →
      ∃ expr, parseExpression dialect source = .ok expr ∧ nodes = [.output expr.inBlock]) ∧
    ∀ evaluator depth context value after,
      (ExceptT.run (evaluateSource evaluator depth source)).run context = some (.ok value, after) →
        (ExceptT.run (renderSource evaluator depth (Token.blockText source))).run context =
          some (.ok value.display, after) := by
  obtain ⟨opening, inner, hinner, hopening, hblock⟩ := Token.scanTemplate_blockText hscan hbalanced
  have hexpression (dialect : Dialect) : parseExpression dialect source =
      parseTokens (Grammar.wholeExpression dialect) tokens := by
    rw [parseExpression, hscan]
  have htemplate (dialect : Dialect) : parseTemplate dialect (Token.blockText source) =
      parseTokens (Grammar.body dialect) (opening :: inner) := by
    rw [parseTemplate, hinner]
  have hcases (dialect : Dialect) : (∃ expr, parseExpression dialect source = .ok expr ∧
        parseTemplate dialect (Token.blockText source) = .ok [.output expr.inBlock]) ∨
      ∃ error error', parseExpression dialect source = .error error ∧
        parseTemplate dialect (Token.blockText source) = .error error' := by
    rw [hexpression, htemplate]
    exact Grammar.parseTokens_block hblock hopening
  refine ⟨fun dialect expr => ?_, fun dialect nodes hnodes => ?_, ?_⟩
  · rcases hcases dialect with ⟨expr', hexpr, hbody⟩ | ⟨error, error', hexpr, hbody⟩
    · rw [hexpr, hbody]
      simp only [Except.ok.injEq, List.cons.injEq, Node.output.injEq, and_true]
      exact Expr.inBlock_injective.eq_iff.symm
    · rw [hexpr, hbody]
      simp
  · rcases hcases dialect with ⟨expr, hexpr, hbody⟩ | ⟨error, error', hexpr, hbody⟩
    · rw [hbody] at hnodes
      exact ⟨expr, hexpr, (Except.ok.inj hnodes).symm⟩
    · rw [hbody] at hnodes
      cases hnodes
  · intro evaluator depth context value after hrun
    rcases hcases .standard with ⟨expr, hexpr, hbody⟩ | ⟨error, error', hexpr, hbody⟩
    · rw [evaluateSource, hexpr] at hrun
      rw [renderSource, hbody]
      exact renderBody_output (evaluateExpr_inBlock hrun)
    · rw [evaluateSource, hexpr] at hrun
      cases hrun

set_option maxRecDepth 3000 in
/-- The brace that closes the dictionary stands right before the ones that close the block. -/
theorem parseTemplate_blockText_dict :
    ∃ tokens, Token.scanExpression "\x7b\x7d" = .ok tokens ∧ Token.Balanced 0 tokens ∧
      parseTemplate .standard (Token.blockText "\x7b\x7d") =
        .ok [.output (.dict ⟨.leftBrace, "\x7b", ⟨2, 3, 1, 3⟩⟩ [])] ∧
      (ExceptT.run (renderSource .bare 0 (Token.blockText "\x7b\x7d"))).run
        (Context.ofBindings 0 []) = some (.ok "\x7b\x7d", Context.ofBindings 0 []) := by
  have hscan : Token.scanExpression "\x7b\x7d" = .ok [⟨.leftBrace, "\x7b", ⟨0, 1, 1, 1⟩⟩,
      ⟨.rightBrace, "\x7d", ⟨1, 2, 1, 2⟩⟩, ⟨.eof, "", ⟨2, 2, 1, 3⟩⟩] := by cbv
  have hparse : parseExpression .standard "\x7b\x7d" =
      .ok (.dict ⟨.leftBrace, "\x7b", ⟨0, 1, 1, 1⟩⟩ []) := by
    rw [parseExpression, hscan]
    rfl
  have hbalanced : Token.Balanced 0 [⟨.leftBrace, "\x7b", ⟨0, 1, 1, 1⟩⟩,
      ⟨.rightBrace, "\x7d", ⟨1, 2, 1, 2⟩⟩, ⟨.eof, "", ⟨2, 2, 1, 3⟩⟩] := by decide
  obtain ⟨hiff, -, hrender⟩ := parseTemplate_blockText hscan hbalanced
  have hrun : (ExceptT.run (evaluateSource .bare 0 "\x7b\x7d")).run (Context.ofBindings 0 []) =
      some (.ok (.map []), Context.ofBindings 0 []) := by
    rw [evaluateSource, hparse]
    rfl
  exact ⟨_, hscan, hbalanced, (hiff _ _).1 hparse, hrender _ _ _ _ _ hrun⟩

end Stencil
