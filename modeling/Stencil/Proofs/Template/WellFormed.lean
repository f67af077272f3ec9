import Stencil.Proofs.Canonical.Guarantees
import Stencil.Proofs.Places.Coverage
import Stencil.Proofs.Spelling.Soundness
import Stencil.Proofs.Template.Composition

/-!
# Trees that texts are parsed to

Whatever a text is, the trees it is parsed to are well formed: the tokens of an expression come from
the scanner, be it a bare expression or one in a block of a template.
-/

namespace Stencil

open Grammar

/-- The words of the operators and the booleans. -/
def keywords : List String :=
  ["and", "or", "in", "not", "is", "true", "True", "false", "False"]

theorem IsPlainName.not_keyword {text : String} (hplain : IsPlainName text) :
    text ∉ keywords := by
  intro hmem
  have hreserved := hplain.not_reserved
  have hboolean := hplain.not_boolean
  simp only [keywords, List.mem_cons, List.not_mem_nil, or_false] at hmem
  rcases hmem with rfl | rfl | rfl | rfl | rfl | rfl | rfl | rfl | rfl
  all_goals simp [reservedNames, booleanValue?] at hreserved hboolean

namespace Expr

variable {Mark : Type}

/-- What a text can make of a node. -/
def WellFormed : Expr Mark → Prop
  | integer _ value => 0 ≤ value.toInt ∧ value.toInt ≤ 2 ^ 63 - 1
  | float _ value => value.isFinite ∧ Decimal.isNegative value = false
  | string _ value => Quotable value
  | name _ ident => ident ∉ keywords
  | call _ _ _ named | filter _ _ _ _ named =>
    (named.map Prod.fst).Nodup ∧ ∀ key ∈ named.map Prod.fst, key ∉ keywords
  | test _ _ label argument => argument.isSome = Dialect.standard.takesArgument label
  | _ => True

theorem Guaranteed.wellFormed {expr : Expr Mark} (hguaranteed : expr.Guaranteed) :
    expr.WellFormed := by
  have hnamed {named : List (String × Expr Mark)} (hdistinct : (named.map Prod.fst).Nodup)
      (hplain : ∀ key ∈ named.map Prod.fst, IsPlainName key) :
      (named.map Prod.fst).Nodup ∧ ∀ key ∈ named.map Prod.fst, key ∉ keywords :=
    ⟨hdistinct, fun key hkey => (hplain key hkey).not_keyword⟩
  cases expr with
  | integer _ value => exact ⟨hguaranteed, Int.le_sub_one_of_lt value.toInt_lt⟩
  | float | string | test => exact hguaranteed
  | name => exact IsPlainName.not_keyword hguaranteed
  | call => exact hnamed hguaranteed.1 hguaranteed.2
  | filter => exact hnamed hguaranteed.2.1 hguaranteed.2.2
  | _ => trivial

/-- The conditions do not concern the marks. -/
theorem wellFormed_mapMarks {Mark' : Type} (change : Mark → Mark') (expr : Expr Mark) :
    (expr.mapMarks change).WellFormed ↔ expr.WellFormed := by
  cases expr <;>
    simp [mapMarks, WellFormed, mapMarksNamed_eq_map, mapMarksOption_eq_map, Function.comp_def]

end Expr

theorem Encloses.isScanned {depth : Nat} {afterDot : Bool} {chars rest : List Char}
    {words : List Word} (hencloses : Encloses depth afterDot chars words rest) :
    ∀ word ∈ words, word.IsScanned := by
  induction hencloses with
  | close => exact List.forall_mem_nil _
  | blank _ _ ih => exact ih
  | word _ _ hread _ _ ih => exact List.forall_mem_cons.2 ⟨⟨_, _, _, _, hread, rfl⟩, ih⟩

theorem everywhere_wellFormed_of_parseTokens {tokens : List Token} {expr : Expr Token}
    (hparse : parseTokens (wholeExpression .standard) tokens = .ok expr)
    (hscanned : ∀ token ∈ tokens, token.kind ≠ .eof → token.word.IsScanned) :
    expr.Everywhere Expr.WellFormed := by
  have hinside : ∀ token ∈ tokens.takeWhile (fun token => token.kind != .eof),
      token.word.IsScanned := by
    intro token hmem
    exact hscanned token ((List.takeWhile_sublist _).mem hmem)
      (by simpa using List.mem_takeWhile_imp hmem)
  have hguaranteed : expr.Everywhere Expr.Guaranteed :=
    (spelled_of_parseTokens hparse).guaranteed hinside
  exact hguaranteed.imp fun _ => Expr.Guaranteed.wellFormed

theorem Composed.everywhere_wellFormed {chars : List Char} {nodes : List (Node Token)}
    (hcomposed : Composed .standard chars nodes) :
    ∀ expr, .output expr ∈ nodes → expr.Everywhere Expr.WellFormed := by
  induction hcomposed with
  | nil => exact fun _ hmem => nomatch hmem
  | char _ _ ih =>
    intro expr hmem
    exact ih expr ((List.mem_cons.1 hmem).resolve_left (by simp [Node.ofChar]))
  | comment _ _ ih => exact ih
  | block hencloses hparse _ ih =>
    intro expr hmem
    rcases List.mem_cons.1 hmem with hfirst | hrest
    · cases hfirst
      refine everywhere_wellFormed_of_parseTokens hparse fun token htoken hkind => ?_
      obtain ⟨word, hword, rfl⟩ := List.mem_map.1 htoken
      rcases List.mem_append.1 hword with hword | hend
      · exact hencloses.isScanned word hword
      · rw [List.mem_singleton.1 hend] at hkind
        exact absurd rfl hkind
    · exact ih expr hrest

/-- Every tree that a text is parsed to is well formed at every node. -/
theorem parsed_trees_are_wellFormed (source : String) :
    (∀ expr, parseExpression .standard source = .ok expr → expr.Everywhere Expr.WellFormed) ∧
      ∀ body, parseTemplate .standard source = .ok body →
        ∀ expr, .output expr ∈ body → expr.Everywhere Expr.WellFormed := by
  refine ⟨fun expr hparse => ?_, fun body hparse expr hmem => ?_⟩
  · unfold parseExpression at hparse
    cases hscan : Token.scanExpression source with
    | error error =>
      rw [hscan] at hparse
      cases hparse
    | ok tokens =>
      rw [hscan] at hparse
      exact everywhere_wellFormed_of_parseTokens hparse
        (Token.covered_of_scanFrom hscan).isScanned_of_expression
  · have hcomposed : Composed .standard source.toList (body.flatMap Node.pieces) :=
      composed_iff_parseTemplate.2 ⟨body, hparse, rfl⟩
    have hpiece : .output (expr.mapMarks Token.placeless) ∈ body.flatMap Node.pieces :=
      List.mem_flatMap.2 ⟨.output expr, hmem, List.mem_singleton_self _⟩
    exact (hcomposed.everywhere_wellFormed _ hpiece).of_mapMarks fun expr =>
      (Expr.wellFormed_mapMarks Token.placeless expr).1

set_option maxRecDepth 100000 in
/-- The sign in front of a number is not part of its literal. -/
theorem parsed_trees_are_wellFormed_negative :
    ∃ body, parseTemplate .standard "a\x7b\x7b f(k=-1) \x7d\x7d" = .ok body ∧ body.length = 2 ∧
      ∀ expr, .output expr ∈ body → expr.Everywhere Expr.WellFormed := by
  have hparse : parseTemplate .standard "a\x7b\x7b f(k=-1) \x7d\x7d" =
      .ok [.text "a", .output (.call ⟨.leftParen, "(", ⟨5, 6, 1, 6⟩⟩
        (.name ⟨.name, "f", ⟨4, 5, 1, 5⟩⟩ "f") []
        [("k", .signed ⟨.sub, "-", ⟨8, 9, 1, 9⟩⟩ .minus
          (.integer ⟨.integer, "1", ⟨9, 10, 1, 10⟩⟩ 1))])] := by cbv
  exact ⟨_, hparse, rfl, (parsed_trees_are_wellFormed _).2 _ hparse⟩

end Stencil
