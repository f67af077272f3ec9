import Stencil.Proofs.Places.Lossless
import Stencil.Proofs.Spelling.Soundness

/-!
# The tokens that a tree keeps

Every node of a parsed tree keeps a token of the source as its mark.  The children of a node keep
tokens of parts of the source that have nothing in common, and the token of the node itself is in
none of them, although it may stand in the middle of one.
-/

namespace Stencil

open Grammar
open scoped List

theorem subperm_flatMap {α β : Type} {first second : α → List β} {items : List α}
    (hitems : ∀ item ∈ items, first item <+~ second item) :
    items.flatMap first <+~ items.flatMap second := by
  induction items with
  | nil => exact .refl _
  | cons item items ih =>
    obtain ⟨hitem, hrest⟩ := List.forall_mem_cons.1 hitems
    exact hitem.append (ih hrest)

namespace Expr

variable {Mark : Type}

/-- All nodes of a tree, each of them before the nodes below it. -/
def nodes (expr : Expr Mark) : List (Expr Mark) :=
  expr :: expr.children.attach.flatMap fun child => child.1.nodes
termination_by sizeOf expr
decreasing_by exact sizeOf_lt_of_mem_children child.2

theorem nodes_eq (expr : Expr Mark) : expr.nodes = expr :: expr.children.flatMap nodes := by
  rw [nodes, List.flatMap_subtype]
  · rw [List.unattach_attach]
  · exact fun _ _ => rfl

/-- The marks of all nodes. -/
def marks (expr : Expr Mark) : List Mark :=
  expr.nodes.map mark

theorem marks_eq (expr : Expr Mark) : expr.marks = expr.mark :: expr.children.flatMap marks := by
  rw [marks, nodes_eq, List.map_cons, List.map_flatMap]
  rfl

def isBinary : Expr Mark → Bool
  | binary .. => true
  | _ => false

/-- The tree keeps tokens of a list.  The children of a node keep tokens of parts of the list, which
follow one another in some order, and the token of the node is in none of these parts; that of a
binary operator stands between its operands. -/
inductive Keeps : Expr Token → List Token → Prop where
  | node {expr tokens} (parts : List (Expr Token × List Token)) :
      expr.isBinary = false →
      parts.map Prod.fst ~ expr.children → (∀ part ∈ parts, Keeps part.1 part.2) →
      parts.flatMap Prod.snd <+ tokens → expr.mark :: parts.flatMap Prod.snd <+~ tokens →
      Keeps expr tokens
  | binary {token op left right leftTokens rightTokens tokens} :
      Keeps left leftTokens → Keeps right rightTokens →
      leftTokens ++ token :: rightTokens <+ tokens →
      Keeps (.binary token op left right) tokens

variable {expr value operand : Expr Token} {values values' : List (Expr Token)} {token : Token}
  {tokens tokens' more : List Token}

theorem Keeps.mono (hkeeps : expr.Keeps tokens) (hsub : tokens <+ tokens') : expr.Keeps tokens' := by
  cases hkeeps with
  | node parts hbinary hchildren hparts hordered hmark =>
    exact .node parts hbinary hchildren hparts (hordered.trans hsub) (hmark.trans hsub.subperm)
  | binary hleft hright hordered => exact .binary hleft hright (hordered.trans hsub)

/-- Every token is kept by at most one node. -/
theorem Keeps.marks_subperm (hkeeps : expr.Keeps tokens) : expr.marks <+~ tokens := by
  induction hkeeps with
  | @node expr tokens parts _ hchildren _ _ hmark ih =>
    have hbelow : expr.children.flatMap marks <+~ parts.flatMap Prod.snd := by
      refine (hchildren.symm.flatMap fun _ _ => .rfl).subperm.trans ?_
      rw [List.flatMap_map]
      exact subperm_flatMap ih
    rw [marks_eq]
    exact ((List.subperm_cons _).2 hbelow).trans hmark
  | @binary token op left right leftTokens rightTokens tokens _ _ hordered ihLeft ihRight =>
    refine .trans ?_ hordered.subperm
    rw [marks_eq]
    simp only [children, List.flatMap_cons, List.flatMap_nil, List.append_nil]
    refine ((List.subperm_cons _).2 (ihLeft.append ihRight)).trans ?_
    exact List.perm_middle.symm.subperm

/-! ## Trees side by side -/

/-- The trees keep tokens of parts of a list that follow one another. -/
def KeepInTurn (values : List (Expr Token)) (tokens : List Token) : Prop :=
  ∃ parts : List (Expr Token × List Token), parts.map Prod.fst = values ∧
    (∀ part ∈ parts, part.1.Keeps part.2) ∧ parts.flatMap Prod.snd <+ tokens

namespace KeepInTurn

theorem nil : KeepInTurn [] tokens :=
  ⟨[], rfl, by simp, by simp⟩

theorem one (hkeeps : value.Keeps tokens) : KeepInTurn [value] tokens :=
  ⟨[(value, tokens)], rfl, by simpa, by simp⟩

theorem mono (hkeep : KeepInTurn values tokens) (hsub : tokens <+ tokens') :
    KeepInTurn values tokens' := by
  obtain ⟨parts, hvalues, hparts, hordered⟩ := hkeep
  exact ⟨parts, hvalues, hparts, hordered.trans hsub⟩

theorem append (hkeep : KeepInTurn values tokens) (hkeep' : KeepInTurn values' tokens') :
    KeepInTurn (values ++ values') (tokens ++ tokens') := by
  obtain ⟨parts, rfl, hparts, hordered⟩ := hkeep
  obtain ⟨parts', rfl, hparts', hordered'⟩ := hkeep'
  refine ⟨parts ++ parts', List.map_append, List.forall_mem_append.2 ⟨hparts, hparts'⟩, ?_⟩
  rw [List.flatMap_append]
  exact hordered.append hordered'

theorem append_cons (hkeep : KeepInTurn values tokens) (hkeep' : KeepInTurn values' tokens') :
    KeepInTurn (values ++ values') (tokens ++ token :: tokens') :=
  hkeep.append (hkeep'.mono (List.sublist_cons_self _ _))

/-- A node whose token stands between the parts of its children. -/
theorem keeps (hahead : KeepInTurn values tokens) (hbehind : KeepInTurn values' tokens')
    (hbinary : expr.isBinary = false)
    (hchildren : values ++ values' ~ expr.children)
    (hsub : tokens ++ expr.mark :: tokens' <+ more) : expr.Keeps more := by
  obtain ⟨parts, hvalues, hparts, hordered⟩ := hahead.append hbehind
  have hmark : expr.mark :: parts.flatMap Prod.snd <+~ tokens ++ expr.mark :: tokens' :=
    ((List.subperm_cons _).2 hordered.subperm).trans List.perm_middle.symm.subperm
  have hskip : tokens ++ tokens' <+ tokens ++ expr.mark :: tokens' :=
    (List.Sublist.refl tokens).append (List.sublist_cons_self _ _)
  exact .node parts hbinary (hvalues ▸ hchildren) hparts ((hordered.trans hskip).trans hsub)
    (hmark.trans hsub.subperm)

end KeepInTurn

theorem keeps_leaf (hbinary : expr.isBinary = false)
    (hchildren : expr.children = []) (htoken : expr.mark ∈ tokens) : expr.Keeps tokens := by
  have hnone : KeepInTurn [] [] := .nil
  exact hnone.keeps hnone hbinary (by rw [hchildren]; rfl) (List.singleton_sublist.2 htoken)

/-- A node whose token stands before all of its children. -/
theorem KeepInTurn.keeps_prefix (hkeep : KeepInTurn values tokens)
    (hbinary : expr.isBinary = false)
    (hchildren : values ~ expr.children) (hsub : expr.mark :: tokens <+ more) :
    expr.Keeps more := by
  have hnone : KeepInTurn [] [] := .nil
  exact hnone.keeps hkeep hbinary hchildren hsub

/-- A negating word may stand in the middle of its operand. -/
theorem Keeps.negation (hkeeps : operand.Keeps (tokens ++ tokens')) :
    (Expr.negation token operand).Keeps (tokens ++ token :: tokens') := by
  refine .node [(operand, tokens ++ tokens')] rfl .rfl (by simpa) ?_ ?_
  · simp
  · simpa [mark] using List.perm_middle.symm.subperm

end Expr

/-- One token ends before the other one starts. -/
def Token.Before (first second : Token) : Prop :=
  first.span.stop ≤ second.span.start

namespace Expr

variable {expr : Expr Token} {tokens : List Token}

/-- All tokens of one tree come before all tokens of the other. -/
def Before (first second : Expr Token) : Prop :=
  ∀ token ∈ first.marks, ∀ token' ∈ second.marks, token.Before token'

/-- The tokens below a node stand apart, and those of an operator between those of its operands. -/
structure StandsApart (expr : Expr Token) : Prop where
  children : expr.children.Pairwise fun first second => first.Before second ∨ second.Before first
  operands : ∀ token op left right, expr = .binary token op left right →
    (∀ before ∈ left.marks, before.Before token) ∧ ∀ behind ∈ right.marks, token.Before behind

theorem Keeps.standsApart (hkeeps : expr.Keeps tokens) (hordered : tokens.Pairwise Token.Before) :
    expr.Everywhere StandsApart := by
  induction hkeeps with
  | @node expr tokens parts hbinary hchildren hparts hsub _ ih =>
    obtain ⟨hinside, hbetween⟩ := List.pairwise_flatMap.1 (hordered.sublist hsub)
    refine .node ⟨?_, fun token op left right hexpr => ?_⟩ ?_
    · refine (hchildren.pairwise_iff (fun hor => hor.symm)).1 (List.pairwise_map.2 ?_)
      refine hbetween.imp_of_mem fun {first second} hfirst hsecond hbefore => .inl ?_
      intro token htoken token' htoken'
      exact hbefore token ((hparts first hfirst).marks_subperm.subset htoken) token'
        ((hparts second hsecond).marks_subperm.subset htoken')
    · subst hexpr
      cases hbinary
    · intro child hchild
      obtain ⟨part, hpart, rfl⟩ := List.mem_map.1 (hchildren.symm.subset hchild)
      exact ih part hpart (hinside part hpart)
  | @binary token op left right leftTokens rightTokens tokens hleft hright hsub ihLeft ihRight =>
    obtain ⟨hleftTokens, hbehind, hbefore⟩ := List.pairwise_append.1 (hordered.sublist hsub)
    obtain ⟨hafter, hrightTokens⟩ := List.pairwise_cons.1 hbehind
    have hoperands : left.Before right := fun first hfirst second hsecond =>
      hbefore first (hleft.marks_subperm.subset hfirst) second
        (List.mem_cons_of_mem _ (hright.marks_subperm.subset hsecond))
    refine .node ⟨?_, ?_⟩ ?_
    · simpa [Expr.children] using .inl hoperands
    · rintro _ _ _ _ ⟨⟩
      exact ⟨fun before hmem => hbefore before (hleft.marks_subperm.subset hmem) token
          List.mem_cons_self,
        fun behind hmem => hafter behind (hright.marks_subperm.subset hmem)⟩
    · simpa [Expr.children] using ⟨ihLeft hleftTokens, ihRight hrightTokens⟩

end Expr

/-! ## Spellings -/

/-- All arguments; the order among positional and named ones is lost. -/
def Grammar.ArgumentList.values (arguments : ArgumentList) : List (Expr Token) :=
  arguments.positional ++ arguments.named.map Prod.snd

/-- The trees of the phrase keep tokens of a list. -/
def Phrase.Keeps (tokens : List Token) : Phrase → Prop
  | expr _ value => value.Keeps tokens
  | items values => Expr.KeepInTurn values tokens
  | pair value => Expr.KeepInTurn [value.1, value.2] tokens
  | pairs values => Expr.KeepInTurn (values.flatMap fun (key, value) => [key, value]) tokens
  | bound value | testArgument _ value => Expr.KeepInTurn value.toList tokens
  | argument before after | arguments before after =>
    ∃ added, before.values ++ added ~ after.values ∧ Expr.KeepInTurn added tokens
  | argumentList values | filterArguments values =>
    ∃ added, added ~ values.values ∧ Expr.KeepInTurn added tokens

theorem Spells.keeps {separation : Separation} {dialect : Dialect} {phrase : Phrase}
    {tokens : List Token} (hspells : Spells separation dialect phrase tokens) :
    phrase.Keeps tokens := by
  induction hspells with
  | integer | float | string | bool | name | emptyList | emptyTuple | emptyDict =>
    exact Expr.keeps_leaf rfl rfl List.mem_cons_self
  | group _ _ _ ih =>
    exact Expr.Keeps.mono ih ((List.sublist_append_left _ _).cons _)
  | list _ _ _ _ ih | tuple _ _ _ _ _ ih | dict _ _ _ _ ih =>
    have hitems : Expr.KeepInTurn _ _ := ih
    exact hitems.keeps_prefix rfl .rfl ((List.sublist_append_left _ _).cons_cons _)
  | member _ _ _ ih | position _ _ _ _ ih =>
    have hsubject : Expr.KeepInTurn _ _ := .one ih
    exact hsubject.keeps (.nil : Expr.KeepInTurn [] []) rfl .rfl (by simp [Expr.mark])
  | subscript _ _ _ _ ihSubject ihKey =>
    have hsubject : Expr.KeepInTurn _ _ := .one ihSubject
    exact hsubject.keeps (.one ihKey) rfl .rfl (by simp [Expr.mark])
  | slice _ _ _ _ _ _ ihSubject ihStart ihStop =>
    have hsubject : Expr.KeepInTurn _ _ := .one ihSubject
    have hbounds : Expr.KeepInTurn _ _ := Expr.KeepInTurn.append ihStart ihStop
    refine hsubject.keeps hbounds rfl .rfl ?_
    exact (List.Sublist.refl _).append (((List.Sublist.refl _).append
      ((List.sublist_append_left _ _).cons _)).cons_cons _)
  | call _ _ _ ihCallee ihValues =>
    obtain ⟨added, hadded, hvalues⟩ := ihValues
    have hcallee : Expr.KeepInTurn _ _ := .one ihCallee
    exact hcallee.keeps hvalues rfl (hadded.cons _) (.refl _)
  | spread _ _ ih | namedSpread _ _ ih | signed _ _ ih | negation _ _ ih =>
    have hoperand : Expr.KeepInTurn _ _ := .one ih
    exact hoperand.keeps_prefix rfl .rfl (.refl _)
  | filter _ _ _ _ ihSubject ihValues =>
    obtain ⟨added, hadded, hvalues⟩ := ihValues
    have hsubject : Expr.KeepInTurn _ _ := .one ihSubject
    exact hsubject.keeps hvalues rfl (hadded.cons _)
      ((List.Sublist.refl _).append (List.sublist_cons_self _ _))
  | binary _ _ _ ihLeft ihRight => exact .binary ihLeft ihRight (.refl _)
  | notMember _ _ _ _ ihLeft ihRight =>
    exact Expr.Keeps.negation (.binary ihLeft ihRight (.refl _))
  | test _ _ _ _ _ _ ihSubject ihArgument =>
    have hsubject : Expr.KeepInTurn _ _ := .one ihSubject
    have hargument : Expr.KeepInTurn _ _ := ihArgument
    exact hsubject.keeps hargument rfl .rfl
      ((List.Sublist.refl _).append (List.sublist_cons_self _ _))
  | notTest _ _ _ _ _ _ ihSubject ihArgument =>
    have hsubject : Expr.KeepInTurn _ _ := .one ihSubject
    have hargument : Expr.KeepInTurn _ _ := ihArgument
    refine Expr.Keeps.mono (.negation (hsubject.keeps hargument rfl .rfl (.refl _))) ?_
    exact (List.Sublist.refl _).append (List.sublist_cons_self _ _)
  | conditional _ _ _ ihConsequent ihCondition =>
    have hconsequent : Expr.KeepInTurn _ _ := .one ihConsequent
    exact hconsequent.keeps (.one ihCondition) rfl .rfl (.refl _)
  | alternative _ _ _ _ _ ihConsequent ihCondition ihAlternative =>
    have hconsequent : Expr.KeepInTurn _ _ := .one ihConsequent
    have hcondition : Expr.KeepInTurn _ _ := .one ihCondition
    refine hconsequent.keeps (hcondition.append (.one ihAlternative)) rfl .rfl ?_
    exact (List.Sublist.refl _).append (((List.Sublist.refl _).append
      (List.sublist_cons_self _ _)).cons_cons _)
  | tighten _ ih => exact ih
  | oneItem _ ih | oneBound _ ih | oneArgument _ _ ih => exact .one ih
  | moreItems _ _ _ ihMore ihLast =>
    exact Expr.KeepInTurn.append_cons ihMore (.one ihLast)
  | pair _ _ _ ihKey ihValue =>
    have hkey : Expr.KeepInTurn _ _ := .one ihKey
    exact hkey.append_cons (.one ihValue)
  | onePair _ ih => exact ih
  | morePairs _ _ _ ihMore ihLast =>
    rw [Phrase.Keeps, List.flatMap_append]
    exact Expr.KeepInTurn.append_cons ihMore ihLast
  | noBound | noArgument => exact .nil
  | @positional before value tokens _ ih =>
    refine ⟨[value], ?_, .one ih⟩
    simp only [ArgumentList.values, List.append_assoc]
    exact List.perm_append_comm.append_left _
  | @named before _ _ value _ _ _ _ _ _ _ _ ihValue =>
    have hvalue : Expr.KeepInTurn _ _ := .one ihValue
    refine ⟨[value], .of_eq (by simp [ArgumentList.values]), hvalue.mono ?_⟩
    exact (List.sublist_cons_self _ _).trans (List.sublist_append_right _ _)
  | lastArgument _ _ _ ih =>
    obtain ⟨added, hadded, hkeep⟩ := ih
    exact ⟨added, hadded, hkeep.mono (List.sublist_append_left _ _)⟩
  | moreArguments _ _ _ ihFirst ihMore =>
    obtain ⟨first, hfirst, hkeepFirst⟩ := ihFirst
    obtain ⟨more, hmore, hkeepMore⟩ := ihMore
    refine ⟨first ++ more, ?_, hkeepFirst.append (hkeepMore.mono (List.sublist_append_right _ _))⟩
    rw [← List.append_assoc]
    exact (hfirst.append_right more).trans hmore
  | noArguments | bareFilter => exact ⟨[], .rfl, .nil⟩
  | someArguments _ ih => exact ih
  | filterCall _ _ ih =>
    obtain ⟨added, hadded, hkeep⟩ := ih
    exact ⟨added, hadded, hkeep.mono (List.sublist_cons_self _ _)⟩

/-! ## Sources -/

/-- The tokens before the end are words of the source, each at a place of its own. -/
theorem Token.Locates.exists_words {source : String} {tokens : List Token}
    (hlocates : Locates source tokens) :
    ∃ words final, tokens = words ++ [final] ∧
      tokens.takeWhile (fun token => token.kind != .eof) = words ∧
      words.Pairwise Token.Before ∧ words.Nodup := by
  obtain ⟨words, final, rfl, hfinal, -, -, hkinds⟩ := hlocates.ends
  have hkind : final.kind = .eof := congrArg Word.kind hfinal
  have hordered : words.Pairwise Token.Before := (List.pairwise_append.1 hlocates.ordered).1
  refine ⟨words, final, rfl, ?_, hordered, hordered.imp_of_mem ?_⟩
  · rw [List.takeWhile_append_of_pos (by simpa using hkinds)]
    simp [hkind]
  · rintro token _ htoken - hbefore rfl
    have hlt := (hlocates.spans token (List.mem_append_left _ htoken)).2 (hkinds token htoken)
    exact absurd hbefore (not_le.2 hlt)

/-- Nodes never share a token.  Every node of a parsed tree keeps a token that was scanned from the
source and that no other node keeps, so that there are fewer nodes than tokens.  At every node the
tokens kept below one child come before those kept below another one, or behind them, and the token
of a binary operator stands between those of its operands. -/
theorem nodes_never_share_tokens {dialect : Dialect} {source : String} {expr : Expr Token}
    (hparse : parseExpression dialect source = .ok expr) :
    ∃ tokens, Token.scanExpression source = .ok tokens ∧ (∀ token ∈ expr.marks, token ∈ tokens) ∧
      expr.marks.Nodup ∧ expr.nodes.length < tokens.length ∧
      expr.Everywhere Expr.StandsApart := by
  unfold parseExpression at hparse
  cases hscan : Token.scanExpression source with
  | error error =>
    rw [hscan] at hparse
    cases hparse
  | ok tokens =>
    rw [hscan] at hparse
    obtain ⟨words, final, rfl, hwords, hordered, hnodup⟩ :=
      (Token.covered_of_scanFrom hscan).locates.exists_words
    have hkeeps : expr.Keeps words := hwords ▸ (spelled_of_parseTokens hparse).keeps
    have hmarks := hkeeps.marks_subperm
    refine ⟨_, rfl, fun token htoken => ?_, ?_, ?_, hkeeps.standsApart hordered⟩
    · exact List.mem_append_left _ (hmarks.subset htoken)
    · obtain ⟨kept, hperm, hsub⟩ := hmarks
      exact hperm.nodup_iff.1 (hnodup.sublist hsub)
    · have hlength := hmarks.length_le
      rw [Expr.marks, List.length_map] at hlength
      rw [List.length_append, List.length_singleton]
      omega

set_option maxRecDepth 100000 in
/-- The word `not` stands in the middle of its operand. -/
theorem nodes_never_share_tokens_not_in :
    ∃ expr, parseExpression .standard "a not in [b]" = .ok expr ∧
      ∃ tokens, Token.scanExpression "a not in [b]" = .ok tokens ∧
        (∀ token ∈ expr.marks, token ∈ tokens) ∧ expr.marks.Nodup ∧
        expr.nodes.length < tokens.length ∧ expr.Everywhere Expr.StandsApart := by
  have hparse : parseExpression .standard "a not in [b]" =
      .ok (.negation ⟨.name, "not", ⟨2, 5, 1, 3⟩⟩
        (.binary ⟨.name, "in", ⟨6, 8, 1, 7⟩⟩ .mem (.name ⟨.name, "a", ⟨0, 1, 1, 1⟩⟩ "a")
          (.list ⟨.leftBracket, "[", ⟨9, 10, 1, 10⟩⟩ [.name ⟨.name, "b", ⟨10, 11, 1, 11⟩⟩ "b"]))) := by
    cbv
  exact ⟨_, hparse, nodes_never_share_tokens hparse⟩

end Stencil
