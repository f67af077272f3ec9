import Stencil.Proofs.Canonical.Words
import Stencil.Proofs.Decimal.Signs
import Stencil.Proofs.Spelling
import Stencil.Proofs.Words.Scanned

/-!
# What scanned tokens guarantee

Whatever is spelled by tokens of a text has numbers without a sign, names that are no keywords,
strings that fit between quotes, and tests with the arguments that they need.
-/

namespace Stencil

open Grammar

/-- What the tokens guarantee of a node: all that its canonical text asks for, but that a test is
named by a word. -/
def Expr.Guaranteed {Mark : Type} : Expr Mark → Prop
  | test _ _ label argument => argument.isSome = Dialect.standard.takesArgument label
  | expr => expr.Writable

structure Grammar.ArgumentList.Guaranteed (values : ArgumentList) : Prop where
  positional : ∀ value ∈ values.positional, value.Everywhere Expr.Guaranteed
  named : ∀ value ∈ values.named.map Prod.snd, value.Everywhere Expr.Guaranteed
  distinct : (values.named.map Prod.fst).Nodup
  plain : ∀ key ∈ values.named.map Prod.fst, IsPlainName key

/-- All that is guaranteed holds of every node in the phrase. -/
def Phrase.Guaranteed : Phrase → Prop
  | expr _ value => value.Everywhere Expr.Guaranteed
  | items values => ∀ value ∈ values, value.Everywhere Expr.Guaranteed
  | pair value => value.1.Everywhere Expr.Guaranteed ∧ value.2.Everywhere Expr.Guaranteed
  | pairs values =>
    ∀ value ∈ values, value.1.Everywhere Expr.Guaranteed ∧ value.2.Everywhere Expr.Guaranteed
  | bound value => ∀ expr ∈ value, expr.Everywhere Expr.Guaranteed
  | argument before after | arguments before after => before.Guaranteed → after.Guaranteed
  | argumentList values | filterArguments values => values.Guaranteed
  | testArgument name value =>
    value.isSome = Dialect.standard.takesArgument name ∧
      ∀ expr ∈ value, expr.Everywhere Expr.Guaranteed

theorem Grammar.ArgumentList.guaranteed_empty : ArgumentList.Guaranteed {} :=
  ⟨by simp, by simp, by simp, by simp⟩

theorem Grammar.ArgumentList.Guaranteed.forall_mem {values : ArgumentList}
    (hvalues : values.Guaranteed) :
    ∀ value ∈ values.positional ++ values.named.map Prod.snd, value.Everywhere Expr.Guaranteed :=
  List.forall_mem_append.2 ⟨hvalues.positional, hvalues.named⟩

theorem everywhere_test {name : Token} {subject : Expr Token} {argument : Option (Expr Token)}
    (hsubject : subject.Everywhere Expr.Guaranteed)
    (hargument : (Phrase.testArgument name.text argument).Guaranteed) :
    (Expr.test name subject name.text argument).Everywhere Expr.Guaranteed := by
  refine Expr.Everywhere.node hargument.1 fun child hchild => ?_
  simp only [Expr.children, List.mem_cons, Option.mem_toList] at hchild
  rcases hchild with rfl | hchild
  · exact hsubject
  · exact hargument.2 child hchild

theorem Spells.guaranteed {separation : Separation} {phrase : Phrase} {tokens : List Token}
    (hspells : Spells separation .standard phrase tokens)
    (hscanned : ∀ token ∈ tokens, token.word.IsScanned) : phrase.Guaranteed := by
  induction hspells with
  | integer hkind hread =>
    obtain ⟨first, tail, htext, hdigit⟩ :=
      (hscanned _ List.mem_cons_self).isDigit (List.mem_cons.2 (.inl hkind))
    exact Expr.Everywhere.node (Decimal.nonneg_of_readInteger htext hdigit hread)
      (by simp [Expr.children])
  | float hkind hread hfinite =>
    obtain ⟨first, tail, htext, hdigit⟩ :=
      (hscanned _ List.mem_cons_self).isDigit (by simp [Token.word, hkind])
    exact Expr.Everywhere.node
      ⟨hfinite, Decimal.isNegative_of_readFloat htext hdigit hread⟩
      (by simp [Expr.children])
  | string hkind =>
    exact Expr.Everywhere.node ((hscanned _ List.mem_cons_self).quotable hkind)
      (by simp [Expr.children])
  | bool => exact Expr.Everywhere.node trivial (by simp [Expr.children])
  | name hkind hboolean hreserved =>
    have hname := (hscanned _ List.mem_cons_self).isName hkind
    exact Expr.Everywhere.node ⟨hname, hreserved, hboolean⟩ (by simp [Expr.children])
  | emptyList | emptyTuple | emptyDict =>
    exact Expr.Everywhere.node trivial (by simp [Expr.children])
  | group _ _ _ ih => exact ih fun token hmem => hscanned token (by simp [hmem])
  | list _ _ _ _ ih | tuple _ _ _ _ _ ih =>
    have hitems := ih fun token hmem => hscanned token (by simp [hmem])
    exact Expr.Everywhere.node trivial hitems
  | dict _ _ _ _ ih =>
    have hpairs := ih fun token hmem => hscanned token (by simp [hmem])
    refine Expr.Everywhere.node trivial fun child hchild => ?_
    obtain ⟨pair, hpair, hchild⟩ := List.mem_flatMap.1 hchild
    simp only [List.mem_cons, List.not_mem_nil, or_false] at hchild
    rcases hchild with rfl | rfl
    · exact (hpairs pair hpair).1
    · exact (hpairs pair hpair).2
  | @member _ _ _ selector _ hkind _ ih =>
    have hsubject := ih fun token hmem => hscanned token (by simp [hmem])
    have hselector := (hscanned selector (by simp)).isName hkind
    exact Expr.Everywhere.node hselector
      (by simpa [Expr.children, Phrase.Guaranteed] using hsubject)
  | position _ _ _ _ ih =>
    have hsubject := ih fun token hmem => hscanned token (by simp [hmem])
    exact Expr.Everywhere.node trivial
      (by simpa [Expr.children, Phrase.Guaranteed] using hsubject)
  | subscript _ _ _ _ ihSubject ihKey =>
    have hsubject := ihSubject fun token hmem => hscanned token (by simp [hmem])
    have hkey := ihKey fun token hmem => hscanned token (by simp [hmem])
    exact Expr.Everywhere.node trivial
      (by simpa [Expr.children, Phrase.Guaranteed] using And.intro hsubject hkey)
  | slice _ _ _ _ _ _ ihSubject ihStart ihStop =>
    have hsubject := ihSubject fun token hmem => hscanned token (by simp [hmem])
    have hstart := ihStart fun token hmem => hscanned token (by simp [hmem])
    have hstop := ihStop fun token hmem => hscanned token (by simp [hmem])
    refine Expr.Everywhere.node trivial fun child hchild => ?_
    simp only [Expr.children, List.mem_cons, List.mem_append, Option.mem_toList] at hchild
    rcases hchild with rfl | hchild | hchild
    · exact hsubject
    · exact hstart child hchild
    · exact hstop child hchild
  | call _ _ _ ihCallee ihValues =>
    have hcallee := ihCallee fun token hmem => hscanned token (by simp [hmem])
    have hvalues := ihValues fun token hmem => hscanned token (by simp [hmem])
    exact Expr.Everywhere.node ⟨hvalues.distinct, hvalues.plain⟩
      (List.forall_mem_cons.2 ⟨hcallee, hvalues.forall_mem⟩)
  | spread _ _ ih | namedSpread _ _ ih | signed _ _ ih | negation _ _ ih =>
    have hoperand := ih fun token hmem => hscanned token (by simp [hmem])
    exact Expr.Everywhere.node trivial
      (by simpa [Expr.children, Phrase.Guaranteed] using hoperand)
  | @filter _ _ _ name _ _ _ hkind _ _ ihSubject ihValues =>
    have hsubject := ihSubject fun token hmem => hscanned token (by simp [hmem])
    have hvalues := ihValues fun token hmem => hscanned token (by simp [hmem])
    have hname := (hscanned name (by simp)).isName hkind
    exact Expr.Everywhere.node ⟨hname, hvalues.distinct, hvalues.plain⟩
      (List.forall_mem_cons.2 ⟨hsubject, hvalues.forall_mem⟩)
  | binary _ _ _ ihLeft ihRight =>
    have hleft := ihLeft fun token hmem => hscanned token (by simp [hmem])
    have hright := ihRight fun token hmem => hscanned token (by simp [hmem])
    exact Expr.Everywhere.node trivial
      (by simpa [Expr.children, Phrase.Guaranteed] using And.intro hleft hright)
  | notMember _ _ _ _ ihLeft ihRight =>
    have hleft := ihLeft fun token hmem => hscanned token (by simp [hmem])
    have hright := ihRight fun token hmem => hscanned token (by simp [hmem])
    refine Expr.Everywhere.node trivial fun child hchild => ?_
    obtain rfl := List.mem_singleton.1 hchild
    exact Expr.Everywhere.node trivial
      (by simpa [Expr.children, Phrase.Guaranteed] using And.intro hleft hright)
  | test _ _ _ _ _ _ ihSubject ihArgument =>
    have hsubject := ihSubject fun token hmem => hscanned token (by simp [hmem])
    have hargument := ihArgument fun token hmem => hscanned token (by simp [hmem])
    exact everywhere_test hsubject hargument
  | notTest _ _ _ _ _ _ ihSubject ihArgument =>
    have hsubject := ihSubject fun token hmem => hscanned token (by simp [hmem])
    have hargument := ihArgument fun token hmem => hscanned token (by simp [hmem])
    refine Expr.Everywhere.node trivial fun child hchild => ?_
    obtain rfl := List.mem_singleton.1 hchild
    exact everywhere_test hsubject hargument
  | conditional _ _ _ ihConsequent ihCondition =>
    have hconsequent := ihConsequent fun token hmem => hscanned token (by simp [hmem])
    have hcondition := ihCondition fun token hmem => hscanned token (by simp [hmem])
    exact Expr.Everywhere.node trivial
      (by simpa [Expr.children, Phrase.Guaranteed] using And.intro hconsequent hcondition)
  | alternative _ _ _ _ _ ihConsequent ihCondition ihAlternative =>
    have hconsequent := ihConsequent fun token hmem => hscanned token (by simp [hmem])
    have hcondition := ihCondition fun token hmem => hscanned token (by simp [hmem])
    have halternative := ihAlternative fun token hmem => hscanned token (by simp [hmem])
    exact Expr.Everywhere.node trivial
      (by simpa [Expr.children, Phrase.Guaranteed] using
        And.intro hconsequent (And.intro hcondition halternative))
  | tighten _ ih => exact ih hscanned
  | oneItem _ ih | onePair _ ih => simpa [Phrase.Guaranteed] using ih hscanned
  | oneBound _ ih => simpa [Phrase.Guaranteed] using ih hscanned
  | moreItems _ _ _ ihMore ihLast | morePairs _ _ _ ihMore ihLast =>
    have hmore := ihMore fun token hmem => hscanned token (by simp [hmem])
    have hlast := ihLast fun token hmem => hscanned token (by simp [hmem])
    exact List.forall_mem_append.2 ⟨hmore, List.forall_mem_singleton.2 hlast⟩
  | pair _ _ _ ihKey ihValue =>
    exact ⟨ihKey fun token hmem => hscanned token (by simp [hmem]),
      ihValue fun token hmem => hscanned token (by simp [hmem])⟩
  | noBound => simp [Phrase.Guaranteed]
  | positional _ ih =>
    intro hbefore
    have hvalue := ih hscanned
    exact ⟨List.forall_mem_append.2 ⟨hbefore.positional, List.forall_mem_singleton.2 hvalue⟩,
      hbefore.named, hbefore.distinct, hbefore.plain⟩
  | named _ hfresh _ _ ihKey ihValue =>
    intro hbefore
    have hkey := (ihKey fun token hmem => hscanned token (by simp [hmem])).root
    have hvalue := ihValue fun token hmem => hscanned token (by simp [hmem])
    refine ⟨hbefore.positional, ?_, ?_, ?_⟩
    · rw [List.map_append]
      exact List.forall_mem_append.2 ⟨hbefore.named, List.forall_mem_singleton.2 hvalue⟩
    · rw [List.map_append]
      exact List.concat_eq_append ▸ hbefore.distinct.concat hfresh
    · rw [List.map_append]
      exact List.forall_mem_append.2 ⟨hbefore.plain, List.forall_mem_singleton.2 hkey⟩
  | lastArgument _ _ _ ih => exact ih fun token hmem => hscanned token (by simp [hmem])
  | moreArguments _ _ _ ihFirst ihMore =>
    intro hbefore
    have hfirst := ihFirst fun token hmem => hscanned token (by simp [hmem])
    have hmore := ihMore fun token hmem => hscanned token (by simp [hmem])
    exact hmore (hfirst hbefore)
  | noArguments | bareFilter => exact ArgumentList.guaranteed_empty
  | someArguments _ ih => exact ih hscanned ArgumentList.guaranteed_empty
  | filterCall _ _ ih => exact ih fun token hmem => hscanned token (by simp [hmem])
  | noArgument htakes => exact ⟨htakes.symm, by simp⟩
  | oneArgument htakes _ ih => exact ⟨htakes.symm, by simpa [Phrase.Guaranteed] using ih hscanned⟩

end Stencil
