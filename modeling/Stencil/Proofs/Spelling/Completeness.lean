import Stencil.Proofs.Cursor
import Stencil.Proofs.Spelling.Completeness.Operand

/-!
# Every spelling is read

The other direction: where the commas between arguments are there, the grammar reads a spelling back
to the very tree that it spells.  The loops have to end in the right place, which is where the next
token joins a looser level.
-/

namespace Stencil.Grammar

open Rule

variable {dialect : Dialect} {expression : ExprRule} {rest after : TokenStream}
variable {value left right : Expr Token} {token word : Token} {tokens more : List Token}

/-! ## Operators -/

theorem reads_operatorOf_some {kinds : List Kind} {op : BinaryOp} (hkind : token.kind ∈ kinds)
    (hop : arithmeticOp? token.kind = some op) :
    Reads (operatorOf kinds) (rest.prepend (token :: tokens)) (some (op, token))
      (rest.prepend tokens) := by
  refine (reads_take?_some hkind).bind (reads_pure.2 ⟨?_, rfl⟩)
  rw [hop]
  rfl

theorem reads_wordOperator_some {op : BinaryOp} {text : String} (hword : token.isName [text]) :
    Reads (wordOperator text op) (rest.prepend (token :: tokens)) (some (op, token))
      (rest.prepend tokens) :=
  (reads_takeName?_some hword).bind (reads_pure.2 ⟨rfl, rfl⟩)

/-- An operator is found at its level, and nothing tighter goes on where it stands. -/
theorem reads_operatorAt_some {op : BinaryOp} {operator : Rule (Option (BinaryOp × Token))}
    (hspelled : op.IsSpelledBy token) (hoperator : operatorAt? op.level = some operator)
    (rest : TokenStream) (tokens : List Token) :
    Reads operator (rest.prepend (token :: tokens)) (some (op, token)) (rest.prepend tokens) ∧
      token.joins? = some op.level := by
  obtain ⟨hkind, htext⟩ := hspelled
  cases op <;> cases hoperator
  case or =>
    have hword : token.isName ["or"] :=
      Token.isName_iff.2 ⟨hkind, by simp [htext rfl, BinaryOp.symbol]⟩
    exact ⟨reads_wordOperator_some hword, Token.joins?_of_isName hword⟩
  case and =>
    have hword : token.isName ["and"] :=
      Token.isName_iff.2 ⟨hkind, by simp [htext rfl, BinaryOp.symbol]⟩
    exact ⟨reads_wordOperator_some hword, Token.joins?_of_isName hword⟩
  all_goals
    refine ⟨reads_operatorOf_some ?_ ?_, (Token.joins?_of_kind ?_).trans ?_⟩ <;>
      rw [hkind] <;> decide

/-- The right operand ends one level further inwards, so a further operator of the level takes the
whole as its left operand. -/
theorem ReadsAt.binary {op : BinaryOp} {operator : Rule (Option (BinaryOp × Token))}
    (hspelled : op.IsSpelledBy token) (hoperator : operatorAt? op.level = some operator)
    (hleft : ReadsAt dialect expression op.level left tokens)
    (hright : ReadsAt dialect expression op.level.tighter right more) :
    ReadsAt dialect expression op.level (.binary token op left right)
      (tokens ++ token :: more) := by
  have hlevel : op.level ≠ .subject := by
    cases op <;> decide
  unfold ReadsAt at hleft ⊢
  rw [stepAt?_of_operatorAt? hoperator] at hleft ⊢
  intro after result rest hstops hrepeats
  obtain ⟨hop, hjoins⟩ := reads_operatorAt_some hspelled hoperator after more
  have hoperand := hright.whole (hstops.stops (rank_lt_rank_tighter hlevel))
  rw [← TokenStream.prepend_prepend]
  refine hleft (TokenStream.stopsInside_of_joins? hjoins)
    (.next (hop.bind (hoperand.bind (reads_pure.2 ⟨rfl, rfl⟩))) ?_ hrepeats)
  simp only [TokenStream.upcoming_prepend, List.length_append, List.length_cons]
  omega

/-! ## Comparisons -/

section Comparisons

theorem reads_comparator?_some {op : BinaryOp} (hspelled : op.IsSpelledBy token)
    (hlevel : op.level = .comparison) (rest : TokenStream) (tokens : List Token) :
    Reads comparator? (rest.prepend (token :: tokens)) (some (token, none)) (rest.prepend tokens) ∧
      token.joins? = some .comparison ∧ comparisonOp token.kind = op := by
  obtain ⟨hkind, htext⟩ := hspelled
  cases op <;> cases hlevel
  case mem =>
    have hin : token.isName ["in"] :=
      Token.isName_iff.2 ⟨hkind, by simp [htext rfl, BinaryOp.symbol]⟩
    have hnot : ¬ token.isName ["not"] := by
      simp [Token.isName_iff, htext rfl, BinaryOp.symbol]
    have hwords : token.isName ["in", "not"] :=
      Token.isName_iff.2 ⟨hkind, by simp [htext rfl, BinaryOp.symbol]⟩
    refine ⟨?_, Token.joins?_of_isName hin, by rw [hkind]; rfl⟩
    refine (reads_take?_none (by simp [hkind, BinaryOp.kind])).bind ?_
    refine (reads_takeName?_some hwords).bind ?_
    simp only [hnot]
    exact reads_pure.2 ⟨rfl, rfl⟩
  all_goals
    refine ⟨(reads_take?_some ?_).bind (reads_pure.2 ⟨rfl, rfl⟩),
      (Token.joins?_of_kind ?_).trans ?_, ?_⟩ <;> rw [hkind] <;> decide

theorem reads_comparator?_notIn (hword : word.isName ["not"]) (htoken : token.isName ["in"])
    (rest : TokenStream) (tokens : List Token) :
    Reads comparator? (rest.prepend (word :: token :: tokens)) (some (token, some word))
      (rest.prepend tokens) := by
  obtain ⟨hkind, htext⟩ := Token.isName_iff.1 hword
  have hwords : word.isName ["in", "not"] := Token.isName_iff.2 ⟨hkind, by simp_all⟩
  refine (reads_take?_none (by simp [hkind])).bind ((reads_takeName?_some hwords).bind ?_)
  simp only [hword, if_true]
  exact (reads_takeName?_some htoken).bind (reads_pure.2 ⟨rfl, rfl⟩)

/-- A comparison extends the spelling of what stands on its left. -/
theorem ReadsAt.compare {negating? : Option Token}
    (hcomparator : ∀ after : TokenStream, Reads comparator? (after.prepend (word :: tokens ++ more))
      (some (token, negating?)) (after.prepend more))
    (hjoins : word.joins? = some .comparison)
    (hstarts : ∃ token rest, more = token :: rest ∧ token.Starts .sum) {leftTokens : List Token}
    (hleft : ReadsAt dialect expression .comparison left leftTokens)
    (hright : ReadsAt dialect expression .sum right more) :
    ReadsAt dialect expression .comparison
      (negating?.toList.foldr negatedBy (.binary token (comparisonOp token.kind) left right))
      (leftTokens ++ word :: tokens ++ more) := by
  intro after result rest hstops hrepeats
  rw [List.append_assoc, ← TokenStream.prepend_prepend]
  have hoperand : Reads (sum expression) (after.prepend more) right after :=
    hright.whole (hstops.stops (by decide))
  refine hleft (TokenStream.stopsInside_of_joins? hjoins) (.next ?_ ?_ hrepeats)
  · refine (hcomparator after).bind ?_
    obtain ⟨head, tail, rfl, hstarts⟩ := hstarts
    exact (reads_refuse (hstarts.kind_notMem (by decide))).bind
      (hoperand.bind (reads_pure.2 ⟨rfl, rfl⟩))
  · simp only [TokenStream.upcoming_prepend, List.length_append, List.length_cons]
    omega

theorem ReadsAt.compared {op : BinaryOp} (hspelled : op.IsSpelledBy token)
    (hlevel : op.level = .comparison)
    (hstarts : ∃ token rest, more = token :: rest ∧ token.Starts .sum)
    (hleft : ReadsAt dialect expression .comparison left tokens)
    (hright : ReadsAt dialect expression .sum right more) :
    ReadsAt dialect expression .comparison (.binary token op left right)
      (tokens ++ token :: more) := by
  obtain ⟨-, hjoins, rfl⟩ := reads_comparator?_some hspelled hlevel (.ofTokens []) []
  have hcomparator : ∀ rest : TokenStream, Reads comparator?
      (rest.prepend (token :: [] ++ more)) (some (token, none)) (rest.prepend more) :=
    fun rest => (reads_comparator?_some hspelled hlevel rest more).1
  simpa using ReadsAt.compare hcomparator hjoins hstarts hleft hright

theorem ReadsAt.notMember (hword : word.isName ["not"]) (htoken : token.isName ["in"])
    (hstarts : ∃ token rest, more = token :: rest ∧ token.Starts .sum)
    (hleft : ReadsAt dialect expression .comparison left tokens)
    (hright : ReadsAt dialect expression .sum right more) :
    ReadsAt dialect expression .comparison (.negation word (.binary token .mem left right))
      (tokens ++ word :: token :: more) := by
  have hmem : comparisonOp token.kind = .mem := by
    rw [(Token.isName_iff.1 htoken).1]
    rfl
  have hcomparator : ∀ rest : TokenStream, Reads comparator?
      (rest.prepend (word :: [token] ++ more)) (some (token, some word)) (rest.prepend more) :=
    fun rest => reads_comparator?_notIn hword htoken rest more
  have hcompare :=
    ReadsAt.compare hcomparator (Token.joins?_of_isName hword) hstarts hleft hright
  rw [hmem] at hcompare
  simpa [negatedBy] using hcompare

end Comparisons

/-! ## Tests -/

section Tests

variable {subject : Expr Token} {argument : Option (Expr Token)} {name negating : Token}

/-- What stands behind the name of a test. -/
inductive ReadsTestArgument (dialect : Dialect) (expression : ExprRule) (name : String) :
    Option (Expr Token) → List Token → Prop where
  | none : dialect.takesArgument name = false → ReadsTestArgument dialect expression name none []
  | some {value : Expr Token} {tokens : List Token} : dialect.takesArgument name = true →
      ReadsAt dialect expression .operand value tokens →
      ReadsTestArgument dialect expression name (some value) tokens

theorem reads_filters_none {subject : Expr Token} (hstops : rest.Stops .filter) :
    Reads (filters expression subject) rest subject rest :=
  Repeats.reads (.stop ((reads_take?_none (kind_notMem_of_stops hstops (by decide))).bind
    (reads_pure.2 ⟨rfl, rfl⟩)))

theorem reads_testName {build : Token → Option (Expr Token) → Expr Token}
    (heof : name.kind ≠ .eof) (hend : name.kind ≠ .variableEnd)
    (hargument : ReadsTestArgument dialect expression name.text argument tokens)
    (hstops : rest.Stops .operand) :
    Reads (do
      refuse endKinds (failAt word .incompleteTest)
      let name ← pop
      let argument ←
        if dialect.takesArgument name.text then pure (some (← operand expression)) else pure none
      return build name argument) (rest.prepend (name :: tokens)) (build name argument) rest := by
  refine (reads_refuse (by simp [endKinds, heof, hend])).bind ?_
  refine (reads_pop_prepend name tokens rest).bind ?_
  cases hargument with
  | none htakes =>
    simp only [htakes, Bool.false_eq_true, if_false]
    exact Reads.bind (reads_pure.2 ⟨rfl, rfl⟩) (reads_pure.2 ⟨rfl, rfl⟩)
  | some htakes hvalue =>
    have hoperand : Reads (operand expression) (rest.prepend tokens) _ rest := hvalue.whole hstops
    simp only [htakes, if_true]
    exact hoperand.bind (Reads.bind (reads_pure.2 ⟨rfl, rfl⟩) (reads_pure.2 ⟨rfl, rfl⟩))

/-- A test starts where the comparison before it has ended. -/
theorem ReadsAt.withTest {stream : TokenStream}
    (hsubject : ReadsAt dialect expression .comparison subject tokens)
    (hstops : stream.Stops .comparison)
    (htested : Reads (tested dialect expression subject) stream value rest) :
    Reads (comparison dialect expression) (stream.prepend tokens) value rest := by
  have hwhole := hsubject.whole hstops
  obtain ⟨first, between, hfirst, hloop⟩ := reads_bind.1 hwhole
  exact hfirst.bind (hloop.bind htested)

theorem ReadsAt.test (hword : word.isName ["is"]) (heof : name.kind ≠ .eof)
    (hend : name.kind ≠ .variableEnd) (hnot : ¬ name.isName ["not"])
    (hsubject : ReadsAt dialect expression .comparison subject tokens)
    (hargument : ReadsTestArgument dialect expression name.text argument more) :
    ReadsAt dialect expression .test (.test name subject name.text argument)
      (tokens ++ word :: name :: more) := by
  intro rest hstops
  have hinside : (rest.prepend (word :: name :: more)).StopsInside .test :=
    TokenStream.stopsInside_of_isName hword rfl
  rw [← TokenStream.prepend_prepend]
  refine hsubject.withTest (hinside.stops (by decide)) ?_
  refine (reads_filters_none (hinside.stops (by decide))).bind ?_
  refine (reads_takeName?_some hword).bind ((reads_takeName?_none hnot).bind ?_)
  exact reads_testName heof hend hargument (hstops.mono (by decide))

theorem ReadsAt.notTest (hword : word.isName ["is"]) (hnegating : negating.isName ["not"])
    (heof : name.kind ≠ .eof) (hend : name.kind ≠ .variableEnd)
    (hsubject : ReadsAt dialect expression .comparison subject tokens)
    (hargument : ReadsTestArgument dialect expression name.text argument more) :
    ReadsAt dialect expression .test (.negation negating (.test name subject name.text argument))
      (tokens ++ word :: negating :: name :: more) := by
  intro rest hstops
  have hinside : (rest.prepend (word :: negating :: name :: more)).StopsInside .test :=
    TokenStream.stopsInside_of_isName hword rfl
  rw [← TokenStream.prepend_prepend]
  refine hsubject.withTest (hinside.stops (by decide)) ?_
  refine (reads_filters_none (hinside.stops (by decide))).bind ?_
  refine (reads_takeName?_some hword).bind ((reads_takeName?_some hnegating).bind ?_)
  exact reads_testName heof hend hargument (hstops.mono (by decide))

end Tests

/-! ## From one level to the next -/

section Tighten

/-- What a tighter level reads is read at the level itself, if it may start there. -/
theorem ReadsAt.tighten {level : Level}
    (hstarts : ∃ token rest, tokens = token :: rest ∧ token.Starts level.tighter)
    (hreads : ReadsAt dialect expression level.tighter value tokens) :
    ReadsAt dialect expression level value tokens := by
  cases level with
  | subject => exact hreads
  | conditional =>
    intro rest hstops
    have hvalue : Reads (disjunction dialect expression) (rest.prepend tokens) value rest :=
      hreads.whole (hstops.mono (by decide))
    refine hvalue.bind ((reads_takeName?_none (not_isName_of_stops hstops (by decide))).bind ?_)
    exact reads_pure.2 ⟨rfl, rfl⟩
  | negation =>
    intro rest hstops
    have hvalue := hreads.whole (hstops.mono (by decide))
    obtain ⟨head, tail, rfl, hstarts⟩ := hstarts
    exact reads_negation (hstarts.not_negation (by decide)) hvalue
  | test =>
    intro rest hstops
    refine hreads.withTest (hstops.mono (by decide)) ?_
    refine (reads_filters_none (hstops.mono (by decide))).bind ?_
    refine (reads_takeName?_none (not_isName_of_stops hstops (by decide))).bind ?_
    exact reads_pure.2 ⟨rfl, rfl⟩
  | sign =>
    intro rest hstops
    have hvalue := hreads.whole (hstops.mono (by decide))
    obtain ⟨head, tail, rfl, hstarts⟩ := hstarts
    exact reads_signed (hstarts.not_sign (by decide)) hvalue
  | operand =>
    intro rest hstops
    have hvalue := hreads.whole (hstops.mono (by decide))
    obtain ⟨head, tail, rfl, hstarts⟩ := hstarts
    exact reads_operand (hstarts.not_spread (by decide)) hvalue
  | disjunction | conjunction | comparison | sum | concatenation | product | power | filter =>
    exact hreads.tighten_of_stepAt? rfl (by decide)

end Tighten

/-! ## Conditionals -/

section Conditionals

variable {condition other : Expr Token} {otherwise : Token} {last : List Token}

theorem ReadsAt.conditional (hword : word.isName ["if"])
    (hconsequent : ReadsAt dialect expression .disjunction value tokens)
    (hcondition : ReadsAt dialect expression .disjunction condition more) :
    ReadsAt dialect expression .conditional (.conditional word condition value none)
      (tokens ++ word :: more) := by
  intro rest hstops
  have hinside : (rest.prepend (word :: more)).StopsInside .conditional :=
    TokenStream.stopsInside_of_isName hword rfl
  have hfirst : Reads (disjunction dialect expression) _ value _ :=
    hconsequent.whole (hinside.stops (by decide))
  have hsecond : Reads (disjunction dialect expression) (rest.prepend more) condition rest :=
    hcondition.whole (hstops.mono (by decide))
  rw [← TokenStream.prepend_prepend]
  refine hfirst.bind ((reads_takeName?_some hword).bind (hsecond.bind ?_))
  refine (reads_takeName?_none (not_isName_of_stops hstops (by decide))).bind ?_
  exact Reads.bind (reads_pure.2 ⟨rfl, rfl⟩) (reads_pure.2 ⟨rfl, rfl⟩)

theorem ReadsAt.alternative (hword : word.isName ["if"]) (hotherwise : otherwise.isName ["else"])
    (hconsequent : ReadsAt dialect expression .disjunction value tokens)
    (hcondition : ReadsAt dialect expression .disjunction condition more)
    (halternative : ∀ rest : TokenStream, rest.Stops .conditional →
      Reads expression (rest.prepend last) other rest) :
    ReadsAt dialect expression .conditional
      (.conditional word condition value (some other))
      (tokens ++ word :: (more ++ otherwise :: last)) := by
  intro rest hstops
  have hinside : (rest.prepend (word :: (more ++ otherwise :: last))).StopsInside .conditional :=
    TokenStream.stopsInside_of_isName hword rfl
  have hbetween : (rest.prepend (otherwise :: last)).StopsInside .conditional :=
    TokenStream.stopsInside_of_isName hotherwise rfl
  have hfirst : Reads (disjunction dialect expression) _ value _ :=
    hconsequent.whole (hinside.stops (by decide))
  have hsecond : Reads (disjunction dialect expression) _ condition _ :=
    hcondition.whole (hbetween.stops (by decide))
  rw [TokenStream.prepend_prepend] at hsecond
  rw [← TokenStream.prepend_prepend]
  refine hfirst.bind ((reads_takeName?_some hword).bind (hsecond.bind ?_))
  refine (reads_takeName?_some hotherwise).bind ((halternative rest hstops).bind ?_)
  exact Reads.bind (reads_pure.2 ⟨rfl, rfl⟩) (reads_pure.2 ⟨rfl, rfl⟩)

end Conditionals

/-! ## Whole expressions -/

/-- What it means for the rules to read the tokens of a phrase. -/
def PhraseReads (dialect : Dialect) (expression : ExprRule) : Phrase → List Token → Prop
  | .expr level value => ReadsAt dialect expression level value
  | .items values => ReadsItems expression values
  | .pair entry => ReadsPair expression entry
  | .pairs pairs => ReadsPairs expression pairs
  | .bound value => ReadsBound expression value
  | .argument before between => ReadsArgument expression before between
  | .arguments before finished => ReadsArguments expression before finished
  | .argumentList values => ReadsArgumentList expression values
  | .filterArguments values => ReadsFilterArguments expression values
  | .testArgument name value => ReadsTestArgument dialect expression name value

/-- The rule reads back whole expressions with fewer tokens than the bound. -/
def ReadsShort (dialect : Dialect) (bound : Nat) (expression : ExprRule) : Prop :=
  ∀ ⦃value tokens⦄, Spells .required dialect (.expr .conditional value) tokens →
    tokens.length < bound → ∀ rest : TokenStream, rest.Stops .conditional →
    Reads expression (rest.prepend tokens) value rest

theorem phraseReads_of_spells {bound : Nat} (hexpr : ReadsShort dialect bound expression)
    {phrase : Phrase} (hspells : Spells .required dialect phrase tokens)
    (hlength : tokens.length + phrase.margin ≤ bound) :
    PhraseReads dialect expression phrase tokens := by
  induction hspells with
  | integer hkind hvalue => exact readsAt_integer hkind hvalue
  | float hkind hvalue hfinite => exact readsAt_float hkind hvalue hfinite
  | string hkind => exact readsAt_string hkind
  | bool hkind hvalue =>
    intro rest _
    exact reads_operand (by simp [hkind]) (reads_plainOperand_bool hkind hvalue)
  | name hkind hboolean hreserved => exact readsAt_name hkind hboolean hreserved
  | group hopening hclosing hinner =>
    simp only [Phrase.margin, List.length_append, List.length_cons] at hlength
    exact readsAt_group hopening hclosing (hinner.starts rfl) (hexpr hinner (by omega))
  | emptyList hopening hclosing => exact readsAt_emptyList hopening hclosing
  | list hopening hclosing hcomma hitems ih =>
    simp only [Phrase.margin, List.length_append, List.length_cons] at hlength ih
    exact readsAt_list hopening hclosing hcomma (hitems.starts rfl) (ih (by omega))
  | emptyTuple hopening hclosing => exact readsAt_emptyTuple hopening hclosing
  | tuple hopening hclosing hcomma hsingle hitems ih =>
    simp only [Phrase.margin, List.length_append, List.length_cons] at hlength ih
    exact readsAt_tuple hopening hclosing hcomma hsingle (hitems.starts rfl) (ih (by omega))
  | emptyDict hopening hclosing => exact readsAt_emptyDict hopening hclosing
  | dict hopening hclosing hcomma hpairs ih =>
    simp only [Phrase.margin, List.length_append, List.length_cons] at hlength ih
    exact readsAt_dict hopening hclosing hcomma (hpairs.starts rfl) (ih (by omega))
  | member hdot hselector _ ih =>
    simp only [Phrase.margin, List.length_append, List.length_cons] at hlength ih
    exact ReadsAt.extend (ih (by omega)) (reads_postfixForm?_member hdot hselector)
  | position hdot hselector hindex _ ih =>
    simp only [Phrase.margin, List.length_append, List.length_cons] at hlength ih
    exact ReadsAt.extend (ih (by omega)) (reads_postfixForm?_position hdot hselector hindex)
  | subscript hbracket hclosing _ hkey ih _ =>
    simp only [Phrase.margin, List.length_append, List.length_cons] at hlength ih
    exact ReadsAt.extend (ih (by omega)) (reads_postfixForm?_subscript hbracket hclosing
      (hkey.starts rfl) (hexpr hkey (by omega)))
  | slice hbracket hcolon hclosing _ _ _ ih ihstart ihstop =>
    simp only [Phrase.margin, List.length_append, List.length_cons] at hlength ih ihstart ihstop
    exact ReadsAt.extend (ih (by omega)) (reads_postfixForm?_slice hbracket hcolon hclosing
      (ihstart (by omega)) (ihstop (by omega)))
  | call hopening _ _ ih ihvalues =>
    simp only [Phrase.margin, List.length_append, List.length_cons] at hlength ih ihvalues
    exact ReadsAt.extend (ih (by omega)) (reads_postfixForm?_call hopening (ihvalues (by omega)))
  | @spread operand marker tokens hmarker _ ih =>
    simp only [Phrase.margin, List.length_cons] at hlength ih
    have hkind : marker.kind ∈ [Kind.mul, .pow] := by simp [hmarker]
    intro rest hstops
    have hoperand := reads_operand_marker hkind (ih (by omega) hstops)
    rw [spreadBy, if_pos hmarker] at hoperand
    exact hoperand
  | @namedSpread operand marker tokens hmarker _ ih =>
    simp only [Phrase.margin, List.length_cons] at hlength ih
    have hkind : marker.kind ∈ [Kind.mul, .pow] := by simp [hmarker]
    intro rest hstops
    have hoperand := reads_operand_marker hkind (ih (by omega) hstops)
    rw [spreadBy, if_neg (by simp [hmarker])] at hoperand
    exact hoperand
  | filter hpipe hname _ _ ih ihvalues =>
    simp only [Phrase.margin, List.length_append, List.length_cons] at hlength ih ihvalues
    exact ReadsAt.filter hpipe hname (ih (by omega)) (ihvalues (by omega))
  | @signed operand sign token tokens htoken _ ih =>
    simp only [Phrase.margin, List.length_cons] at hlength ih
    have hkind : token.kind ∈ [Kind.sub, .add] := by
      cases sign <;> simp [htoken, Sign.kind]
    intro rest hstops
    have hoperand := reads_signed_sign hkind (ih (by omega) hstops)
    cases sign with
    | minus =>
      rw [signedBy, if_pos (show token.kind = .sub from htoken)] at hoperand
      exact hoperand
    | plus =>
      rw [signedBy, if_neg (by simp [htoken, Sign.kind])] at hoperand
      exact hoperand
  | @binary op left right token leftTokens rightTokens hspelled hleft hright ihleft ihright =>
    simp only [Phrase.margin, List.length_append, List.length_cons] at hlength ihleft ihright
    by_cases hlevel : op.level = .comparison
    · rw [hlevel] at ihleft ihright hright
      rw [hlevel]
      exact ReadsAt.compared hspelled hlevel (hright.starts rfl) (ihleft (by omega))
        (ihright (by omega))
    · have hoperator : ∃ operator, operatorAt? op.level = some operator := by
        cases op <;> first | exact ⟨_, rfl⟩ | exact absurd rfl hlevel
      obtain ⟨operator, hoperator⟩ := hoperator
      exact ReadsAt.binary hspelled hoperator (ihleft (by omega)) (ihright (by omega))
  | notMember hword htoken _ hright ihleft ihright =>
    simp only [Phrase.margin, List.length_append, List.length_cons] at hlength ihleft ihright
    exact ReadsAt.notMember hword htoken (hright.starts rfl) (ihleft (by omega))
      (ihright (by omega))
  | test hword heof hend hnot _ _ ih ihargument =>
    simp only [Phrase.margin, List.length_append, List.length_cons] at hlength ih ihargument
    exact ReadsAt.test hword heof hend hnot (ih (by omega)) (ihargument (by omega))
  | notTest hword hnegating heof hend _ _ ih ihargument =>
    simp only [Phrase.margin, List.length_append, List.length_cons] at hlength ih ihargument
    exact ReadsAt.notTest hword hnegating heof hend (ih (by omega)) (ihargument (by omega))
  | negation hword _ ih =>
    simp only [Phrase.margin, List.length_cons] at hlength ih
    intro rest hstops
    have hoperand := reads_negation_word hword (ih (by omega) hstops)
    exact hoperand
  | conditional hword _ _ ih ihcondition =>
    simp only [Phrase.margin, List.length_append, List.length_cons] at hlength ih ihcondition
    exact ReadsAt.conditional hword (ih (by omega)) (ihcondition (by omega))
  | alternative hword hotherwise _ _ halternative ih ihcondition _ =>
    simp only [Phrase.margin, List.length_append, List.length_cons] at hlength ih ihcondition
    exact ReadsAt.alternative hword hotherwise (ih (by omega)) (ihcondition (by omega))
      (hexpr halternative (by omega))
  | tighten hinner ih => exact ReadsAt.tighten (hinner.starts rfl) (ih hlength)
  | oneItem hvalue => exact readsItems_one (hexpr hvalue hlength)
  | moreItems hcomma _ hvalue ih _ =>
    simp only [Phrase.margin, List.length_append, List.length_cons] at hlength ih
    exact readsItems_more hcomma (hvalue.starts rfl) (ih (by omega)) (hexpr hvalue (by omega))
  | pair hcolon hkey hvalue =>
    simp only [Phrase.margin, List.length_append, List.length_cons] at hlength
    exact readsPair hcolon (hexpr hkey (by omega)) (hexpr hvalue (by omega))
  | onePair _ ih => exact readsPairs_one (ih hlength)
  | morePairs hcomma _ hpair ih ihpair =>
    simp only [Phrase.margin, List.length_append, List.length_cons] at hlength ih ihpair
    exact readsPairs_more hcomma (hpair.starts rfl) (ih (by omega)) (ihpair (by omega))
  | noBound => exact readsBound_none
  | oneBound hvalue =>
    exact readsBound_some (hvalue.starts rfl) (hexpr hvalue hlength)
  | positional hvalue => exact readsArgument_positional (hexpr hvalue hlength)
  | named hassign hfresh hkey hvalue =>
    simp only [Phrase.margin, List.length_append, List.length_cons] at hlength
    exact readsArgument_named hassign hfresh (hexpr hkey (by omega)) (hexpr hvalue (by omega))
  | lastArgument hclosing hcomma hargument ih =>
    simp only [Phrase.margin, List.length_append, List.length_cons] at hlength ih
    exact readsArguments_last hclosing hcomma (hargument.starts rfl) (ih (by omega))
  | moreArguments hgap hargument hmore ih ihmore =>
    obtain ⟨hcomma, hsome⟩ := hgap
    simp only [Phrase.margin, List.length_append] at hlength ih ihmore
    cases hcomma with
    | none => exact absurd rfl (hsome rfl)
    | comma hcomma =>
      exact readsArguments_more hcomma (hargument.starts rfl) (ih (by omega)) (hmore.starts rfl)
        (ihmore (by omega))
  | noArguments hclosing => exact readsArgumentList_empty hclosing
  | someArguments harguments ih =>
    exact readsArgumentList_of_arguments (harguments.starts rfl) (ih hlength)
  | bareFilter => exact .bare
  | filterCall hopening _ ih =>
    simp only [Phrase.margin, List.length_cons] at hlength ih
    exact .call hopening (ih (by omega))
  | noArgument htakes => exact .none htakes
  | oneArgument htakes _ ih =>
    simp only [Phrase.margin] at hlength ih
    exact .some htakes (ih (by omega))

/-- With a round of nesting for each token, no expression nests too deeply. -/
theorem readsShort_expressionOver (dialect : Dialect) (bound : List Token) :
    ReadsShort dialect (bound.length + 1) (expressionOver dialect bound) := by
  induction bound with
  | nil =>
    intro value tokens hspells hlength
    obtain ⟨head, tail, rfl, -⟩ := hspells.starts rfl
    simp at hlength
  | cons token bound ih =>
    intro value tokens hspells hlength rest hstops
    have hreads : ReadsAt dialect (expressionOver dialect bound) .conditional value tokens :=
      phraseReads_of_spells ih hspells (Nat.le_of_lt_succ hlength)
    exact hreads.whole hstops

theorem reads_expression (hspells : Spells .required dialect (.expr .conditional value) tokens)
    (hstops : rest.Stops .conditional) :
    Reads (Grammar.expression dialect) (rest.prepend tokens) value rest := by
  have hlength : tokens.length ≤ (rest.prepend tokens).upcoming.length := by simp
  have hreads : ReadsAt dialect (expressionOver dialect (rest.prepend tokens).upcoming) .conditional
      value tokens :=
    phraseReads_of_spells (readsShort_expressionOver dialect _) hspells (Nat.le_succ_of_le hlength)
  exact Reads.bind (reads_get.2 ⟨rfl, rfl⟩) (hreads.whole hstops)

/-- A spelling that takes up the stream is a whole expression. -/
theorem reads_wholeExpression {stream : TokenStream} (hends : stream.Ends)
    (hspells : Spells .required dialect (.expr .conditional value) stream.upcoming) :
    ∃ rest, Reads (wholeExpression dialect) stream value rest := by
  let last : TokenStream := { stream with upcoming := [] }
  have hstream : stream = last.prepend stream.upcoming := by
    simp [last, TokenStream.prepend]
  have heof : last.current.kind ∈ [Kind.eof] := List.mem_singleton.2 hends
  have hstops : last.Stops .conditional :=
    TokenStream.stops_of_joins?_eq_none (joins?_eq_none_of_kind heof (by decide))
  have hwhole := reads_expression hspells hstops
  rw [← hstream] at hwhole
  have hend : Reads (expect .eof (failHere fun token => .unexpectedToken token.text)) last ()
      last.advance := by
    have htake : Reads (take? [.eof]) last (some last.current) last.advance :=
      reads_take?.2 (by rw [if_pos heof]; exact ⟨rfl, rfl⟩)
    exact htake.bind (reads_pure.2 ⟨rfl, rfl⟩)
  exact ⟨last.advance, hwhole.bind (hend.bind (reads_pure.2 ⟨rfl, rfl⟩))⟩

end Stencil.Grammar

namespace Stencil

open Grammar

theorem parseTokens_of_spells {dialect : Dialect} {tokens : List Token} {expr : Expr Token}
    (hspells : Spells .required dialect (.expr .conditional expr)
      (tokens.takeWhile fun token => token.kind != .eof)) :
    parseTokens (wholeExpression dialect) tokens = .ok expr := by
  obtain ⟨rest, hreads⟩ :=
    reads_wholeExpression (TokenStream.ofTokens_ends tokens) hspells
  exact parseTokens_of_reads hreads

/-- The parentheses of `a-(b-c)` are needed. -/
theorem parseTokens_of_spells_parenthesised :
    parseTokens (wholeExpression .standard)
        [⟨.name, "a", ⟨0, 1, 1, 1⟩⟩, ⟨.sub, "-", ⟨1, 2, 1, 2⟩⟩, ⟨.leftParen, "(", ⟨2, 3, 1, 3⟩⟩,
          ⟨.name, "b", ⟨3, 4, 1, 4⟩⟩, ⟨.sub, "-", ⟨4, 5, 1, 5⟩⟩, ⟨.name, "c", ⟨5, 6, 1, 6⟩⟩,
          ⟨.rightParen, ")", ⟨6, 7, 1, 7⟩⟩, ⟨.eof, "", ⟨7, 7, 1, 8⟩⟩] =
      .ok (.binary ⟨.sub, "-", ⟨1, 2, 1, 2⟩⟩ .sub (.name ⟨.name, "a", ⟨0, 1, 1, 1⟩⟩ "a")
        (.binary ⟨.sub, "-", ⟨4, 5, 1, 5⟩⟩ .sub (.name ⟨.name, "b", ⟨3, 4, 1, 4⟩⟩ "b")
          (.name ⟨.name, "c", ⟨5, 6, 1, 6⟩⟩ "c"))) := by
  have hname (level : Level) (token : Token) (hkind : token.kind = .name)
      (hboolean : booleanValue? token.text = none) (hreserved : token.text ∉ reservedNames) :
      Spells .required .standard (.expr level (.name token token.text)) [token] :=
    (Spells.name hkind hboolean hreserved).loosen level.rank_le_rank_subject
  have hminus (left right : Expr Token) (token : Token) (leftTokens rightTokens : List Token)
      (hkind : token.kind = .sub)
      (hleft : Spells .required .standard (.expr .sum left) leftTokens)
      (hright : Spells .required .standard (.expr .concatenation right) rightTokens) :
      Spells .required .standard (.expr .conditional (.binary token .sub left right))
        (leftTokens ++ token :: rightTokens) := by
    have hspelled : BinaryOp.IsSpelledBy .sub token := ⟨hkind, by simp [BinaryOp.kind]⟩
    exact (Spells.binary hspelled hleft hright).loosen (by decide)
  refine parseTokens_of_spells (hminus _ _ _ [_] _ rfl (hname _ _ rfl rfl (by decide)) ?_)
  have hinner := hminus _ _ ⟨.sub, "-", ⟨4, 5, 1, 5⟩⟩ _ _ rfl
    (hname _ ⟨.name, "b", ⟨3, 4, 1, 4⟩⟩ rfl rfl (by decide))
    (hname _ ⟨.name, "c", ⟨5, 6, 1, 6⟩⟩ rfl rfl (by decide))
  exact (Spells.group rfl rfl hinner).loosen (by decide)

end Stencil
