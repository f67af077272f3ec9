import Stencil.Proofs.Cursor
import Stencil.Proofs.Spelling.Soundness.Operand

/-!
# Nothing but spellings is read

The levels outside the operand move past spellings of their trees as well, which ties the knot by
induction on the bound for the nesting: what a whole expression reads is a spelling of its tree.
-/

namespace Stencil.Grammar

open Rule

variable {dialect : Dialect} {expression : ExprRule} {stream rest : TokenStream}
variable {value : Expr Token}

/-- The rule moves past spellings of its trees at the level, and past all filters behind them. -/
def DerivesFiltered (dialect : Dialect) (level : Level) (rule : ExprRule) : Prop :=
  ∀ ⦃stream value rest⦄, Reads rule stream value rest → stream.Ends →
    ∃ tokens, stream = rest.prepend tokens ∧
      Spells .optional dialect (.expr level value) tokens ∧ rest.current.kind ≠ .pipe

theorem DerivesFiltered.derives {level : Level} {rule : ExprRule}
    (hrule : DerivesFiltered dialect level rule) : Derives dialect level rule := by
  intro stream value rest hreads hends
  obtain ⟨tokens, hstream, hspelled, -⟩ := hrule hreads hends
  exact ⟨tokens, hstream, hspelled⟩

/-! ## Filters and signs -/

section Filters

variable (hexpr : Derives dialect .conditional expression)
include hexpr

/-- A filter starts by taking the pipe, and what comes behind it makes a longer spelling. -/
theorem exists_filterBody :
    ∃ body, LengthensFrom dialect .filter [.pipe] body ∧
      ∀ value, filter? expression value = take? [.pipe] >>= fun
        | none => pure none
        | some pipe => body value pipe := by
  refine ⟨_, ?_, fun _ => rfl⟩
  intro subject pipe hpipe stream found rest hreads hends
  have hpipe : pipe.kind = .pipe := by simpa using hpipe
  rcases hreads.take?_bind hends (by decide) with ⟨name, between, hname, rfl, hnext⟩ | ⟨-, hfail⟩
  · have hname : name.kind = .name := by simpa using hname
    rcases hnext.take?_bind hends (by decide) with
      ⟨opening, between, hopening, rfl, hcall⟩ | ⟨-, hbare⟩
    · obtain ⟨values, tokens, between, hvalues, rfl, hdone⟩ :=
        (arguments_spelled hexpr opening).bind hcall hends
      obtain ⟨rfl, rfl⟩ := reads_pure.1 hdone
      exact ⟨name :: opening :: tokens, by simp, _, rfl, fun hsubject =>
        .filter hpipe hname hsubject (.filterCall (by simpa using hopening) hvalues)⟩
    · obtain ⟨rfl, rfl⟩ := reads_pure.1 hbare
      exact ⟨[name], rfl, _, rfl, fun hsubject => .filter hpipe hname hsubject .bareFilter⟩
  · exact absurd hfail not_reads_failAt

theorem filters_spelled {subject : Expr Token} {before : List Token}
    (hsubject : Spells .optional dialect (.expr .filter subject) before)
    (hreads : Reads (filters expression subject) stream value rest) (hends : stream.Ends) :
    ∃ tokens, stream = rest.prepend tokens ∧
      Spells .optional dialect (.expr .filter value) (before ++ tokens) ∧
      rest.current.kind ≠ .pipe := by
  obtain ⟨body, hbody, hstep⟩ := exists_filterBody hexpr
  obtain ⟨tokens, rfl, hspelled, hstop⟩ :=
    (lengthens_of_take? [.pipe] hbody hstep (by decide)).repeat_spelled hreads hends hsubject
  have hkind := current_kind_of_reads_none [.pipe] hstep (by decide) hbody.isSome hstop hends
  exact ⟨tokens, rfl, hspelled, by simpa using hkind⟩

/-- Without a pipe there are no filters. -/
theorem eq_of_reads_filters {subject : Expr Token} (hkind : stream.current.kind ≠ .pipe)
    (hreads : Reads (filters expression subject) stream value rest) (hends : stream.Ends) :
    value = subject ∧ rest = stream := by
  obtain ⟨body, hbody, hstep⟩ := exists_filterBody hexpr
  have hrepeats :=
    (lengthens_of_take? [.pipe] hbody hstep (by decide)).steady.repeats hreads hends
  cases hrepeats with
  | stop => exact ⟨rfl, rfl⟩
  | next hnext =>
    rw [hstep] at hnext
    rcases hnext.take?_bind hends (by decide) with ⟨pipe, between, hpipe, rfl, -⟩ | ⟨-, hdeclines⟩
    · exact absurd (by simpa using hpipe) hkind
    · cases (reads_pure.1 hdeclines).1

theorem signed_spelled : DerivesFiltered dialect .sign (signed expression) := by
  intro stream value rest hreads hends
  obtain ⟨signs, between, hsigns, hnext⟩ := reads_bind.1 hreads
  obtain ⟨rfl, hkinds⟩ := hsigns.takeAll_eq
  obtain ⟨subject, tokens, between, hsubject, rfl, hfilters⟩ :=
    (operand_spelled hexpr).bind hnext hends
  obtain ⟨filtered, between, hfilters, hdone⟩ := reads_bind.1 hfilters
  obtain ⟨more, rfl, hfiltered, hkind⟩ :=
    filters_spelled hexpr (.tighten hsubject) hfilters hends
  obtain ⟨rfl, rfl⟩ := reads_pure.1 hdone
  refine ⟨signs ++ (tokens ++ more), by simp, Spells.foldr (.tighten hfiltered) hkinds ?_, hkind⟩
  intro marker value tokens hkind hvalue
  by_cases hminus : marker.kind = .sub
  · simpa [signedBy, hminus] using .signed hminus hvalue
  · simpa [signedBy, hminus] using .signed (by simpa [hminus, Sign.kind] using hkind) hvalue

end Filters

/-! ## Operators that group from the left -/

/-- The operator rule takes one token that spells an operator of the level, or none at all. -/
structure TakesOperator (level : Level) (operator : Rule (Option (BinaryOp × Token))) : Prop where
  takes : ∀ {op token stream rest}, Reads operator stream (some (op, token)) rest → stream.Ends →
    stream = rest.prepend [token] ∧ op.level = level ∧ op.IsSpelledBy token
  declines : ∀ {stream rest}, Reads operator stream none rest → stream.Ends → rest = stream
  stops : ∀ {stream : TokenStream}, stream.Ends → stream.upcoming = [] →
    Reads operator stream none stream

theorem takesOperator_operatorOf {level : Level} {kinds : List Kind}
    (hkinds : ∀ kind ∈ kinds, ∃ op, arithmeticOp? kind = some op ∧ op.level = level ∧
      op.kind = kind ∧ kind ≠ .name ∧ kind ≠ .eof) :
    TakesOperator level (operatorOf kinds) := by
  have heof : Kind.eof ∉ kinds := by
    intro hmem
    obtain ⟨-, -, -, -, -, hne⟩ := hkinds _ hmem
    exact hne rfl
  refine ⟨?_, ?_, ?_⟩
  · intro op token stream rest hreads hends
    rcases hreads.take?_bind hends heof with ⟨found, between, hmem, rfl, hdone⟩ | ⟨-, hdone⟩
    · obtain ⟨op', hop, hlevel, hkind, hname, -⟩ := hkinds _ hmem
      obtain ⟨hsame, rfl⟩ := reads_pure.1 hdone
      simp only [hop, Option.map_some, Option.some.injEq, Prod.mk.injEq] at hsame
      obtain ⟨rfl, rfl⟩ := hsame
      exact ⟨rfl, hlevel, hkind.symm, fun h => absurd (hkind.symm.trans h) hname⟩
    · cases (reads_pure.1 hdone).1
  · intro stream rest hreads hends
    rcases hreads.take?_bind hends heof with ⟨found, between, hmem, rfl, hdone⟩ | ⟨-, hdone⟩
    · obtain ⟨op, hop, -⟩ := hkinds _ hmem
      obtain ⟨hsame, -⟩ := reads_pure.1 hdone
      simp [hop] at hsame
    · exact (reads_pure.1 hdone).2
  · intro stream hends hnil
    exact (reads_take?_none (by rwa [hends.current_kind hnil])).bind (reads_pure.2 ⟨rfl, rfl⟩)

theorem takesOperator_wordOperator {level : Level} {word : String} {op : BinaryOp}
    (hlevel : op.level = level) (hkind : op.kind = .name) (hsymbol : op.symbol = word) :
    TakesOperator level (wordOperator word op) := by
  refine ⟨?_, ?_, ?_⟩
  · intro op' token stream rest hreads hends
    rcases hreads.takeName?_bind hends with ⟨found, between, hword, rfl, hdone⟩ | ⟨-, hdone⟩
    · obtain ⟨hsame, rfl⟩ := reads_pure.1 hdone
      cases hsame
      obtain ⟨hname, htext⟩ := Token.isName_iff.1 hword
      exact ⟨rfl, hlevel, hname.trans hkind.symm, fun _ => by simpa [hsymbol] using htext⟩
    · cases (reads_pure.1 hdone).1
  · intro stream rest hreads hends
    rcases hreads.takeName?_bind hends with ⟨found, between, hword, rfl, hdone⟩ | ⟨-, hdone⟩
    · cases (reads_pure.1 hdone).1
    · exact (reads_pure.1 hdone).2
  · intro stream hends hnil
    have hword : ¬ stream.current.isName [word] := by
      simp [Token.isName, hends.current_kind hnil]
    exact (reads_takeName?_none hword).bind (reads_pure.2 ⟨rfl, rfl⟩)

section LeftGrouped

variable {level : Level} {operand : ExprRule} {operator : Rule (Option (BinaryOp × Token))}

theorem lengthens_nextOperand (hoperand : Derives dialect level.tighter operand)
    (hoperator : TakesOperator level operator) :
    Lengthens dialect level (nextOperand operand operator) where
  lengthens := by
    intro left result stream rest hreads hends
    obtain ⟨_ | ⟨op, token⟩, between, hop, hnext⟩ := reads_bind.1 hreads
    · cases (reads_pure.1 hnext).1
    · obtain ⟨rfl, rfl, hspelled⟩ := hoperator.takes hop hends
      obtain ⟨right, tokens, between, hright, rfl, hdone⟩ := hoperand.bind hnext hends
      obtain ⟨hsame, rfl⟩ := reads_pure.1 hdone
      cases hsame
      exact ⟨token, tokens, by simp, fun hleft => .binary hspelled hleft hright⟩
  declines := by
    intro left stream rest hreads hends
    obtain ⟨_ | ⟨op, token⟩, between, hop, hnext⟩ := reads_bind.1 hreads
    · obtain ⟨-, rfl⟩ := reads_pure.1 hnext
      exact hoperator.declines hop hends
    · obtain ⟨right, after, -, hdone⟩ := reads_bind.1 hnext
      cases (reads_pure.1 hdone).1
  stops hends hnil := (hoperator.stops hends hnil).bind (reads_pure.2 ⟨rfl, rfl⟩)

theorem leftGrouped_spelled (hoperand : Derives dialect level.tighter operand)
    (hoperator : TakesOperator level operator) :
    Derives dialect level (leftGrouped operand operator) := by
  intro stream value rest hreads hends
  obtain ⟨first, tokens, between, hfirst, rfl, hloop⟩ := hoperand.bind hreads hends
  obtain ⟨more, rfl, hspelled, -⟩ :=
    (lengthens_nextOperand hoperand hoperator).repeat_spelled hloop hends (.tighten hfirst)
  exact ⟨tokens ++ more, by simp, hspelled⟩

theorem leftGrouped_filtered (hoperand : DerivesFiltered dialect level.tighter operand)
    (hoperator : TakesOperator level operator) :
    DerivesFiltered dialect level (leftGrouped operand operator) := by
  intro stream value rest hreads hends
  obtain ⟨tokens, hstream, hspelled⟩ := leftGrouped_spelled hoperand.derives hoperator hreads hends
  refine ⟨tokens, hstream, hspelled, ?_⟩
  obtain ⟨first, between, hfirst, hloop⟩ := reads_bind.1 hreads
  obtain ⟨moved, rfl, -, hkind⟩ := hoperand hfirst hends
  have hstep := lengthens_nextOperand hoperand.derives hoperator
  have hrepeats := hstep.steady.repeats hloop hends
  -- Every round ends with an operand, which takes the filters behind it.
  have hkept : rest.Ends ∧ rest.current.kind ≠ .pipe := by
    refine hrepeats.keeps (fun stream => stream.Ends ∧ stream.current.kind ≠ .pipe)
      ⟨hends, hkind⟩ ?_
    rintro left result stream rest hround ⟨hends, -⟩
    obtain ⟨_ | ⟨op, token⟩, between, hop, hnext⟩ := reads_bind.1 hround
    · cases (reads_pure.1 hnext).1
    · obtain ⟨rfl, -⟩ := hoperator.takes hop hends
      obtain ⟨right, after, hright, hdone⟩ := reads_bind.1 hnext
      obtain ⟨moved, rfl, -, hkind⟩ := hoperand hright hends
      obtain ⟨-, rfl⟩ := reads_pure.1 hdone
      exact ⟨hends, hkind⟩
  exact hkept.2

end LeftGrouped

/-! ## Arithmetic -/

section Arithmetic

variable (hexpr : Derives dialect .conditional expression)
include hexpr

theorem power_spelled : DerivesFiltered dialect .power (power expression) :=
  leftGrouped_filtered (signed_spelled hexpr) (takesOperator_operatorOf (by decide))

theorem product_spelled : DerivesFiltered dialect .product (product expression) :=
  leftGrouped_filtered (power_spelled hexpr) (takesOperator_operatorOf (by decide))

theorem concatenation_spelled : DerivesFiltered dialect .concatenation (concatenation expression) :=
  leftGrouped_filtered (product_spelled hexpr) (takesOperator_operatorOf (by decide))

theorem sum_spelled : DerivesFiltered dialect .sum (sum expression) :=
  leftGrouped_filtered (concatenation_spelled hexpr) (takesOperator_operatorOf (by decide))

end Arithmetic

/-! ## Comparisons and tests -/

/-- The operator with its token and the negating word, as `comparator?` finds them. -/
inductive Compares : Token → Option Token → List Token → Prop where
  | operator {token : Token} : (comparisonOp token.kind).level = .comparison →
      (comparisonOp token.kind).IsSpelledBy token → Compares token none [token]
  | notIn {word token : Token} : word.isName ["not"] → token.isName ["in"] →
      Compares token (some word) [word, token]

theorem compares_of_kind {token : Token}
    (hkind : token.kind ∈ [Kind.eq, .ne, .gt, .gteq, .lt, .lteq]) :
    Compares token none [token] := by
  have hop : ∀ kind ∈ [Kind.eq, .ne, .gt, .gteq, .lt, .lteq],
      (comparisonOp kind).level = .comparison ∧ (comparisonOp kind).kind = kind ∧ kind ≠ .name := by
    decide
  obtain ⟨hlevel, hspelled, hname⟩ := hop _ hkind
  exact .operator hlevel ⟨hspelled.symm, fun h => absurd (hspelled.symm.trans h) hname⟩

theorem compares_of_isName {token : Token} (hword : token.isName ["in"]) :
    Compares token none [token] := by
  obtain ⟨hkind, htext⟩ := Token.isName_iff.1 hword
  have htext : token.text = "in" := by simpa using htext
  exact .operator (by simp [hkind, comparisonOp, BinaryOp.level])
    ⟨by simp [hkind, comparisonOp, BinaryOp.kind],
      by simp [hkind, htext, comparisonOp, BinaryOp.symbol]⟩

theorem comparator?_compares {token : Token} {negating? : Option Token}
    (hreads : Reads comparator? stream (some (token, negating?)) rest) (hends : stream.Ends) :
    ∃ tokens, stream = rest.prepend tokens ∧ Compares token negating? tokens := by
  rcases hreads.take?_bind hends (by decide) with ⟨symbol, between, hkind, rfl, hdone⟩ | ⟨-, hword⟩
  · obtain ⟨hsame, rfl⟩ := reads_pure.1 hdone
    cases hsame
    exact ⟨[token], rfl, compares_of_kind hkind⟩
  · rcases hword.takeName?_bind hends with ⟨word, between, hwords, rfl, hnext⟩ | ⟨-, hdone⟩
    · dsimp only at hnext
      split at hnext
      · next hnot =>
        rcases hnext.takeName?_bind hends with ⟨found, between, hin, rfl, hdone⟩ | ⟨-, hfail⟩
        · obtain ⟨hsame, rfl⟩ := reads_pure.1 hdone
          cases hsame
          exact ⟨[word, token], rfl, .notIn hnot hin⟩
        · exact absurd hfail not_reads_failAt
      · next hnot =>
        obtain ⟨hsame, rfl⟩ := reads_pure.1 hnext
        cases hsame
        have hin : token.isName ["in"] := by
          rw [Token.isName_iff] at hnot hwords ⊢
          simp_all
        exact ⟨[token], rfl, compares_of_isName hin⟩
    · cases (reads_pure.1 hdone).1

theorem comparator?_declines (hreads : Reads comparator? stream none rest) (hends : stream.Ends) :
    rest = stream := by
  rcases hreads.take?_bind hends (by decide) with ⟨symbol, between, hkind, rfl, hdone⟩ | ⟨-, hword⟩
  · cases (reads_pure.1 hdone).1
  · rcases hword.takeName?_bind hends with ⟨word, between, hword, rfl, hnext⟩ | ⟨-, hdone⟩
    · dsimp only at hnext
      split at hnext
      · rcases hnext.takeName?_bind hends with ⟨found, between, hin, rfl, hdone⟩ | ⟨-, hfail⟩
        · cases (reads_pure.1 hdone).1
        · exact absurd hfail not_reads_failAt
      · cases (reads_pure.1 hnext).1
    · exact (reads_pure.1 hdone).2

section Tests

variable (hexpr : Derives dialect .conditional expression)
include hexpr

theorem lengthens_comparison? : Lengthens dialect .comparison (comparison? expression) where
  lengthens := by
    intro left result stream rest hreads hends
    obtain ⟨_ | ⟨token, negating?⟩, between, hcomparator, hnext⟩ := reads_bind.1 hreads
    · cases (reads_pure.1 hnext).1
    · obtain ⟨moved, rfl, hcompares⟩ := comparator?_compares hcomparator hends
      obtain ⟨-, hoperand⟩ := hnext.refuse_bind not_reads_failAt
      obtain ⟨right, tokens, between, hright, rfl, hdone⟩ :=
        (sum_spelled hexpr).derives.bind hoperand hends
      obtain ⟨hsame, rfl⟩ := reads_pure.1 hdone
      cases hsame
      cases hcompares with
      | operator hlevel hspelled =>
        refine ⟨token, tokens, by simp, fun hleft => ?_⟩
        rw [← hlevel] at hleft ⊢
        exact .binary hspelled hleft (by rwa [hlevel])
      | @notIn word _ hnot hin =>
        have hmem : comparisonOp token.kind = .mem := by
          rw [(Token.isName_iff.1 hin).1]
          rfl
        refine ⟨word, token :: tokens, by simp, fun hleft => ?_⟩
        rw [hmem]
        exact .notMember hnot hin hleft hright
  declines := by
    intro left stream rest hreads hends
    obtain ⟨_ | ⟨token, negating?⟩, between, hcomparator, hnext⟩ := reads_bind.1 hreads
    · obtain ⟨-, rfl⟩ := reads_pure.1 hnext
      exact comparator?_declines hcomparator hends
    · obtain ⟨-, hright⟩ := hnext.refuse_bind not_reads_failAt
      obtain ⟨right, after, -, hdone⟩ := reads_bind.1 hright
      cases (reads_pure.1 hdone).1
  stops := by
    intro left stream hends hnil
    have hword : ¬ stream.current.isName ["in", "not"] := by
      simp [Token.isName, hends.current_kind hnil]
    have hkind : stream.current.kind ∉ [Kind.eq, .ne, .gt, .gteq, .lt, .lteq] := by
      simp [hends.current_kind hnil]
    have hnone : Reads comparator? stream none stream :=
      (reads_take?_none hkind).bind ((reads_takeName?_none hword).bind (reads_pure.2 ⟨rfl, rfl⟩))
    exact hnone.bind (reads_pure.2 ⟨rfl, rfl⟩)

/-- Only some tests of the dialect take an argument. -/
theorem testArgument_spelled {name : String} {build : Option (Expr Token) → Expr Token}
    (hreads : Reads (do
      let argument ←
        if dialect.takesArgument name then pure (some (← operand expression)) else pure none
      return build argument) stream value rest) (hends : stream.Ends) :
    ∃ argument tokens, value = build argument ∧ stream = rest.prepend tokens ∧
      Spells .optional dialect (.testArgument name argument) tokens := by
  dsimp only at hreads
  split at hreads
  · next htakes =>
    obtain ⟨argument, tokens, between, hvalue, rfl, hdone⟩ :=
      (operand_spelled hexpr).bind hreads hends
    obtain ⟨rfl, rfl⟩ := reads_pure.1 hdone
    exact ⟨_, tokens, rfl, rfl, .oneArgument htakes hvalue⟩
  · next htakes =>
    obtain ⟨rfl, rfl⟩ := reads_pure.1 hreads
    exact ⟨_, [], rfl, rfl, .noArgument (by simpa using htakes)⟩

/-- The name of a test may be any token that does not end the expression. -/
theorem testName_spelled {word : Token} {build : Token → Option (Expr Token) → Expr Token}
    (hreads : Reads (do
      refuse endKinds (failAt word .incompleteTest)
      let name ← pop
      let argument ←
        if dialect.takesArgument name.text then pure (some (← operand expression)) else pure none
      return build name argument) stream value rest) (hends : stream.Ends) :
    ∃ name argument tokens, stream.current = name ∧ name.kind ≠ .eof ∧ name.kind ≠ .variableEnd ∧
      value = build name argument ∧ stream = rest.prepend (name :: tokens) ∧
      Spells .optional dialect (.testArgument name.text argument) tokens := by
  obtain ⟨hkind, hpop⟩ := hreads.refuse_bind not_reads_failAt
  simp only [endKinds, List.mem_cons, List.not_mem_nil, or_false, not_or] at hkind
  obtain ⟨between, hstream, hargument⟩ := hpop.pop_bind hends hkind.1
  have hbetween : between.Ends := by
    rw [hstream] at hends
    exact hends
  obtain ⟨argument, tokens, rfl, rfl, hspelled⟩ := testArgument_spelled hexpr hargument hbetween
  exact ⟨stream.current, argument, tokens, rfl, hkind.1, hkind.2, rfl, by simpa using hstream,
    hspelled⟩

theorem tested_spelled {subject : Expr Token} {before : List Token}
    (hsubject : Spells .optional dialect (.expr .comparison subject) before)
    (hkind : stream.current.kind ≠ .pipe)
    (hreads : Reads (tested dialect expression subject) stream value rest) (hends : stream.Ends) :
    ∃ tokens, stream = rest.prepend tokens ∧
      Spells .optional dialect (.expr .test value) (before ++ tokens) := by
  obtain ⟨filtered, between, hfilters, hnext⟩ := reads_bind.1 hreads
  obtain ⟨rfl, rfl⟩ := eq_of_reads_filters hexpr hkind hfilters hends
  rcases hnext.takeName?_bind hends with ⟨word, after, hword, rfl, htest⟩ | ⟨-, hdone⟩
  · rcases htest.takeName?_bind hends with ⟨negating, last, hnot, rfl, hname⟩ | ⟨hnot, hname⟩
    · obtain ⟨name, argument, tokens, -, heof, hend, rfl, rfl, hargument⟩ :=
        testName_spelled hexpr hname hends
      exact ⟨word :: negating :: name :: tokens, by simp,
        .notTest hword hnot heof hend hsubject hargument⟩
    · obtain ⟨name, argument, tokens, hcurrent, heof, hend, rfl, rfl, hargument⟩ :=
        testName_spelled hexpr hname hends
      exact ⟨word :: name :: tokens, by simp,
        .test hword heof hend hnot hsubject hargument⟩
  · obtain ⟨rfl, rfl⟩ := reads_pure.1 hdone
    exact ⟨[], rfl, by simpa using .tighten hsubject⟩

theorem comparison_spelled : Derives dialect .test (comparison dialect expression) := by
  intro stream value rest hreads hends
  obtain ⟨first, between, hfirst, hnext⟩ := reads_bind.1 hreads
  obtain ⟨tokens, rfl, hspelled, hkind⟩ := sum_spelled hexpr hfirst hends
  obtain ⟨compared, after, hloop, htested⟩ := reads_bind.1 hnext
  have hstep : Lengthens dialect .comparison (comparison? expression) :=
    lengthens_comparison? hexpr
  have hkept : after.Ends ∧ after.current.kind ≠ .pipe := by
    refine (hstep.steady.repeats hloop hends).keeps
      (fun stream => stream.Ends ∧ stream.current.kind ≠ .pipe) ⟨hends, hkind⟩ ?_
    rintro left result stream rest hround ⟨hends, -⟩
    obtain ⟨_ | ⟨token, negating?⟩, between, hcomparator, hnext⟩ := reads_bind.1 hround
    · cases (reads_pure.1 hnext).1
    · obtain ⟨moved, rfl, -⟩ := comparator?_compares hcomparator hends
      obtain ⟨-, hoperand⟩ := hnext.refuse_bind not_reads_failAt
      obtain ⟨right, last, hright, hdone⟩ := reads_bind.1 hoperand
      obtain ⟨tokens, rfl, -, hkind⟩ := sum_spelled hexpr hright hends
      obtain ⟨-, rfl⟩ := reads_pure.1 hdone
      exact ⟨hends, hkind⟩
  obtain ⟨more, rfl, hcompared, -⟩ := hstep.repeat_spelled hloop hends (.tighten hspelled)
  obtain ⟨last, rfl, htest⟩ := tested_spelled hexpr hcompared hkept.2 htested hends
  exact ⟨tokens ++ (more ++ last), by simp, by simpa using htest⟩

end Tests

/-! ## Logic -/

section Logic

variable (hexpr : Derives dialect .conditional expression)
include hexpr

theorem negation_spelled : Derives dialect .negation (negation dialect expression) := by
  intro stream value rest hreads hends
  obtain ⟨words, between, hwords, hnext⟩ := reads_bind.1 hreads
  obtain ⟨rfl, hnames⟩ := hwords.takeAllNames_eq
  obtain ⟨subject, tokens, between, hsubject, rfl, hdone⟩ :=
    (comparison_spelled hexpr).bind hnext hends
  obtain ⟨rfl, rfl⟩ := reads_pure.1 hdone
  exact ⟨words ++ tokens, by simp, Spells.foldr (.tighten hsubject) hnames
    fun _ _ _ hword hvalue => .negation hword hvalue⟩

theorem conjunction_spelled : Derives dialect .conjunction (conjunction dialect expression) :=
  leftGrouped_spelled (negation_spelled hexpr) (takesOperator_wordOperator rfl rfl rfl)

theorem disjunction_spelled : Derives dialect .disjunction (disjunction dialect expression) :=
  leftGrouped_spelled (conjunction_spelled hexpr) (takesOperator_wordOperator rfl rfl rfl)

theorem conditional_spelled : Derives dialect .conditional (conditional dialect expression) := by
  intro stream value rest hreads hends
  obtain ⟨consequent, tokens, between, hconsequent, rfl, hnext⟩ :=
    (disjunction_spelled hexpr).bind hreads hends
  rcases hnext.takeName?_bind hends with ⟨word, between, hword, rfl, hif⟩ | ⟨-, hdone⟩
  · obtain ⟨condition, conditionTokens, between, hcondition, rfl, helse⟩ :=
      (disjunction_spelled hexpr).bind hif hends
    rcases helse.takeName?_bind hends with ⟨otherwise, between, hotherwise, rfl, hlast⟩ | ⟨-, hdone⟩
    · obtain ⟨alternative, alternativeTokens, between, halternative, rfl, hdone⟩ :=
        hexpr.bind hlast hends
      obtain ⟨rfl, rfl⟩ := reads_pure.1 hdone
      exact ⟨tokens ++ word :: (conditionTokens ++ otherwise :: alternativeTokens), by simp,
        .alternative hword hotherwise hconsequent hcondition halternative⟩
    · obtain ⟨rfl, rfl⟩ := reads_pure.1 hdone
      exact ⟨tokens ++ word :: conditionTokens, by simp,
        .conditional hword hconsequent hcondition⟩
  · obtain ⟨rfl, rfl⟩ := reads_pure.1 hdone
    exact ⟨tokens, rfl, .tighten hconsequent⟩

end Logic

/-! ## Whole expressions -/

theorem expressionOver_spelled (dialect : Dialect) (bound : List Token) :
    Derives dialect .conditional (expressionOver dialect bound) := by
  induction bound with
  | nil =>
    intro stream value rest hreads
    exact absurd hreads not_reads_failHere
  | cons token bound ih => exact conditional_spelled ih

theorem expression_spelled (dialect : Dialect) :
    Derives dialect .conditional (Grammar.expression dialect) := by
  intro stream value rest hreads hends
  obtain ⟨state, between, hget, hconditional⟩ := reads_bind.1 hreads
  obtain ⟨rfl, rfl⟩ := reads_get.1 hget
  exact conditional_spelled (expressionOver_spelled dialect _) hconditional hends

/-- An expression takes up a stream to the end. -/
theorem wholeExpression_spelled (hreads : Reads (wholeExpression dialect) stream value rest)
    (hends : stream.Ends) (hkinds : ∀ token ∈ stream.upcoming, token.kind ≠ .eof) :
    Spells .optional dialect (.expr .conditional value) stream.upcoming := by
  obtain ⟨expr, tokens, between, hspelled, rfl, hend⟩ :=
    (expression_spelled dialect).bind hreads hends
  obtain ⟨_, last, hexpect, hdone⟩ := reads_bind.1 hend
  obtain ⟨rfl, -⟩ := reads_pure.1 hdone
  have hnil : between.upcoming = [] := by
    refine TokenStream.eq_nil_of_current_eof ?_ (hexpect.current_of_expect not_reads_failHere)
    intro token hmem
    exact hkinds token (List.mem_append_right _ hmem)
  simpa [hnil] using hspelled

end Stencil.Grammar

namespace Stencil

open Grammar

/-- A list of tokens that is parsed is read from its start. -/
theorem reads_of_parseTokens {α : Type} {rule : Rule α} {tokens : List Token} {value : α}
    (hparse : parseTokens rule tokens = .ok value) :
    ∃ rest, Rule.Reads rule (.ofTokens tokens) value rest :=
  ⟨_, Prod.ext ((parseTokens_eq rule tokens).symm.trans hparse) rfl⟩

/-- Only the tokens before the end take part in an expression. -/
theorem Grammar.spelled_of_parseTokens {dialect : Dialect} {tokens : List Token}
    {expr : Expr Token} (hparse : parseTokens (wholeExpression dialect) tokens = .ok expr) :
    Spells .optional dialect (.expr .conditional expr)
      (tokens.takeWhile fun token => token.kind != .eof) := by
  obtain ⟨rest, hreads⟩ := reads_of_parseTokens hparse
  exact wholeExpression_spelled hreads (TokenStream.ofTokens_ends tokens)
    fun _ => TokenStream.kind_ne_eof_of_mem_ofTokens

/-- The tokens before the end of a text that is read as an expression are a spelling of its tree. -/
theorem spells_of_parseTokens {dialect : Dialect} {tokens : List Token} {expr : Expr Token}
    (hparse : parseTokens (wholeExpression dialect) tokens = .ok expr) :
    Spells .optional dialect (.expr .conditional expr)
      (tokens.takeWhile fun token => token.kind != .eof) :=
  spelled_of_parseTokens hparse

/-- In `f(k=a b)` there is no comma, and the named argument is listed behind the positional one. -/
theorem spells_of_parseTokens_without_comma :
    parseTokens (wholeExpression .standard)
        [⟨.name, "f", ⟨0, 1, 1, 1⟩⟩, ⟨.leftParen, "(", ⟨1, 2, 1, 2⟩⟩, ⟨.name, "k", ⟨2, 3, 1, 3⟩⟩,
          ⟨.assign, "=", ⟨3, 4, 1, 4⟩⟩, ⟨.name, "a", ⟨4, 5, 1, 5⟩⟩, ⟨.name, "b", ⟨6, 7, 1, 7⟩⟩,
          ⟨.rightParen, ")", ⟨7, 8, 1, 8⟩⟩, ⟨.eof, "", ⟨8, 8, 1, 9⟩⟩] =
      .ok (.call ⟨.leftParen, "(", ⟨1, 2, 1, 2⟩⟩ (.name ⟨.name, "f", ⟨0, 1, 1, 1⟩⟩ "f")
        [.name ⟨.name, "b", ⟨6, 7, 1, 7⟩⟩ "b"] [("k", .name ⟨.name, "a", ⟨4, 5, 1, 5⟩⟩ "a")]) ∧
    Spells .optional .standard
      (.expr .conditional
        (.call ⟨.leftParen, "(", ⟨1, 2, 1, 2⟩⟩ (.name ⟨.name, "f", ⟨0, 1, 1, 1⟩⟩ "f")
          [.name ⟨.name, "b", ⟨6, 7, 1, 7⟩⟩ "b"] [("k", .name ⟨.name, "a", ⟨4, 5, 1, 5⟩⟩ "a")]))
      [⟨.name, "f", ⟨0, 1, 1, 1⟩⟩, ⟨.leftParen, "(", ⟨1, 2, 1, 2⟩⟩, ⟨.name, "k", ⟨2, 3, 1, 3⟩⟩,
        ⟨.assign, "=", ⟨3, 4, 1, 4⟩⟩, ⟨.name, "a", ⟨4, 5, 1, 5⟩⟩, ⟨.name, "b", ⟨6, 7, 1, 7⟩⟩,
        ⟨.rightParen, ")", ⟨7, 8, 1, 8⟩⟩] := by
  refine (and_iff_left_of_imp fun hparse => ?_).2 (by rfl)
  exact spells_of_parseTokens hparse

end Stencil
