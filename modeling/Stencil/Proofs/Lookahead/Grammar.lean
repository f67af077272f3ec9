import Stencil.Proofs.Lookahead
import Stencil.Proofs.Spelling.Levels
import Stencil.Proofs.Spelling.Soundness

/-!
# The grammar looks one token ahead

Every rule of the grammar carries over to other streams with what it reads, if the rule for the nested
expressions does.  Nested expressions stand behind a token of the rule that holds them, so a bound on
the depth that is less by one is enough for them.
-/

namespace Stencil.Grammar

open Rule

variable {dialect : Dialect} {expression expression' : ExprRule} {limit : ℕ}

/-- A spelling of what starts with an expression has a token. -/
theorem consumes_of_yields {α : Type} {rule : Rule α} {phrase : α → Phrase} {level : Level}
    (hyields : Yields rule fun value => Spells .optional dialect (phrase value))
    (hstart : ∀ value, (phrase value).start? = some level) : Consumes rule := by
  intro stream value rest hreads hends
  obtain ⟨tokens, rfl, hspelled⟩ := hyields hreads hends
  obtain ⟨token, more, rfl, -⟩ := hspelled.starts (hstart value)
  exact ⟨token, more, rfl⟩

/-! ## Literals -/

/-- A number is its one token, whatever stands behind it. -/
theorem carries_number :
    CarriesFrom (fun token => token.kind ∈ [Kind.integer, .float]) limit number number := by
  refine carries_pop_bind (fun token hkind => by grind) fun token => ?_
  split
  · split
    · exact carries_pure _
    · exact carries_failAt
  · split
    · split
      · exact carries_pure _
      · exact carries_failAt
    · exact carries_failAt

theorem carries_string : CarriesFrom (fun token => token.kind = .string) limit string string :=
  carries_pop_bind (fun token hkind => by simp [hkind]) fun token => carries_pure _

theorem carries_selector : Carries limit selector selector := by
  refine carries_take?_bind (by decide) (fun token => ?_) carries_failHere
  dsimp only
  split
  · exact carries_pure _
  · split
    · exact carries_pure _
    · exact carries_failAt

/-! ## Brackets -/

section Brackets

variable (hexpr : Derives dialect .conditional expression)
  (hcarries : Carries limit expression expression')

section

include hcarries

/-- A comma is read with the item behind it, unless the closing bracket shows that there is none. -/
theorem carries_nextItem (closing : Kind) (found : List (Expr Token) × Bool) :
    Carries limit (nextItem expression closing found) (nextItem expression' closing found) := by
  obtain ⟨items, trailing⟩ := found
  refine carries_take?_bind (by decide) (fun comma => ?_) (carries_pure none)
  refine (carries_sees [closing]).bind fun seen => ?_
  split
  · exact carries_pure _
  · exact hcarries.pred.bind fun item => carries_pure _

theorem carries_pair : Carries limit (pair expression) (pair expression') := by
  refine hcarries.bind fun key => ?_
  refine (carries_expect (by decide) not_reads_failHere).bind fun _ => ?_
  exact hcarries.bind fun value => carries_pure (key, value)

/-- A comma is read with the pair behind it, unless the closing brace shows that there is none. -/
theorem carries_nextPair (pairs : List (Expr Token × Expr Token)) :
    Carries limit (nextPair expression pairs) (nextPair expression' pairs) := by
  refine carries_take?_bind (by decide) (fun comma => ?_) (carries_pure none)
  refine (carries_sees [.rightBrace]).bind fun seen => ?_
  split
  · exact carries_pure _
  · exact (carries_pair hcarries).pred.bind fun pair => carries_pure _

/-- An equals sign behind an argument shows that it was a keyword and that its value is still to
come. -/
theorem carries_argument (arguments : ArgumentList) :
    Carries limit (argument expression arguments) (argument expression' arguments) := by
  refine hcarries.bind fun value => ?_
  refine carries_take?_bind (by decide) (fun assign => ?_) (carries_pure _)
  dsimp only
  split
  · split
    · exact carries_failAt
    · exact hcarries.pred.bind fun value => carries_pure _
  · exact carries_failAt

theorem carries_unlessSeen (kind : Kind) :
    Carries limit (unlessSeen expression kind) (unlessSeen expression' kind) := by
  refine (carries_sees [kind]).bind fun seen => ?_
  split
  · exact carries_pure none
  · exact hcarries.bind fun value => carries_pure (some value)

/-- Whether a bound is left out is shown by the token at which it would start. -/
theorem carries_subscript (subject : Expr Token) (bracket : Token) :
    Carries limit (subscript expression subject bracket) (subscript expression' subject bracket) := by
  refine carries_refuse_bind not_reads_failAt (.of_carries ?_)
  refine CarriesFrom.bind ?_ fun node => ?_
  · refine (carries_unlessSeen hcarries .colon).bind fun start => ?_
    refine carries_take?_bind (by decide) (fun colon => ?_) ?_
    · exact (carries_unlessSeen hcarries .rightBracket).pred.bind fun stop => carries_pure _
    · cases start with
      | some key => exact carries_pure _
      | none => exact carries_failAt
  · exact (carries_expect (by decide) not_reads_failAt).bind fun _ => carries_pure node

end

include hexpr hcarries

/-- Items go on as long as a comma follows. -/
theorem carries_items (closing : Kind) :
    Carries limit (items expression closing) (items expression' closing) :=
  hcarries.bind fun first =>
    carries_repeatWhile (steady_nextItem hexpr) (carries_nextItem hcarries closing) ([first], false)

/-- The opening bracket counts against the bound, so for the items of a list there is one token
less. -/
theorem carries_list : CarriesFrom (fun token => token.kind = .leftBracket) (limit + 1)
    (list expression) (list expression') := by
  refine carries_pop_bind (fun token hkind => by simp [hkind]) fun opening => ?_
  refine carries_take?_bind (by decide) (fun closing => carries_pure _) ?_
  refine (carries_items hexpr hcarries .rightBracket).bind fun (items, _) => ?_
  exact (carries_expect (by decide) not_reads_failHere).bind fun _ => carries_pure _

theorem carries_group : CarriesFrom (fun token => token.kind = .leftParen) (limit + 1)
    (group expression) (group expression') := by
  refine carries_pop_bind (fun token hkind => by simp [hkind]) fun opening => ?_
  refine carries_take?_bind (by decide) (fun closing => carries_pure _) ?_
  refine (carries_items hexpr hcarries .rightParen).bind fun (items, trailing) => ?_
  refine (carries_expect (by decide) not_reads_failAt).bind fun _ => ?_
  split
  · exact carries_pure _
  · exact carries_pure _

theorem carries_dict : CarriesFrom (fun token => token.kind = .leftBrace) (limit + 1)
    (dict expression) (dict expression') := by
  have hrest (opening : Token) (first : List (Expr Token × Expr Token)) : Carries limit
      (do
        let pairs ← repeatWhile first (nextPair expression)
        expect .rightBrace (failHere fun _ => .missingBrace)
        return Expr.dict opening pairs)
      (do
        let pairs ← repeatWhile first (nextPair expression')
        expect .rightBrace (failHere fun _ => .missingBrace)
        return Expr.dict opening pairs) := by
    refine (carries_repeatWhile (steady_nextPair hexpr) (carries_nextPair hcarries) first).bind
      fun pairs => ?_
    exact (carries_expect (by decide) not_reads_failHere).bind fun _ => carries_pure _
  refine carries_pop_bind (fun token hkind => by simp [hkind]) fun opening => ?_
  refine (carries_sees [.rightBrace]).bind fun seen => ?_
  split
  · exact hrest opening []
  · exact (carries_pair hcarries).bind fun pair => hrest opening [pair]

/-! ## Arguments and postfix forms -/

/-- Every argument takes up a token, so a bound on the arguments is as good as any that is no less than
the number of tokens. -/
theorem carries_argumentsFrom {lower : ℕ} (hlower : lower ≤ limit) {opening : Token}
    (bound bound' : List Token) (hbound : lower ≤ bound'.length) (arguments : ArgumentList) :
    Carries lower (argumentsFrom expression opening bound arguments)
      (argumentsFrom expression' opening bound' arguments) := by
  induction bound' generalizing lower bound arguments with
  | nil =>
    obtain rfl : lower = 0 := Nat.le_zero.1 hbound
    exact .of_consumes (consumes_of_yields (argumentsFrom_spelled hexpr arguments) fun _ => rfl)
  | cons token' bound' ih =>
    cases bound with
    | nil => exact .of_not_reads not_reads_failAt
    | cons token bound =>
      have hmore : lower - 1 ≤ bound'.length := by
        rw [List.length_cons] at hbound
        omega
      refine carries_refuse_bind not_reads_failAt (.of_carries ?_)
      refine CarriesFrom.bind_of_consumes
        (consumes_of_yields (argument_spelled hexpr arguments) fun _ => rfl)
        ((carries_argument hcarries arguments).mono hlower) fun arguments => ?_
      refine (carries_take? (by decide)).bind fun comma => ?_
      refine carries_take?_bind (by decide) (fun closing => carries_pure _) ?_
      exact ih (Nat.sub_le_of_le_add (by omega)) bound hmore arguments

/-- The rounds of an argument list are bounded by the tokens of the whole stream, of which there may
be more on one side than on the other. -/
theorem carries_arguments (opening : Token) :
    Carries limit (arguments expression opening) (arguments expression' opening) := by
  refine carries_take?_bind (by decide) (fun closing => carries_pure _) ?_
  refine carries_get_bind fun state state' => ?_
  exact carries_argumentsFrom hexpr hcarries (min_le_left _ _) _ _ (min_le_right _ _) {}

/-- A form behind a subject begins with a token of its own, which counts against the bound; where
the next token begins none it is left alone. -/
theorem carries_postfixForm? (subject : Expr Token) :
    Carries (limit + 1) (postfixForm? expression subject) (postfixForm? expression' subject) := by
  refine carries_take?_bind (by decide) (fun token => ?_) (carries_pure none)
  dsimp only
  split
  · exact carries_selector.bind fun selector => carries_pure _
  · exact (carries_subscript hcarries subject token).bind fun node => carries_pure _
  · exact (carries_arguments hexpr hcarries token).bind fun arguments => carries_pure _

/-- The forms behind an operand end at the first token that begins none of them. -/
theorem carries_withPostfix {Start : Token → Prop} {literal literal' : ExprRule}
    (hliteral : CarriesFrom Start (limit + 1) literal literal') :
    CarriesFrom Start (limit + 1) (withPostfix expression literal)
      (withPostfix expression' literal') :=
  hliteral.bind <|
    carries_repeatWhile (lengthens_postfixForm? hexpr).steady (carries_postfixForm? hexpr hcarries)

/-- A boolean value ends the operand; behind any other name the forms go on. -/
theorem carries_variableOrBoolean : CarriesFrom (fun token => token.kind = .name) (limit + 1)
    (variableOrBoolean expression) (variableOrBoolean expression') := by
  refine carries_pop_bind (fun token hkind => by simp [hkind]) fun token => ?_
  split
  · exact carries_pure _
  · split
    · exact carries_failAt
    · exact (carries_repeatWhile (lengthens_postfixForm? hexpr).steady
        (carries_postfixForm? hexpr hcarries) _).pred

/-- The kind of the current token says which operand is read, and it is the same on both sides. -/
theorem carries_plainOperand :
    Carries (limit + 1) (plainOperand expression) (plainOperand expression') := by
  refine carries_current_bind fun token => ?_
  split
  · next hkind => exact (carries_withPostfix hexpr hcarries carries_number).imp (by simp [hkind])
  · next hkind => exact (carries_withPostfix hexpr hcarries carries_number).imp (by simp [hkind])
  · next hkind => exact (carries_withPostfix hexpr hcarries carries_string).imp (by simp [hkind])
  · next hkind =>
    exact (carries_withPostfix hexpr hcarries (carries_group hexpr hcarries)).imp (by simp [hkind])
  · next hkind =>
    exact (carries_withPostfix hexpr hcarries (carries_list hexpr hcarries)).imp (by simp [hkind])
  · next hkind =>
    exact (carries_withPostfix hexpr hcarries (carries_dict hexpr hcarries)).imp (by simp [hkind])
  · next hkind => exact (carries_variableOrBoolean hexpr hcarries).imp (by simp [hkind])
  all_goals exact carries_failHere

/-- The markers before an operand end at the token at which it starts. -/
theorem carries_operand : Carries (limit + 1) (operand expression) (operand expression') := by
  refine (carries_takeAll (by decide)).bind fun markers => ?_
  exact (carries_plainOperand hexpr hcarries).bind fun subject => carries_pure _

end Brackets

/-! ## Operators -/

/-- An operator is taken off both streams or off neither. -/
theorem carries_operatorOf {kinds : List Kind} (heof : Kind.eof ∉ kinds) :
    Carries limit (operatorOf kinds) (operatorOf kinds) :=
  carries_take?_bind heof (fun _ => carries_pure _) (carries_pure none)

theorem carries_wordOperator {word : String} {op : BinaryOp} :
    Carries limit (wordOperator word op) (wordOperator word op) :=
  carries_takeName?.bind fun _ => carries_pure _

/-- A negating word is read with the word behind it, or the rule fails. -/
theorem carries_comparator? : Carries limit comparator? comparator? := by
  refine carries_take?_bind (by decide) (fun token => carries_pure _) ?_
  refine carries_takeName?_bind (fun word => ?_) (carries_pure none)
  dsimp only
  split
  · exact carries_takeName?_bind (fun token => carries_pure _) carries_failAt
  · exact carries_pure _

/-- An operator is read with the operand behind it, or not at all. -/
theorem carries_nextOperand {operand operand' : ExprRule}
    {operator : Rule (Option (BinaryOp × Token))} (hoperand : Carries limit operand operand')
    (hoperator : Carries limit operator operator) (left : Expr Token) :
    Carries limit (nextOperand operand operator left) (nextOperand operand' operator left) := by
  refine hoperator.bind fun found => ?_
  cases found with
  | none => exact carries_pure none
  | some found => exact hoperand.bind fun right => carries_pure _

/-- A level ends at the first token that is none of its operators. -/
theorem carries_leftGrouped (level : Level) {operand operand' : ExprRule}
    {operator : Rule (Option (BinaryOp × Token))} (hderives : Derives dialect level.tighter operand)
    (htakes : TakesOperator level operator) (hoperand : Carries limit operand operand')
    (hoperator : Carries limit operator operator) :
    Carries limit (leftGrouped operand operator) (leftGrouped operand' operator) :=
  hoperand.bind <| carries_repeatWhile (lengthens_nextOperand hderives htakes).steady
    (carries_nextOperand hoperand hoperator)

section Levels

variable (hexpr : Derives dialect .conditional expression)
  (hcarries : Carries limit expression expression')
include hexpr hcarries

/-! ## Filters and arithmetic -/

/-- A filter begins with its bar; whether it has arguments is shown by the token behind its name. -/
theorem carries_filter? (subject : Expr Token) :
    Carries (limit + 1) (filter? expression subject) (filter? expression' subject) := by
  refine carries_take?_bind (by decide) (fun pipe => ?_) (carries_pure none)
  refine carries_take?_bind (by decide) (fun name => ?_) carries_failAt
  refine carries_take?_bind (by decide) (fun opening => ?_) (carries_pure _)
  exact (carries_arguments hexpr hcarries opening).pred.pred.bind fun arguments => carries_pure _

omit hcarries in
/-- A round of filters moves past a token or leaves the stream alone. -/
theorem steady_filter? : Steady (filter? expression) := by
  obtain ⟨body, hbody, hstep⟩ := exists_filterBody hexpr
  exact steady_of_take? [.pipe] hstep (by decide) hbody.isSome

theorem carries_filters (subject : Expr Token) :
    Carries (limit + 1) (filters expression subject) (filters expression' subject) :=
  carries_repeatWhile (steady_filter? hexpr) (carries_filter? hexpr hcarries) subject

/-- The signs before an operand end at the token at which it starts. -/
theorem carries_signed : Carries (limit + 1) (signed expression) (signed expression') := by
  refine (carries_takeAll (by decide)).bind fun signs => ?_
  refine (carries_operand hexpr hcarries).bind fun subject => ?_
  exact (carries_filters hexpr hcarries subject).bind fun filtered => carries_pure _

theorem carries_power : Carries (limit + 1) (power expression) (power expression') :=
  carries_leftGrouped .power (signed_spelled hexpr).derives (takesOperator_operatorOf (by decide))
    (carries_signed hexpr hcarries) (carries_operatorOf (by decide))

theorem carries_product : Carries (limit + 1) (product expression) (product expression') :=
  carries_leftGrouped .product (power_spelled hexpr).derives (takesOperator_operatorOf (by decide))
    (carries_power hexpr hcarries) (carries_operatorOf (by decide))

theorem carries_concatenation :
    Carries (limit + 1) (concatenation expression) (concatenation expression') :=
  carries_leftGrouped .concatenation (product_spelled hexpr).derives
    (takesOperator_operatorOf (by decide)) (carries_product hexpr hcarries)
    (carries_operatorOf (by decide))

theorem carries_sum : Carries (limit + 1) (sum expression) (sum expression') :=
  carries_leftGrouped .sum (concatenation_spelled hexpr).derives
    (takesOperator_operatorOf (by decide)) (carries_concatenation hexpr hcarries)
    (carries_operatorOf (by decide))

/-! ## Logic -/

/-- A comparator is read with its right operand, or not at all. -/
theorem carries_comparison? (left : Expr Token) :
    Carries (limit + 1) (comparison? expression left) (comparison? expression' left) := by
  refine carries_comparator?.bind fun found => ?_
  rcases found with _ | ⟨token, negating?⟩
  · exact carries_pure none
  · refine carries_refuse_bind not_reads_failAt (.of_carries ?_)
    exact (carries_sum hexpr hcarries).bind fun right => carries_pure _

theorem carries_comparisons : Carries (limit + 1)
    (do repeatWhile (← sum expression) (comparison? expression))
    (do repeatWhile (← sum expression') (comparison? expression')) :=
  (carries_sum hexpr hcarries).bind <| carries_repeatWhile (lengthens_comparison? hexpr).steady
    (carries_comparison? hexpr hcarries)

/-- A test begins with a word of its own, and its name says whether an argument is read. -/
theorem carries_tested (subject : Expr Token) :
    Carries (limit + 1) (tested dialect expression subject) (tested dialect expression' subject) := by
  refine (carries_filters hexpr hcarries subject).bind fun subject => ?_
  refine carries_takeName?_bind (fun word => ?_) (carries_pure subject)
  refine carries_takeName?.bind fun negating? => ?_
  refine carries_refuse_bind not_reads_failAt ?_
  refine carries_pop_bind (fun token hkind => ?_) fun name => ?_
  · rintro heof
    exact hkind (by simp [heof, endKinds])
  · dsimp only
    split
    · exact (carries_operand hexpr hcarries).pred.pred.bind fun argument => carries_pure _
    · exact carries_pure _

theorem carries_comparison :
    Carries (limit + 1) (comparison dialect expression) (comparison dialect expression') := by
  refine (carries_sum hexpr hcarries).bind fun first => ?_
  refine (carries_repeatWhile (lengthens_comparison? hexpr).steady
    (carries_comparison? hexpr hcarries) first).bind fun compared => ?_
  exact carries_tested hexpr hcarries compared

/-- The negating words end at the token at which the comparison starts. -/
theorem carries_negation :
    Carries (limit + 1) (negation dialect expression) (negation dialect expression') := by
  refine carries_takeAllNames.bind fun words => ?_
  exact (carries_comparison hexpr hcarries).bind fun subject => carries_pure _

theorem carries_conjunction :
    Carries (limit + 1) (conjunction dialect expression) (conjunction dialect expression') :=
  carries_leftGrouped .conjunction (negation_spelled hexpr) (takesOperator_wordOperator rfl rfl rfl)
    (carries_negation hexpr hcarries) carries_wordOperator

theorem carries_disjunction :
    Carries (limit + 1) (disjunction dialect expression) (disjunction dialect expression') :=
  carries_leftGrouped .disjunction (conjunction_spelled hexpr) (takesOperator_wordOperator rfl rfl rfl)
    (carries_conjunction hexpr hcarries) carries_wordOperator

/-- A condition begins with a word of its own, and so does its alternative. -/
theorem carries_conditional :
    Carries (limit + 1) (conditional dialect expression) (conditional dialect expression') := by
  refine (carries_disjunction hexpr hcarries).bind fun consequent => ?_
  refine carries_takeName?_bind (fun word => ?_) (carries_pure consequent)
  refine (carries_disjunction hexpr hcarries).pred.bind fun condition => ?_
  refine carries_takeName?_bind (fun otherwise => ?_) (carries_pure _)
  exact hcarries.pred.bind fun alternative => carries_pure _

end Levels

/-! ## By level -/

section ByLevel

variable {level : Level}

theorem takesOperator_of_operatorAt? {operator : Rule (Option (BinaryOp × Token))}
    (hoperator : operatorAt? level = some operator) : TakesOperator level operator := by
  cases level <;> cases hoperator
  case disjunction | conjunction => exact takesOperator_wordOperator rfl rfl rfl
  all_goals exact takesOperator_operatorOf (by decide)

variable (hexpr : Derives dialect .conditional expression)
include hexpr

/-- The rule of a level moves past spellings of the level; only that of the subjects goes on to the
postfix forms. -/
theorem ruleAt_spelled (hlevel : level ≠ .subject) :
    Derives dialect level (ruleAt dialect expression level) := by
  cases level with
  | conditional => exact conditional_spelled hexpr
  | disjunction => exact disjunction_spelled hexpr
  | conjunction => exact conjunction_spelled hexpr
  | negation => exact negation_spelled hexpr
  | test => exact comparison_spelled hexpr
  | comparison =>
    intro stream value rest hreads hends
    obtain ⟨first, tokens, between, hfirst, rfl, hloop⟩ :=
      (sum_spelled hexpr).derives.bind hreads hends
    obtain ⟨more, rfl, hspelled, -⟩ :=
      (lengthens_comparison? hexpr).repeat_spelled hloop hends (.tighten hfirst)
    exact ⟨tokens ++ more, by simp, hspelled⟩
  | sum => exact (sum_spelled hexpr).derives
  | concatenation => exact (concatenation_spelled hexpr).derives
  | product => exact (product_spelled hexpr).derives
  | power => exact (power_spelled hexpr).derives
  | sign => exact (signed_spelled hexpr).derives
  | filter =>
    intro stream value rest hreads hends
    obtain ⟨first, tokens, between, hfirst, rfl, hloop⟩ := (operand_spelled hexpr).bind hreads hends
    obtain ⟨more, rfl, hspelled, -⟩ := filters_spelled hexpr (.tighten hfirst) hloop hends
    exact ⟨tokens ++ more, by simp, hspelled⟩
  | operand => exact operand_spelled hexpr
  | subject => exact absurd rfl hlevel

/-- An expression of any level has at least one token. -/
theorem consumes_ruleAt (level : Level) : Consumes (ruleAt dialect expression level) := by
  by_cases hlevel : level = .subject
  · subst hlevel
    exact consumes_of_yields (plainOperand_spelled hexpr) fun _ => rfl
  · exact consumes_of_yields (ruleAt_spelled hexpr hlevel) fun _ => rfl

/-- A round of any level moves past a token or leaves the stream alone. -/
theorem steady_stepAt? {step : Expr Token → Rule (Option (Expr Token))}
    (hstep : stepAt? dialect expression level = some step) : Steady step := by
  cases hoperator : operatorAt? level with
  | some operator =>
    have htighter : level.tighter ≠ .subject := by
      cases level <;> cases hoperator <;> decide
    rw [stepAt?_of_operatorAt? hoperator] at hstep
    cases hstep
    exact (lengthens_nextOperand (ruleAt_spelled hexpr htighter)
      (takesOperator_of_operatorAt? hoperator)).steady
  | none =>
    cases level <;> cases hoperator <;> cases hstep
    · exact (lengthens_comparison? hexpr).steady
    · exact steady_filter? hexpr
    · exact (lengthens_postfixForm? hexpr).steady

/-- An expression of a level is read within one token more than the expressions nested in it,
because each of those stands behind a token of its own. -/
theorem carries_ruleAt (hcarries : Carries limit expression expression') (level : Level) :
    Carries (limit + 1) (ruleAt dialect expression level) (ruleAt dialect expression' level) := by
  cases level with
  | conditional => exact carries_conditional hexpr hcarries
  | disjunction => exact carries_disjunction hexpr hcarries
  | conjunction => exact carries_conjunction hexpr hcarries
  | negation => exact carries_negation hexpr hcarries
  | test => exact carries_comparison hexpr hcarries
  | comparison => exact carries_comparisons hexpr hcarries
  | sum => exact carries_sum hexpr hcarries
  | concatenation => exact carries_concatenation hexpr hcarries
  | product => exact carries_product hexpr hcarries
  | power => exact carries_power hexpr hcarries
  | sign => exact carries_signed hexpr hcarries
  | filter =>
    exact (carries_operand hexpr hcarries).bind fun subject => carries_filters hexpr hcarries subject
  | operand => exact carries_operand hexpr hcarries
  | subject => exact carries_plainOperand hexpr hcarries

end ByLevel

/-- A bound on the depth is as good as any that is no less than the number of tokens read. -/
theorem carries_expressionOver (bound bound' : List Token) :
    Carries bound'.length (expressionOver dialect bound) (expressionOver dialect bound') := by
  induction bound' generalizing bound with
  | nil =>
    exact .of_consumes (consumes_of_yields (expressionOver_spelled dialect bound) fun _ => rfl)
  | cons token' bound' ih =>
    cases bound with
    | nil => exact .of_not_reads not_reads_failHere
    | cons token bound => exact carries_conditional (expressionOver_spelled dialect bound) (ih bound)

/-- The rule that reads the expressions of a level, nested ones included. -/
def levelRule (dialect : Dialect) (level : Level) : ExprRule :=
  nested dialect fun expression => ruleAt dialect expression level

/-- What an expression of a level reads depends on its own tokens and the one behind them alone. -/
theorem carries_levelRule (limit : ℕ) (level : Level) :
    Carries limit (levelRule dialect level) (levelRule dialect level) := by
  refine carries_get_bind fun state state' => ?_
  refine (carries_ruleAt (expressionOver_spelled dialect _)
    (carries_expressionOver state.upcoming state'.upcoming) level).mono ?_
  exact (min_le_right _ _).trans (Nat.le_succ _)

theorem consumes_levelRule (level : Level) : Consumes (levelRule dialect level) := by
  intro stream value rest hreads hends
  obtain ⟨_, _, hget, hrule⟩ := reads_bind.1 hreads
  obtain ⟨rfl, rfl⟩ := reads_get.1 hget
  exact consumes_ruleAt (expressionOver_spelled dialect _) level hrule hends

end Stencil.Grammar
