import Stencil.Grammar.Logic
import Stencil.Proofs.Block.Operand

/-!
# Expressions beside each other

The levels of the grammar, from filters and signs up to whole expressions.  A block has one token
more than the expression in it, so its rules may nest one level deeper; the innermost level fails
either way.
-/

namespace Stencil.Grammar

open Rule

variable {block : Enclosure} {limit : Nat} {expression expression' : ExprRule}
  {stream inner : TokenStream}

/-- The second operator is the first one inside of a block. -/
def SameOperator (block : Enclosure) (operator operator' : BinaryOp × Token) : Prop :=
  operator' = operator.map id block.change

/-- The operator of a comparison and the word before it, outside and inside of a block. -/
def SameComparator (block : Enclosure) (comparator comparator' : Token × Option Token) : Prop :=
  comparator' = ((block.change comparator.1), comparator.2.map block.change)

/-! ## Levels of binary operators -/

section

variable {operand operand' : ExprRule} {operator : Rule (Option (BinaryOp × Token))}
  (hoperand : Alongside block limit operand operand')
  (hoperator : ∀ {stream inner}, Mirrors block stream inner →
    Steps block (SameOperator block) stream.upcoming.length operator operator stream inner)
include hoperand hoperator

/-- An operator is read with the operand behind it on both streams, or on neither. -/
theorem steps_nextOperand {left left' : Expr Token} (hleft : SameTree block left left')
    (hmirrors : Mirrors block stream inner) (hlimit : stream.upcoming.length ≤ limit) :
    Steps block (SameTree block) stream.upcoming.length (nextOperand operand operator left)
      (nextOperand operand' operator left') stream inner := by
  obtain rfl := hleft
  refine (hoperator hmirrors).bind ?_ rfl rfl
  rintro ⟨op, token⟩ _ rest rest' rfl hrest hlt
  refine (hoperand hrest (hlt.trans_le hlimit)).bind ?_
  rintro right _ rest₂ rest₂' rfl hrest₂ hlt₂
  exact agrees_pure (bothSome rfl) hrest₂ (hlt₂.trans hlt)

/-- A level of operators, given that its operator declines at the end. -/
theorem alongside_leftGrouped (hstops : operator.Stops) :
    Alongside block limit (leftGrouped operand operator) (leftGrouped operand' operator) := by
  intro stream inner hmirrors hlimit
  refine (hoperand hmirrors hlimit).bind fun first first' rest rest' hfirst hrest hlt => ?_
  have hrepeat : Agrees block (SameTree block) (rest.upcoming.length + 1)
      (repeatWhile first (nextOperand operand operator))
      (repeatWhile first' (nextOperand operand' operator)) rest rest' :=
    agrees_repeatWhile (fun _ _ _ _ hleft hmirrors hlimit =>
      steps_nextOperand hoperand hoperator hleft hmirrors hlimit.le)
      (fun _ => hstops.bind stops_none) hfirst hrest (hlt.trans hlimit)
  exact hrepeat.mono hlt

end

/-- Operators are no ends, so one is read on both streams or on neither. -/
theorem steps_operatorOf {kinds : List Kind} (hkinds : ∀ kind ∈ kinds, (arithmeticOp? kind).isSome)
    (hmirrors : Mirrors block stream inner) :
    Steps block (SameOperator block) stream.upcoming.length (operatorOf kinds) (operatorOf kinds)
      stream inner := by
  have hends : Kind.eof ∉ kinds ∧ Kind.variableEnd ∉ kinds :=
    ⟨fun hmem => absurd (hkinds _ hmem) (by decide), fun hmem => absurd (hkinds _ hmem) (by decide)⟩
  refine (steps_take? hmirrors hends).bind ?_ rfl rfl
  rintro token _ rest rest' ⟨rfl, hkind⟩ hrest hlt
  obtain ⟨op, hop⟩ := Option.isSome_iff_exists.1 (hkinds _ hkind)
  simp only [block.kind_change, hop, Option.map_some]
  exact agrees_pure (bothSome rfl) hrest hlt

theorem alongside_level {operand operand' : ExprRule} {kinds : List Kind}
    (hoperand : Alongside block limit operand operand')
    (hkinds : ∀ kind ∈ kinds, (arithmeticOp? kind).isSome) :
    Alongside block limit (leftGrouped operand (operatorOf kinds))
      (leftGrouped operand' (operatorOf kinds)) :=
  alongside_leftGrouped hoperand (steps_operatorOf hkinds)
    ((stops_take? fun hmem => absurd (hkinds _ hmem) (by decide)).bind stops_none)

theorem steps_wordOperator {word : String} {op : BinaryOp} (hmirrors : Mirrors block stream inner) :
    Steps block (SameOperator block) stream.upcoming.length (wordOperator word op)
      (wordOperator word op) stream inner := by
  refine (steps_takeName? hmirrors).bind ?_ rfl rfl
  rintro token _ rest rest' ⟨rfl, -⟩ hrest hlt
  exact agrees_pure (bothSome rfl) hrest hlt

theorem alongside_wordLevel {operand operand' : ExprRule} {word : String} {op : BinaryOp}
    (hoperand : Alongside block limit operand operand') :
    Alongside block limit (leftGrouped operand (wordOperator word op))
      (leftGrouped operand' (wordOperator word op)) :=
  alongside_leftGrouped hoperand steps_wordOperator (stops_takeName?.bind stops_none)

section

variable (hexpr : Alongside block limit expression expression')
include hexpr

/-! ## Arithmetic -/

/-- A filter without a name fails in both. -/
theorem steps_filter? {subject subject' : Expr Token} (hsubject : SameTree block subject subject')
    (hmirrors : Mirrors block stream inner) (hlimit : stream.upcoming.length ≤ limit) :
    Steps block (SameTree block) stream.upcoming.length (filter? expression subject)
      (filter? expression' subject') stream inner := by
  obtain rfl := hsubject
  refine (steps_take? hmirrors (by decide)).bind ?_ rfl rfl
  rintro pipe _ rest rest' ⟨rfl, -⟩ hrest hlt
  refine (steps_take? hrest (by decide)).agrees_bind ?_ fun _ _ _ _ =>
    fails_failAt.agrees fails_failAt
  rintro name _ rest₂ rest₂' ⟨rfl, -⟩ hrest₂ hlt₂
  refine (steps_take? hrest₂ (by decide)).agrees_bind ?_ ?_
  · rintro opening _ rest₃ rest₃' ⟨rfl, -⟩ hrest₃ hlt₃
    refine (agrees_arguments hexpr hrest₃ (by omega)).bind ?_
    rintro arguments _ rest₄ rest₄' rfl hrest₄ hlt₄
    exact agrees_pure (bothSome (by simp [SameTree])) hrest₄ (by omega)
  · intro rest₃ rest₃' hrest₃ hle₃
    exact agrees_pure (bothSome (by simp [SameTree])) hrest₃ (by omega)

theorem agrees_filters {subject subject' : Expr Token} (hsubject : SameTree block subject subject')
    (hmirrors : Mirrors block stream inner) (hlimit : stream.upcoming.length < limit) :
    Agrees block (SameTree block) (stream.upcoming.length + 1) (filters expression subject)
      (filters expression' subject') stream inner :=
  agrees_repeatWhile (fun _ _ _ _ hsubject hmirrors hlimit =>
    steps_filter? hexpr hsubject hmirrors hlimit.le)
    (fun _ => (stops_take? (by decide)).bind stops_none) hsubject hmirrors hlimit

/-- The signs are a run of tokens that are no ends. -/
theorem alongside_signed :
    Alongside block (limit + 1) (signed expression) (signed expression') := by
  intro stream inner hmirrors hlimit
  refine (agrees_takeAll hmirrors (by decide)).bind ?_
  rintro signs _ rest rest' rfl hrest hlt
  refine (alongside_operand hexpr hrest (by omega)).bind ?_
  rintro subject _ rest₂ rest₂' rfl hrest₂ hlt₂
  refine (agrees_filters hexpr rfl hrest₂ (by omega)).bind ?_
  rintro filtered _ rest₃ rest₃' rfl hrest₃ hlt₃
  have hsigned : SameTree block (signs.foldr signedBy filtered)
      ((signs.map block.change).foldr signedBy (block.move filtered)) :=
    (block.move_foldr signedBy (fun token expr => by simp [Enclosure.move, signedBy, Expr.mapMarks])
      signs filtered).symm
  exact agrees_pure hsigned hrest₃ (by omega)

/-- The levels up to sums, each by the one that is tighter. -/
theorem alongside_sum : Alongside block (limit + 1) (sum expression) (sum expression') := by
  have hpower : Alongside block (limit + 1) (power expression) (power expression') :=
    alongside_level (alongside_signed hexpr) (by decide)
  have hproduct : Alongside block (limit + 1) (product expression) (product expression') :=
    alongside_level hpower (by decide)
  have hconcatenation : Alongside block (limit + 1) (concatenation expression)
      (concatenation expression') := alongside_level hproduct (by decide)
  exact alongside_level hconcatenation (by decide)

/-! ## Logic -/

omit hexpr in
theorem move_negations (words : List Token) (expr : Expr Token) :
    SameTree block (words.foldr negatedBy expr)
      ((words.map block.change).foldr negatedBy (block.move expr)) :=
  (block.move_foldr negatedBy (fun _ _ => rfl) words expr).symm

omit hexpr in
theorem toList_map_change (word? : Option Token) :
    (word?.map block.change).toList = word?.toList.map block.change := by
  cases word? <;> rfl

omit hexpr in
/-- A negation without a membership fails in both. -/
theorem steps_comparator? (hmirrors : Mirrors block stream inner) :
    Steps block (SameComparator block) stream.upcoming.length comparator? comparator?
      stream inner := by
  refine (steps_take? hmirrors (by decide)).steps_bind ?_ fun rest rest' hrest hle => ?_
  · rintro token _ rest rest' ⟨rfl, -⟩ hrest hlt
    refine Agrees.steps ?_
    exact agrees_pure (bothSome rfl) hrest hlt
  · refine Stepped.mono ((steps_takeName? hrest).bind ?_ rfl rfl) hle
    rintro word _ rest₂ rest₂' ⟨rfl, -⟩ hrest₂ hlt₂
    dsimp only
    rw [block.isName_change]
    refine agrees_ite (fun _ => ?_) fun _ => agrees_pure (bothSome rfl) hrest₂ hlt₂
    refine (steps_takeName? hrest₂).agrees_bind ?_ fun _ _ _ _ =>
      fails_failAt.agrees fails_failAt
    rintro token _ rest₃ rest₃' ⟨rfl, -⟩ hrest₃ hlt₃
    exact agrees_pure (bothSome rfl) hrest₃ (hlt₃.trans hlt₂)

omit hexpr in
theorem stops_comparator? : comparator?.Stops :=
  (stops_take? (by decide)).bind (stops_takeName?.bind stops_none)

/-- A comparison whose right side is missing fails in both, at an end of either kind. -/
theorem steps_comparison? {left left' : Expr Token} (hleft : SameTree block left left')
    (hmirrors : Mirrors block stream inner) (hlimit : stream.upcoming.length ≤ limit + 1) :
    Steps block (SameTree block) stream.upcoming.length (comparison? expression left)
      (comparison? expression' left') stream inner := by
  obtain rfl := hleft
  refine (steps_comparator? hmirrors).bind ?_ rfl rfl
  rintro ⟨token, negating?⟩ _ rest rest' rfl hrest hlt
  refine agrees_refuse_bind hrest (by decide) fails_failAt fails_failAt fun _ => ?_
  refine (alongside_sum hexpr hrest (hlt.trans_le hlimit)).bind ?_
  rintro right _ rest₂ rest₂' rfl hrest₂ hlt₂
  refine agrees_pure (bothSome ?_) hrest₂ (hlt₂.trans hlt)
  dsimp only
  rw [toList_map_change, block.kind_change]
  exact move_negations negating?.toList (.binary token (comparisonOp token.kind) left right)

variable (dialect : Dialect)

/-- The name of a test decides about its argument, and it is the same in a block. -/
theorem agrees_tested {subject subject' : Expr Token} (hsubject : SameTree block subject subject')
    (hmirrors : Mirrors block stream inner) (hlimit : stream.upcoming.length < limit) :
    Agrees block (SameTree block) (stream.upcoming.length + 1) (tested dialect expression subject)
      (tested dialect expression' subject') stream inner := by
  refine (agrees_filters hexpr hsubject hmirrors hlimit).bind ?_
  rintro subject _ rest rest' rfl hrest hlt
  refine (steps_takeName? hrest).agrees_bind ?_ fun rest₂ rest₂' hrest₂ hle₂ =>
    agrees_pure rfl hrest₂ (by omega)
  rintro word _ rest₂ rest₂' ⟨rfl, -⟩ hrest₂ hlt₂
  refine (agrees_takeName? hrest₂).bind ?_
  rintro negating? _ rest₃ rest₃' rfl hrest₃ hlt₃
  refine agrees_refuse_bind hrest₃ (by decide) fails_failAt fails_failAt fun hkinds => ?_
  have hkind : rest₃.current.kind ≠ .eof := fun heof => hkinds (by simp [heof, endKinds])
  refine agrees_pop_bind hrest₃ hkind fun rest₄ rest₄' hrest₄ hlt₄ => ?_
  generalize rest₃.current = name
  rw [block.text_change]
  have htest (argument : Option (Expr Token)) :
      SameTree block (negating?.toList.foldr negatedBy (.test name subject name.text argument))
        ((negating?.map block.change).toList.foldr negatedBy
          (.test (block.change name) (block.move subject) name.text
            (argument.map block.move))) := by
    rw [toList_map_change, ← block.move_test]
    exact move_negations negating?.toList _
  refine agrees_ite (fun _ => ?_) fun _ => agrees_pure (htest none) hrest₄ (by omega)
  refine (alongside_operand hexpr hrest₄ (by omega)).bind ?_
  rintro argument _ rest₅ rest₅' rfl hrest₅ hlt₅
  exact agrees_pure (htest (some argument)) hrest₅ (by omega)

theorem alongside_comparison :
    Alongside block (limit + 1) (comparison dialect expression)
      (comparison dialect expression') := by
  intro stream inner hmirrors hlimit
  refine (alongside_sum hexpr hmirrors hlimit).bind ?_
  intro first first' rest rest' hfirst hrest hlt
  have hcompared := agrees_repeatWhile (fun _ _ _ _ hleft hmirrors hlimit =>
    steps_comparison? hexpr hleft hmirrors (Nat.le_of_lt hlimit))
    (fun _ => stops_comparator?.bind stops_none) hfirst hrest (hlt.trans hlimit)
  refine hcompared.bind ?_
  intro compared compared' rest₂ rest₂' hsame hrest₂ hlt₂
  exact (agrees_tested hexpr dialect hsame hrest₂ (by omega)).mono (by omega)

theorem alongside_disjunction :
    Alongside block (limit + 1) (disjunction dialect expression)
      (disjunction dialect expression') := by
  have hnegation : Alongside block (limit + 1) (negation dialect expression)
      (negation dialect expression') := by
    intro stream inner hmirrors hlimit
    refine (agrees_takeAllNames hmirrors).bind ?_
    rintro words _ rest rest' rfl hrest hlt
    refine (alongside_comparison hexpr dialect hrest (by omega)).bind ?_
    rintro subject _ rest₂ rest₂' rfl hrest₂ hlt₂
    exact agrees_pure (move_negations words subject) hrest₂ (by omega)
  have hconjunction : Alongside block (limit + 1) (conjunction dialect expression)
      (conjunction dialect expression') := alongside_wordLevel hnegation
  exact alongside_wordLevel hconjunction

/-- An alternative is a nested expression, on shorter streams. -/
theorem alongside_conditional :
    Alongside block (limit + 1) (conditional dialect expression)
      (conditional dialect expression') := by
  intro stream inner hmirrors hlimit
  refine (alongside_disjunction hexpr dialect hmirrors hlimit).bind ?_
  rintro consequent _ rest rest' rfl hrest hlt
  refine (steps_takeName? hrest).agrees_bind ?_ fun rest₂ rest₂' hrest₂ hle₂ =>
    agrees_pure rfl hrest₂ (by omega)
  rintro word _ rest₂ rest₂' ⟨rfl, -⟩ hrest₂ hlt₂
  refine (alongside_disjunction hexpr dialect hrest₂ (by omega)).bind ?_
  rintro condition _ rest₃ rest₃' rfl hrest₃ hlt₃
  refine (steps_takeName? hrest₃).agrees_bind ?_ fun rest₄ rest₄' hrest₄ hle₄ =>
    agrees_pure rfl hrest₄ (by omega)
  rintro _ _ rest₄ rest₄' - hrest₄ hlt₄
  refine (hexpr hrest₄ (by omega)).bind ?_
  rintro alternative _ rest₅ rest₅' rfl hrest₅ hlt₅
  exact agrees_pure rfl hrest₅ (by omega)

end

/-! ## Nesting -/

/-- Wherever a bound on the nesting is used up, the stream has ended. -/
theorem alongside_expressionOver (dialect : Dialect) {tokens tokens' : List Token}
    (hlonger : tokens.length < tokens'.length) :
    Alongside block (tokens.length + 1) (expressionOver dialect tokens)
      (expressionOver dialect tokens') := by
  induction tokens generalizing tokens' with
  | nil =>
    obtain ⟨token', tokens', rfl⟩ := List.exists_cons_of_length_pos hlonger
    intro stream inner hmirrors hlimit
    -- No rule for nested expressions is called where nothing is left.
    have hempty : Alongside block 0 (expressionOver dialect []) (expressionOver dialect tokens') :=
      fun _ _ _ hlimit => absurd hlimit (Nat.not_lt_zero _)
    have houter := alongside_conditional hempty dialect hmirrors hlimit
    rw [Nat.lt_one_iff.1 hlimit] at houter
    obtain ⟨error, rest, herror⟩ := houter.error_of_zero
    unfold Agrees
    rw [expressionOver, expressionOver, herror]
    exact .error
  | cons token tokens ih =>
    obtain ⟨token', tokens', rfl⟩ := List.exists_cons_of_length_pos (Nat.zero_lt_of_lt hlonger)
    exact alongside_conditional (ih (Nat.lt_of_succ_lt_succ hlonger)) dialect

/-- A whole expression is read alike by itself and in a block. -/
theorem agrees_expression (dialect : Dialect) (hmirrors : Mirrors block stream inner) :
    Agrees block (SameTree block) stream.upcoming.length (Grammar.expression dialect)
      (Grammar.expression dialect) stream inner :=
  agrees_get_bind (alongside_conditional (alongside_expressionOver dialect hmirrors.length_lt)
    dialect hmirrors (by omega))

end Stencil.Grammar
