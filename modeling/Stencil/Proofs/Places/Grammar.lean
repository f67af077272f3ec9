import Stencil.Proofs.Cursor
import Stencil.Proofs.Places.Shifting

/-!
# The grammar and the places of tokens

Every rule of the grammar does the same on tokens that stand elsewhere, and the tree it builds keeps
those tokens instead.
-/

namespace Stencil

namespace Grammar

open Rule

variable {change : Token → Token} {expression expression' : ExprRule}

/-- Items with the tokens of their nodes changed. -/
def shiftItems (change : Token → Token) (items : List (Expr Token)) : List (Expr Token) :=
  items.map (Expr.mapMarks change)

def shiftPair (change : Token → Token) (pair : Expr Token × Expr Token) :
    Expr Token × Expr Token :=
  pair.map (Expr.mapMarks change) (Expr.mapMarks change)

def shiftArguments (change : Token → Token) (arguments : ArgumentList) : ArgumentList :=
  ⟨shiftItems change arguments.positional,
    arguments.named.map (Prod.map id (Expr.mapMarks change))⟩

/-- Whether a keyword has been written already does not depend on places. -/
theorem any_named_shiftArguments (change : Token → Token) (arguments : ArgumentList)
    (key : String) :
    (shiftArguments change arguments).named.any (fun (name, _) => name == key) =
      arguments.named.any (fun (name, _) => name == key) := by
  rw [shiftArguments, List.any_map]
  rfl

/-- The rule builds the tree of the other one from changed tokens. -/
abbrev ShiftsTree (change : Token → Token) (rule rule' : ExprRule) : Prop :=
  Shifts change (Expr.mapMarks change) rule rule'

section

variable (hchange : Token.Keeps change)
include hchange

/-! ## Leaves -/

/-- A number is read from the text of its token alone. -/
theorem shifts_number : ShiftsTree change number number := by
  refine shifts_pop.bind fun token => ?_
  rw [hchange.kind, hchange.text]
  refine shifts_ite Iff.rfl ?_ ?_
  · cases Decimal.readInteger token.text with
    | ok value => exact shifts_value rfl
    | error fault => exact shifts_failAt
  · cases Decimal.readFloat token.text with
    | ok value => exact shifts_ite Iff.rfl (shifts_value rfl) shifts_failAt
    | error fault => exact shifts_failAt

theorem shifts_string : ShiftsTree change string string := by
  refine shifts_pop.bind fun token => ?_
  rw [hchange.text]
  exact shifts_value rfl

/-- Names and indices have no mark, so a selector is the same elsewhere. -/
theorem shifts_selector : Shifts change id selector selector := by
  refine (shifts_take? hchange).bind fun found => ?_
  cases found with
  | none => exact shifts_failHere fun token => by rw [hchange.text]
  | some token =>
    dsimp only [Option.map]
    rw [hchange.kind, hchange.text]
    refine shifts_ite Iff.rfl (shifts_pure (Selector.name token.text)) ?_
    cases Decimal.readIndex token.text with
    | ok index => exact shifts_pure (Selector.index index)
    | error fault => exact shifts_failAt

/-! ## Collections -/

section

variable (hexpr : ShiftsTree change expression expression')
include hexpr

/-- Items are moved one by one; whether a comma was seen is not a matter of places. -/
theorem shifts_nextItem (closing : Kind) (items : List (Expr Token) × Bool) :
    Shifts change (Option.map (Prod.map (shiftItems change) id)) (nextItem expression closing items)
      (nextItem expression' closing (items.map (shiftItems change) id)) := by
  refine (shifts_take? hchange).bind fun found => ?_
  cases found with
  | none => exact shifts_pure none
  | some comma =>
    refine (shifts_sees hchange).bind fun closes => shifts_ite Iff.rfl ?_ ?_
    · exact shifts_pure (some (items.1, true))
    · exact hexpr.bind fun item => shifts_value (by simp [shiftItems])

theorem shifts_items (closing : Kind) :
    Shifts change (Prod.map (shiftItems change) id) (items expression closing)
      (items expression' closing) :=
  hexpr.bind fun first =>
    shifts_repeatWhile (shifts_nextItem hchange hexpr closing) ([first], false)

/-- A list is marked with its bracket, which is moved with the items. -/
theorem shifts_list : ShiftsTree change (list expression) (list expression') := by
  refine shifts_pop.bind fun opening => (shifts_take? hchange).bind fun found => ?_
  cases found with
  | some closing => exact shifts_value rfl
  | none =>
    refine (shifts_items hchange hexpr .rightBracket).bind fun items => ?_
    refine (shifts_expect hchange (shifts_failHere fun _ => rfl)).bind fun _ => ?_
    exact shifts_value (Expr.mapMarks_list change opening items.1)

/-- One item without a comma is a group, here and elsewhere. -/
theorem shifts_group : ShiftsTree change (group expression) (group expression') := by
  refine shifts_pop.bind fun opening => (shifts_take? hchange).bind fun found => ?_
  cases found with
  | some closing => exact shifts_value rfl
  | none =>
    refine (shifts_items hchange hexpr .rightParen).bind fun items => ?_
    refine (shifts_expect hchange shifts_failAt).bind fun _ => ?_
    have htuple : ShiftsTree change (pure (.tuple opening items.1))
        (pure (.tuple (change opening) (shiftItems change items.1))) :=
      shifts_value (Expr.mapMarks_tuple change opening items.1)
    -- Only a single item without a comma behind it is no tuple.
    obtain ⟨_ | ⟨item, _ | ⟨item', items⟩⟩, _ | _⟩ := items
    case none.cons.nil.false => exact shifts_pure item
    all_goals exact htuple

theorem shifts_pair : Shifts change (shiftPair change) (pair expression) (pair expression') :=
  hexpr.bind fun key => (shifts_expect hchange (shifts_failHere fun _ => rfl)).bind fun _ =>
    hexpr.bind fun value => shifts_pure (key, value)

theorem shifts_nextPair (pairs : List (Expr Token × Expr Token)) :
    Shifts change (Option.map (List.map (shiftPair change))) (nextPair expression pairs)
      (nextPair expression' (pairs.map (shiftPair change))) := by
  refine (shifts_take? hchange).bind fun found => ?_
  cases found with
  | none => exact shifts_pure none
  | some comma =>
    refine (shifts_sees hchange).bind fun closes => shifts_ite Iff.rfl ?_ ?_
    · exact shifts_pure (some pairs)
    · exact (shifts_pair hchange hexpr).bind fun pair => shifts_value (by simp)

theorem shifts_dict : ShiftsTree change (dict expression) (dict expression') := by
  refine shifts_pop.bind fun opening => (shifts_sees hchange).bind fun closes => ?_
  have hrest (first : List (Expr Token × Expr Token)) : ShiftsTree change
      (do
        let pairs ← repeatWhile first (nextPair expression)
        expect .rightBrace (failHere fun _ => .missingBrace)
        pure (.dict opening pairs))
      (do
        let pairs ← repeatWhile (first.map (shiftPair change)) (nextPair expression')
        expect .rightBrace (failHere fun _ => .missingBrace)
        pure (.dict (change opening) pairs)) := by
    refine (shifts_repeatWhile (shifts_nextPair hchange hexpr) first).bind fun pairs => ?_
    refine (shifts_expect hchange (shifts_failHere fun _ => rfl)).bind fun _ => ?_
    exact shifts_value (Expr.mapMarks_dict change opening pairs)
  refine shifts_ite Iff.rfl (hrest []) ?_
  exact (shifts_pair hchange hexpr).bind fun pair => hrest [pair]

/-! ## Arguments -/

/-- A keyword is known by the form of its tree, which is the same elsewhere. -/
theorem shifts_argument (arguments : ArgumentList) :
    Shifts change (shiftArguments change) (argument expression arguments)
      (argument expression' (shiftArguments change arguments)) := by
  refine hexpr.bind fun value => (shifts_take? hchange).bind fun found => ?_
  cases found with
  | none => exact shifts_value (by simp [shiftArguments, shiftItems])
  | some assign =>
    cases value with
    | name token key =>
      refine shifts_ite (by rw [any_named_shiftArguments]) shifts_failAt
        (hexpr.bind fun value => ?_)
      exact shifts_value (by simp [shiftArguments])
    | _ => exact shifts_failure (congrArg SyntaxFault.keywordNotName (hchange.text _))

/-- The arguments found so far are moved, and so is the parenthesis that would be blamed. -/
theorem shifts_argumentsFrom (opening : Token) (tokens : List Token) (arguments : ArgumentList) :
    Shifts change (shiftArguments change) (argumentsFrom expression opening tokens arguments)
      (argumentsFrom expression' (change opening) (tokens.map change)
        (shiftArguments change arguments)) := by
  induction tokens generalizing arguments with
  | nil => exact shifts_failAt
  | cons token tokens ih =>
    refine (shifts_refuse hchange shifts_failAt).bind fun _ => ?_
    refine (shifts_argument hchange hexpr arguments).bind fun next => ?_
    refine (shifts_take? hchange).bind fun _ => (shifts_take? hchange).bind fun found => ?_
    cases found with
    | some closing => exact shifts_pure next
    | none => exact ih next

theorem shifts_arguments (opening : Token) :
    Shifts change (shiftArguments change) (arguments expression opening)
      (arguments expression' (change opening)) := by
  refine (shifts_take? hchange).bind fun found => ?_
  cases found with
  | some closing => exact shifts_value rfl
  | none =>
    exact shifts_get.bind fun stream =>
      shifts_argumentsFrom hchange hexpr opening stream.upcoming {}

/-! ## Postfix forms -/

theorem shifts_unlessSeen (kind : Kind) :
    Shifts change (Option.map (Expr.mapMarks change)) (unlessSeen expression kind)
      (unlessSeen expression' kind) :=
  (shifts_sees hchange).bind fun _ =>
    shifts_ite Iff.rfl (shifts_pure none) (hexpr.bind fun expr => shifts_pure (some expr))

/-- An index, a slice with both bounds, one or none: the brackets and colons are the same. -/
theorem shifts_subscript (subject : Expr Token) (bracket : Token) :
    ShiftsTree change (subscript expression subject bracket)
      (subscript expression' (subject.mapMarks change) (change bracket)) := by
  refine (shifts_refuse hchange shifts_failAt).bind fun _ => ?_
  have hnode : ShiftsTree change (subscriptNode expression subject bracket)
      (subscriptNode expression' (subject.mapMarks change) (change bracket)) := by
    refine (shifts_unlessSeen hchange hexpr .colon).bind fun start => ?_
    refine (shifts_take? hchange).bind fun found => ?_
    cases found with
    | some colon =>
      refine (shifts_unlessSeen hchange hexpr .rightBracket).bind fun stop => ?_
      exact shifts_value (Expr.mapMarks_slice change bracket subject start stop)
    | none =>
      cases start with
      | none => exact shifts_failAt
      | some key => exact shifts_value rfl
  exact hnode.bind fun node => (shifts_expect hchange shifts_failAt).bind fun _ => shifts_pure node

/-- The form of a call, apart from the other forms behind a subject. -/
theorem shifts_postfixCall (subject : Expr Token) (token : Token) :
    Shifts change (Option.map (Expr.mapMarks change))
      (do
        let { positional, named } ← arguments expression token
        return some (.call token subject positional named))
      (do
        let { positional, named } ← arguments expression' (change token)
        return some (.call (change token) (subject.mapMarks change) positional named)) :=
  (shifts_arguments hchange hexpr token).bind fun _ =>
    shifts_value (congrArg some (Expr.mapMarks_call change token subject _ _))

/-- Which form stands behind a subject is said by the kind of the next token alone. -/
theorem shifts_postfixForm? (subject : Expr Token) :
    Shifts change (Option.map (Expr.mapMarks change)) (postfixForm? expression subject)
      (postfixForm? expression' (subject.mapMarks change)) := by
  refine (shifts_take? hchange).bind fun found => ?_
  cases found with
  | none => exact shifts_pure none
  | some token =>
    dsimp only [Option.map]
    rw [hchange.kind]
    cases token.kind with
    | dot => exact (shifts_selector hchange).bind fun selector => shifts_value rfl
    | leftBracket =>
      exact (shifts_subscript hchange hexpr subject token).bind fun node => shifts_pure (some node)
    | _ => exact shifts_postfixCall hchange hexpr subject token

/-- The forms behind an operand are read one after the other, each around a moved subject. -/
theorem shifts_withPostfix {operand operand' : ExprRule}
    (hoperand : ShiftsTree change operand operand') :
    ShiftsTree change (withPostfix expression operand) (withPostfix expression' operand') :=
  hoperand.bind fun subject => shifts_repeatWhile (shifts_postfixForm? hchange hexpr) subject

/-- Whether a word is a name, a boolean value or reserved is said by its text. -/
theorem shifts_variableOrBoolean :
    ShiftsTree change (variableOrBoolean expression) (variableOrBoolean expression') := by
  refine shifts_pop.bind fun token => ?_
  rw [hchange.text]
  cases booleanValue? token.text with
  | some value => exact shifts_value rfl
  | none =>
    refine shifts_ite Iff.rfl shifts_failAt ?_
    exact shifts_repeatWhile (shifts_postfixForm? hchange hexpr) (.name token token.text)

theorem shifts_plainOperand :
    ShiftsTree change (plainOperand expression) (plainOperand expression') := by
  refine shifts_current.bind fun token => ?_
  rw [hchange.kind]
  have hpostfix {operand operand' : ExprRule} (hoperand : ShiftsTree change operand operand') :
      ShiftsTree change (withPostfix expression operand) (withPostfix expression' operand') :=
    shifts_withPostfix hchange hexpr hoperand
  cases token.kind with
  | integer | float => exact hpostfix (shifts_number hchange)
  | string => exact hpostfix (shifts_string hchange)
  | leftParen => exact hpostfix (shifts_group hchange hexpr)
  | leftBracket => exact hpostfix (shifts_list hchange hexpr)
  | leftBrace => exact hpostfix (shifts_dict hchange hexpr)
  | name => exact shifts_variableOrBoolean hchange hexpr
  | eof | variableEnd => exact shifts_failHere fun _ => rfl
  | _ => exact shifts_failHere fun token => by rw [hchange.text]

omit hexpr in
/-- A spread marker decides by its kind what it makes of an operand. -/
theorem mapMarks_spreadBy (marker : Token) (operand : Expr Token) :
    (spreadBy marker operand).mapMarks change =
      spreadBy (change marker) (operand.mapMarks change) := by
  unfold spreadBy
  rw [hchange.kind]
  split <;> rfl

/-- The markers before an operand are moved with it. -/
theorem shifts_operand : ShiftsTree change (operand expression) (operand expression') :=
  (shifts_takeAll hchange).bind fun markers =>
    (shifts_plainOperand hchange hexpr).bind fun subject =>
      shifts_value (Expr.mapMarks_foldr change (mapMarks_spreadBy hchange) markers subject)

/-! ## Arithmetic -/

theorem shifts_filter? (subject : Expr Token) :
    Shifts change (Option.map (Expr.mapMarks change)) (filter? expression subject)
      (filter? expression' (subject.mapMarks change)) := by
  refine (shifts_take? hchange).bind fun found => ?_
  cases found with
  | none => exact shifts_pure none
  | some pipe =>
    refine (shifts_take? hchange).bind fun found => ?_
    cases found with
    | none => exact shifts_failAt
    | some name =>
      refine (shifts_take? hchange).bind fun found => ?_
      rw [hchange.text]
      cases found with
      | some opening =>
        exact (shifts_arguments hchange hexpr opening).bind fun arguments =>
          shifts_value (congrArg some (Expr.mapMarks_filter change name subject name.text _ _))
      | none => exact shifts_value rfl

theorem shifts_filters (subject : Expr Token) :
    ShiftsTree change (filters expression subject)
      (filters expression' (subject.mapMarks change)) :=
  shifts_repeatWhile (shifts_filter? hchange hexpr) subject

/-- The signs before an operand are moved with it, and which sign each one is stays as it is. -/
theorem shifts_signed : ShiftsTree change (signed expression) (signed expression') := by
  have hsign (token : Token) (operand : Expr Token) :
      (signedBy token operand).mapMarks change =
        signedBy (change token) (operand.mapMarks change) := by
    simp [signedBy, Expr.mapMarks, hchange.kind]
  exact (shifts_takeAll hchange).bind fun signs =>
    (shifts_operand hchange hexpr).bind fun subject =>
      (shifts_filters hchange hexpr subject).bind fun filtered =>
        shifts_value (Expr.mapMarks_foldr change hsign signs filtered)

end

/-! ## Levels of binary operators -/

/-- The operator of the other rule, with its token changed. -/
abbrev ShiftsOperator (change : Token → Token) (operator : Rule (Option (BinaryOp × Token))) :
    Prop :=
  Shifts change (Option.map (Prod.map id change)) operator operator

omit hchange in
/-- A level of operators that group to the left, given its operands and its operators. -/
theorem shifts_leftGrouped {operand operand' : ExprRule}
    {operator : Rule (Option (BinaryOp × Token))} (hoperand : ShiftsTree change operand operand')
    (hoperator : ShiftsOperator change operator) :
    ShiftsTree change (leftGrouped operand operator) (leftGrouped operand' operator) := by
  refine hoperand.bind fun first => shifts_repeatWhile (fun left => ?_) first
  refine hoperator.bind fun found => ?_
  cases found with
  | none => exact shifts_pure none
  | some operator => exact hoperand.bind fun right => shifts_value rfl

theorem shifts_operatorOf (kinds : List Kind) : ShiftsOperator change (operatorOf kinds) := by
  refine (shifts_take? hchange).bind fun found => ?_
  cases found with
  | none => exact shifts_pure none
  | some token =>
    dsimp only [Option.map]
    rw [hchange.kind]
    cases arithmeticOp? token.kind <;> exact shifts_value rfl

theorem shifts_wordOperator (word : String) (op : BinaryOp) :
    ShiftsOperator change (wordOperator word op) := by
  refine (shifts_takeName? hchange).bind fun found => ?_
  cases found <;> exact shifts_value rfl

theorem shifts_sum (hexpr : ShiftsTree change expression expression') :
    ShiftsTree change (sum expression) (sum expression') := by
  have hpower : ShiftsTree change (power expression) (power expression') :=
    shifts_leftGrouped (shifts_signed hchange hexpr) (shifts_operatorOf hchange _)
  have hproduct : ShiftsTree change (product expression) (product expression') :=
    shifts_leftGrouped hpower (shifts_operatorOf hchange _)
  have hconcatenation : ShiftsTree change (concatenation expression) (concatenation expression') :=
    shifts_leftGrouped hproduct (shifts_operatorOf hchange _)
  exact shifts_leftGrouped hconcatenation (shifts_operatorOf hchange _)

/-! ## Logic -/

/-- A comparator is one token, or the two of a negated membership. -/
theorem shifts_comparator? :
    Shifts change (Option.map (Prod.map change (Option.map change))) comparator? comparator? := by
  refine (shifts_take? hchange).bind fun found => ?_
  cases found with
  | some token => exact shifts_value rfl
  | none =>
    refine (shifts_takeName? hchange).bind fun word? => ?_
    cases word? with
    | none => exact shifts_value rfl
    | some word =>
      refine shifts_ite (by rw [hchange.isName]) ?_ (shifts_value rfl)
      refine (shifts_takeName? hchange).bind fun found => ?_
      cases found with
      | some token => exact shifts_value rfl
      | none => exact shifts_failAt

omit hchange in
/-- The negation around a membership is marked with its own word. -/
theorem mapMarks_negations (word? : Option Token) (expr : Expr Token) :
    (word?.toList.foldr negatedBy expr).mapMarks change =
      (word?.map change).toList.foldr negatedBy (expr.mapMarks change) := by
  cases word? <;> rfl

section

variable (hexpr : ShiftsTree change expression expression')
include hexpr

theorem shifts_comparison? (left : Expr Token) :
    Shifts change (Option.map (Expr.mapMarks change)) (comparison? expression left)
      (comparison? expression' (left.mapMarks change)) := by
  refine (shifts_comparator? hchange).bind fun found => ?_
  cases found with
  | none => exact shifts_pure none
  | some comparator =>
    obtain ⟨token, negating?⟩ := comparator
    refine (shifts_refuse hchange shifts_failAt).bind fun _ => ?_
    refine (shifts_sum hchange hexpr).bind fun right => shifts_value ?_
    rw [Option.map_some, mapMarks_negations, Expr.mapMarks]
    rw [hchange.kind]

variable (dialect : Dialect)

/-- A test with its negation and its argument, as far as they are written. -/
theorem shifts_tested (subject : Expr Token) :
    ShiftsTree change (tested dialect expression subject)
      (tested dialect expression' (subject.mapMarks change)) := by
  refine (shifts_filters hchange hexpr subject).bind fun subject => ?_
  refine (shifts_takeName? hchange).bind fun found => ?_
  cases found with
  | none => exact shifts_pure subject
  | some word =>
    refine (shifts_takeName? hchange).bind fun negating? => ?_
    refine (shifts_refuse hchange shifts_failAt).bind fun _ => shifts_pop.bind fun name => ?_
    have htest (argument : Option (Expr Token)) :
        (negating?.toList.foldr negatedBy (.test name subject name.text argument)).mapMarks change =
          (negating?.map change).toList.foldr negatedBy
            (.test (change name) (subject.mapMarks change) (change name).text
              (argument.map (Expr.mapMarks change))) := by
      rw [mapMarks_negations, Expr.mapMarks_test, hchange.text]
    refine shifts_ite (by rw [hchange.text]) ?_ (shifts_value (htest none))
    exact (shifts_operand hchange hexpr).bind fun argument => shifts_value (htest (some argument))

theorem shifts_disjunction :
    ShiftsTree change (disjunction dialect expression) (disjunction dialect expression') := by
  have hcomparison : ShiftsTree change (comparison dialect expression)
      (comparison dialect expression') :=
    (shifts_sum hchange hexpr).bind fun first =>
      (shifts_repeatWhile (shifts_comparison? hchange hexpr) first).bind fun compared =>
        shifts_tested hchange hexpr dialect compared
  have hnegation : ShiftsTree change (negation dialect expression)
      (negation dialect expression') :=
    (shifts_takeAllNames hchange).bind fun words => hcomparison.bind fun subject =>
      shifts_value (Expr.mapMarks_foldr change (fun _ _ => rfl) words subject)
  have hconjunction : ShiftsTree change (conjunction dialect expression)
      (conjunction dialect expression') :=
    shifts_leftGrouped hnegation (shifts_wordOperator hchange _ _)
  exact shifts_leftGrouped hconjunction (shifts_wordOperator hchange _ _)

/-- A condition with or without an alternative. -/
theorem shifts_conditional :
    ShiftsTree change (conditional dialect expression) (conditional dialect expression') := by
  refine (shifts_disjunction hchange hexpr dialect).bind fun consequent => ?_
  refine (shifts_takeName? hchange).bind fun found => ?_
  cases found with
  | none => exact shifts_pure consequent
  | some word =>
    refine (shifts_disjunction hchange hexpr dialect).bind fun condition => ?_
    refine (shifts_takeName? hchange).bind fun found => ?_
    cases found with
    | some _ => exact hexpr.bind fun alternative => shifts_value rfl
    | none => exact shifts_value rfl

end

/-! ## Whole texts -/

variable (dialect : Dialect)

/-- An expression elsewhere is the moved expression, by the bound on its nesting. -/
theorem shifts_expressionOver (tokens : List Token) :
    ShiftsTree change (expressionOver dialect tokens)
      (expressionOver dialect (tokens.map change)) := by
  induction tokens with
  | nil => exact shifts_failHere fun _ => rfl
  | cons token tokens ih => exact shifts_conditional hchange ih dialect

theorem shifts_expression :
    ShiftsTree change (Grammar.expression dialect) (Grammar.expression dialect) :=
  shifts_get.bind fun stream =>
    shifts_conditional hchange (shifts_expressionOver hchange dialect stream.upcoming) dialect

/-- What stands behind an expression is blamed by its text, which does not move. -/
theorem shifts_wholeExpression :
    ShiftsTree change (wholeExpression dialect) (wholeExpression dialect) := by
  refine (shifts_expression hchange dialect).bind fun expr => ?_
  refine (shifts_expect hchange ?_).bind fun _ => shifts_pure expr
  exact shifts_failHere fun token => by rw [hchange.text]

end

end Grammar

/-! ## Lists of tokens -/

namespace Token

/-- Two lists of the same words are the same list without its places. -/
theorem map_placeless_eq {tokens tokens' : List Token}
    (hwords : tokens.map word = tokens'.map word) :
    tokens.map placeless = tokens'.map placeless := by
  have hplaceless : placeless = Word.token ∘ word := rfl
  rw [hplaceless, ← List.map_map, ← List.map_map, hwords]

/-- An end token is known by its word. -/
theorem exists_eof_of_map_word {tokens tokens' : List Token}
    (hwords : tokens.map word = tokens'.map word) (hend : ∃ token ∈ tokens, token.kind = .eof) :
    ∃ token ∈ tokens', token.kind = .eof := by
  obtain ⟨token, hmem, hkind⟩ := hend
  have hword : token.word ∈ tokens'.map word := hwords ▸ List.mem_map_of_mem hmem
  obtain ⟨token', hmem', hsame⟩ := List.mem_map.1 hword
  exact ⟨token', hmem', (congrArg Word.kind hsame).trans hkind⟩

end Token

/-- Tokens that stand elsewhere are parsed to what stands elsewhere, or with the same fault. -/
theorem parseTokens_map {α β : Type} {change : Token → Token} {move : α → β} {rule : Rule α}
    {rule' : Rule β} (hchange : Token.Keeps change) (hrule : Rule.Shifts change move rule rule')
    {tokens : List Token} (hend : ∃ token ∈ tokens, token.kind = .eof) :
    (parseTokens rule' (tokens.map change)).mapError SyntaxError.fault =
      ((parseTokens rule tokens).mapError SyntaxError.fault).map move := by
  rw [parseTokens_eq, parseTokens_eq, ← Rule.outcome_map_fst, ← Rule.outcome_map_fst,
    TokenStream.ofTokens_map hchange hend, hrule]
  cases rule.outcome (TokenStream.ofTokens tokens) <;> rfl

end Stencil
