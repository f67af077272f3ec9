import Stencil.Grammar.Document
import Stencil.Proofs.Reading

/-!
# The places of syntax errors

A rule that fails gives the place of a token, which is the current one or one that it has moved
past.  On a stream of known tokens the place is therefore that of a known token, and what the rule
leaves of the stream is known as well.
-/

namespace Stencil

/-- The tokens to come and the end are all known. -/
structure TokenStream.Holds (Known : Token → Prop) (stream : TokenStream) : Prop where
  upcoming : ∀ token ∈ stream.upcoming, Known token
  final : Known stream.final

/-- The error has the place of a known token. -/
def SyntaxError.IsAt (Known : Token → Prop) (error : SyntaxError) : Prop :=
  ∃ token, Known token ∧ error.line = token.span.line ∧ error.column = token.span.column

namespace TokenStream.Holds

variable {Known : Token → Prop} {stream : TokenStream} (hholds : stream.Holds Known)
include hholds

/-- The current token of a stream over known tokens is known, the end token included. -/
theorem current : Known stream.current := by
  obtain ⟨_ | ⟨token, tokens⟩, final⟩ := stream
  · exact hholds.final
  · exact hholds.upcoming token List.mem_cons_self

theorem advance : stream.advance.Holds Known :=
  ⟨fun token htoken => hholds.upcoming token (List.mem_of_mem_tail htoken), hholds.final⟩

end TokenStream.Holds

namespace Rule

variable {α β : Type} {Known : Token → Prop} {Good : α → Prop} {Good' : β → Prop}
  {rule : Rule α} {token : Token} {fault : SyntaxFault}

/-- On known tokens the rule yields a good value and leaves known tokens, or it fails at a known
token. -/
def Blames (Known : Token → Prop) (Good : α → Prop) (rule : Rule α) : Prop :=
  ∀ ⦃stream⦄, stream.Holds Known →
    match rule.runOn stream with
    | (.ok value, rest) => Good value ∧ rest.Holds Known
    | (.error error, _) => error.IsAt Known

/-- The same of a rule that may yield nothing. -/
abbrev Blames? (Known : Token → Prop) (Good : α → Prop) (rule : Rule (Option α)) : Prop :=
  Blames Known (fun found => ∀ value ∈ found, Good value) rule

/-- The same of a rule whose values do not matter. -/
abbrev BlamesOnly (Known : Token → Prop) (rule : Rule α) : Prop :=
  Blames Known (fun _ => True) rule

theorem blames_pure {value : α} (hgood : Good value) : Blames Known Good (pure value) :=
  fun _ hholds => ⟨hgood, hholds⟩

theorem blames_none : Blames? Known Good (pure none) :=
  blames_pure fun _ hvalue => nomatch hvalue

theorem blames_some {value : α} (hgood : Good value) : Blames? Known Good (pure (some value)) :=
  blames_pure fun _ hvalue => Option.mem_some_iff.1 hvalue ▸ hgood

/-- One rule after the other: the second one starts where the first one has left known tokens. -/
theorem Blames.bind {next : α → Rule β} (hrule : Blames Known Good rule)
    (hnext : ∀ value, Good value → Blames Known Good' (next value)) :
    Blames Known Good' (rule >>= next) := by
  intro stream hholds
  have hfirst := hrule hholds
  rw [runOn_bind]
  rcases hrun : rule.runOn stream with ⟨error | value, between⟩
  · rwa [hrun] at hfirst
  · rw [hrun] at hfirst
    exact hnext value hfirst.1 hfirst.2

theorem Blames.imp {Good' : α → Prop} (hrule : Blames Known Good rule)
    (himp : ∀ value, Good value → Good' value) : Blames Known Good' rule := by
  intro stream hholds
  have hfirst := hrule hholds
  rcases hrun : rule.runOn stream with ⟨error | value, rest⟩
  · rwa [hrun] at hfirst
  · rw [hrun] at hfirst
    exact ⟨himp value hfirst.1, hfirst.2⟩

/-- What a rule returns can be forgotten where only its failures matter. -/
theorem Blames.only (hrule : Blames Known Good rule) : BlamesOnly Known rule :=
  hrule.imp fun _ _ => trivial

theorem blames_ite {condition : Prop} [Decidable condition] {yes no : Rule α}
    (hyes : Blames Known Good yes) (hno : Blames Known Good no) :
    Blames Known Good (if condition then yes else no) := by
  split
  · exact hyes
  · exact hno

/-- A failure at a token is at its place, so it is enough that the token is known. -/
theorem blames_failAt (htoken : Known token) : Blames Known Good (failAt token fault) :=
  fun _ _ => ⟨token, htoken, rfl, rfl⟩

theorem blames_get : Blames Known (TokenStream.Holds Known) get :=
  fun _ hholds => ⟨hholds, hholds⟩

/-- A change of the stream never fails; it has to leave known tokens. -/
theorem blames_modifyGet {step : TokenStream → α × TokenStream}
    (hstep : ∀ stream, stream.Holds Known →
      Good (step stream).1 ∧ (step stream).2.Holds Known) :
    Blames Known Good (modifyGet step) :=
  fun stream hholds => hstep stream hholds

theorem blames_current : Blames Known Known current :=
  blames_get.bind fun _ hholds => blames_pure hholds.current

theorem blames_pop : Blames Known Known pop :=
  blames_modifyGet fun _ hholds => ⟨hholds.current, hholds.advance⟩

/-- A failure at the current token blames one of the stream. -/
theorem blames_failHere {fault : Token → SyntaxFault} : Blames Known Good (failHere fault) :=
  blames_current.bind fun _ htoken => blames_failAt htoken

/-! ## Tokens -/

section

variable {kinds : List Kind} {words : List String}

theorem blames_peek? : Blames? Known Known (peek? kinds) := by
  refine blames_get.bind fun stream hholds => blames_pure fun token htoken => ?_
  unfold TokenStream.peek? at htoken
  split at htoken
  · exact Option.mem_some_iff.1 htoken ▸ hholds.current
  · cases htoken

/-- A token that is taken is one of the stream. -/
theorem blames_take? : Blames? Known Known (take? kinds) := by
  refine blames_modifyGet fun stream hholds => ?_
  unfold TokenStream.take? TokenStream.peek?
  split_ifs
  · exact ⟨fun token htoken => Option.mem_some_iff.1 htoken ▸ hholds.current, hholds.advance⟩
  · exact ⟨fun token htoken => (nomatch htoken), hholds⟩

theorem blames_takeName? : Blames? Known Known (takeName? words) := by
  refine blames_modifyGet fun stream hholds => ?_
  unfold TokenStream.takeName? TokenStream.peekName?
  split_ifs
  · exact ⟨fun token htoken => Option.mem_some_iff.1 htoken ▸ hholds.current, hholds.advance⟩
  · exact ⟨fun token htoken => (nomatch htoken), hholds⟩

theorem blames_takeAll :
    Blames Known (fun tokens => ∀ token ∈ tokens, Known token) (takeAll kinds) :=
  blames_modifyGet fun _ hholds =>
    ⟨fun token htoken => hholds.upcoming token ((List.takeWhile_sublist _).mem htoken),
      fun token htoken => hholds.upcoming token ((List.dropWhile_sublist _).mem htoken),
      hholds.final⟩

theorem blames_takeAllNames :
    Blames Known (fun tokens => ∀ token ∈ tokens, Known token) (takeAllNames words) :=
  blames_modifyGet fun _ hholds =>
    ⟨fun token htoken => hholds.upcoming token ((List.takeWhile_sublist _).mem htoken),
      fun token htoken => hholds.upcoming token ((List.dropWhile_sublist _).mem htoken),
      hholds.final⟩

theorem blames_sees : BlamesOnly Known (sees kinds) :=
  blames_peek?.bind fun _ _ => blames_pure trivial

/-- Where a kind is expected, only the failure for another one can blame a token. -/
theorem blames_expect {kind : Kind} {failure : Rule Unit} (hfailure : BlamesOnly Known failure) :
    BlamesOnly Known (expect kind failure) := by
  refine blames_take?.bind fun found _ => ?_
  cases found with
  | some token => exact blames_pure trivial
  | none => exact hfailure

/-- Where kinds are refused, only the failure for one of them can blame a token. -/
theorem blames_refuse {failure : Rule Unit} (hfailure : BlamesOnly Known failure) :
    BlamesOnly Known (refuse kinds failure) := by
  refine blames_peek?.bind fun found _ => ?_
  cases found with
  | some token => exact hfailure
  | none => exact blames_pure trivial

end

/-! ## Repetition -/

/-- An invariant of the value in a loop, by the bound on its rounds. -/
theorem blames_repeatOver {step : α → Rule (Option α)}
    (hstep : ∀ value, Good value → Blames? Known Good (step value))
    (tokens : List Token) {value : α} (hvalue : Good value) :
    Blames Known Good (repeatOver step tokens value) := by
  induction tokens generalizing value with
  | nil => exact blames_pure hvalue
  | cons token tokens ih =>
    refine (hstep value hvalue).bind fun next hnext => ?_
    cases next with
    | some next => exact ih (hnext next rfl)
    | none => exact blames_pure hvalue

theorem blames_repeatWhile {step : α → Rule (Option α)}
    (hstep : ∀ value, Good value → Blames? Known Good (step value))
    {value : α} (hvalue : Good value) : Blames Known Good (repeatWhile value step) :=
  blames_get.bind fun stream _ => blames_repeatOver hstep stream.upcoming hvalue

/-- A loop that blames only known tokens in each round, whatever the values are. -/
theorem blames_repeatOnly {step : α → Rule (Option α)}
    (hstep : ∀ value, BlamesOnly Known (step value)) (value : α) :
    BlamesOnly Known (repeatWhile value step) :=
  blames_repeatWhile (fun value _ => (hstep value).imp fun _ _ _ _ => trivial) trivial

theorem blames_collectWhile {step : Rule (Option α)} (hstep : BlamesOnly Known step) :
    BlamesOnly Known (collectWhile step) := by
  have hover (tokens : List Token) : BlamesOnly Known (collectOver step tokens) := by
    induction tokens with
    | nil => exact blames_pure trivial
    | cons token tokens ih =>
      refine hstep.bind fun next _ => ?_
      cases next with
      | some value => exact ih.bind fun values _ => blames_pure trivial
      | none => exact blames_pure trivial
  exact blames_get.bind fun stream _ => hover stream.upcoming

end Rule

namespace Grammar

open Rule

variable {Known : Token → Prop} {expression : ExprRule}

/-- The rule fails at a known token, or builds a tree whose root keeps one. -/
abbrev BlamesTree (Known : Token → Prop) (rule : ExprRule) : Prop :=
  Blames Known (fun expr => Known expr.mark) rule

/-- The same of a rule that may have nothing to build. -/
abbrev BlamesTree? (Known : Token → Prop) (rule : Rule (Option (Expr Token))) : Prop :=
  Blames? Known (fun expr => Known expr.mark) rule

/-! ## Leaves -/

/-- A number that cannot be read is blamed on its own token. -/
theorem blames_number : BlamesTree Known number := by
  refine blames_pop.bind fun token htoken => blames_ite ?_ ?_
  · cases Decimal.readInteger token.text with
    | ok value => exact blames_pure htoken
    | error fault => exact blames_failAt htoken
  · cases Decimal.readFloat token.text with
    | ok value => exact blames_ite (blames_pure htoken) (blames_failAt htoken)
    | error fault => exact blames_failAt htoken

theorem blames_string : BlamesTree Known string :=
  blames_pop.bind fun _ htoken => blames_pure htoken

/-- What is no name and no index behind a dot is blamed, and so is an index that cannot be read. -/
theorem blames_selector : BlamesOnly Known selector := by
  refine blames_take?.bind fun found hfound => ?_
  cases found with
  | none => exact blames_failHere
  | some token =>
    refine blames_ite (blames_pure trivial) ?_
    cases Decimal.readIndex token.text with
    | ok index => exact blames_pure trivial
    | error fault => exact blames_failAt (hfound token rfl)

/-! ## Collections -/

section

variable (hexpr : BlamesTree Known expression)
include hexpr

/-- The items found so far are marked with known tokens, and so is the next one. -/
theorem blames_nextItem (closing : Kind) {items : List (Expr Token) × Bool}
    (hitems : ∀ item ∈ items.1, Known item.mark) :
    Blames? Known (fun items => ∀ item ∈ items.1, Known item.mark)
      (nextItem expression closing items) := by
  refine blames_take?.bind fun found _ => ?_
  cases found with
  | none => exact blames_none
  | some comma =>
    refine blames_sees.bind fun closes _ => blames_ite (blames_some hitems) ?_
    refine hexpr.bind fun item hitem => blames_some ?_
    exact List.forall_mem_append.2 ⟨hitems, List.forall_mem_singleton.2 hitem⟩

/-- A group of a single item is that item, so the tokens of all items have to be known. -/
theorem blames_items (closing : Kind) :
    Blames Known (fun items => ∀ item ∈ items.1, Known item.mark) (items expression closing) :=
  hexpr.bind fun _ hfirst =>
    blames_repeatWhile (fun _ hitems => blames_nextItem hexpr closing hitems)
      (List.forall_mem_singleton.2 hfirst)

/-- A list is marked with its opening bracket. -/
theorem blames_list : BlamesTree Known (list expression) := by
  refine blames_pop.bind fun opening hopening => blames_take?.bind fun found _ => ?_
  cases found with
  | some closing => exact blames_pure hopening
  | none =>
    exact (blames_items hexpr .rightBracket).bind fun items _ =>
      (blames_expect blames_failHere).bind fun _ _ => blames_pure hopening

/-- A group is marked as its one item is, and a tuple with its opening parenthesis. -/
theorem blames_group : BlamesTree Known (group expression) := by
  refine blames_pop.bind fun opening hopening => blames_take?.bind fun found _ => ?_
  cases found with
  | some closing => exact blames_pure hopening
  | none =>
    refine (blames_items hexpr .rightParen).bind fun items hitems => ?_
    refine (blames_expect (blames_failAt hopening)).bind fun _ _ => ?_
    obtain ⟨_ | ⟨item, _ | ⟨item', items⟩⟩, _ | _⟩ := items
    case none.cons.nil.false => exact blames_pure (hitems item List.mem_cons_self)
    all_goals exact blames_pure hopening

/-- A pair fails at its key, where its colon is missing, or at its value. -/
theorem blames_pair : BlamesOnly Known (pair expression) :=
  hexpr.bind fun _ _ => (blames_expect blames_failHere).bind fun _ _ =>
    hexpr.bind fun _ _ => blames_pure trivial

/-- A comma before the closing brace has no pair behind it, and then there is nothing to blame. -/
theorem blames_nextPair (pairs : List (Expr Token × Expr Token)) :
    BlamesOnly Known (nextPair expression pairs) := by
  refine blames_take?.bind fun found _ => ?_
  cases found with
  | none => exact blames_pure trivial
  | some comma =>
    exact blames_sees.bind fun closes _ =>
      blames_ite (blames_pure trivial) ((blames_pair hexpr).bind fun pair _ => blames_pure trivial)

/-- A dictionary is marked with its opening brace. -/
theorem blames_dict : BlamesTree Known (dict expression) := by
  refine blames_pop.bind fun opening hopening => blames_sees.bind fun closes _ => ?_
  have hrest (first : List (Expr Token × Expr Token)) : BlamesTree Known
      (do
        let pairs ← repeatWhile first (nextPair expression)
        expect .rightBrace (failHere fun _ => .missingBrace)
        pure (.dict opening pairs)) :=
    (blames_repeatOnly (blames_nextPair hexpr) first).bind fun pairs _ =>
      (blames_expect blames_failHere).bind fun _ _ => blames_pure hopening
  exact blames_ite (hrest []) ((blames_pair hexpr).bind fun pair _ => hrest [pair])

/-! ## Arguments -/

/-- A keyword that is written twice is blamed on its name, and one that is no name on its equals
sign. -/
theorem blames_argument (arguments : ArgumentList) :
    BlamesOnly Known (argument expression arguments) := by
  refine hexpr.bind fun value hvalue => blames_take?.bind fun found hfound => ?_
  cases found with
  | none => exact blames_pure trivial
  | some assign =>
    cases value with
    | name token key =>
      exact blames_ite (blames_failAt hvalue) (hexpr.bind fun value _ => blames_pure trivial)
    | _ => exact blames_failAt (hfound assign rfl)

/-- Arguments that do not end are blamed on the parenthesis that opens them. -/
theorem blames_argumentsFrom {opening : Token} (hopening : Known opening) (tokens : List Token)
    (arguments : ArgumentList) :
    BlamesOnly Known (argumentsFrom expression opening tokens arguments) := by
  induction tokens generalizing arguments with
  | nil => exact blames_failAt hopening
  | cons token tokens ih =>
    refine (blames_refuse (blames_failAt hopening)).bind fun _ _ => ?_
    refine (blames_argument hexpr arguments).bind fun next _ => ?_
    refine blames_take?.bind fun _ _ => blames_take?.bind fun found _ => ?_
    cases found with
    | some closing => exact blames_pure trivial
    | none => exact ih next

theorem blames_arguments {opening : Token} (hopening : Known opening) :
    BlamesOnly Known (arguments expression opening) := by
  refine blames_take?.bind fun found _ => ?_
  cases found with
  | some closing => exact blames_pure trivial
  | none =>
    exact blames_get.bind fun stream _ => blames_argumentsFrom hexpr hopening stream.upcoming {}

/-! ## Postfix forms -/

theorem blames_unlessSeen (kind : Kind) : BlamesOnly Known (unlessSeen expression kind) :=
  blames_sees.bind fun _ _ =>
    blames_ite (blames_pure trivial) (hexpr.bind fun _ _ => blames_pure trivial)

/-- Whatever is wrong with the brackets of a subscript is blamed on the opening one. -/
theorem blames_subscript (subject : Expr Token) {bracket : Token} (hbracket : Known bracket) :
    BlamesTree Known (subscript expression subject bracket) := by
  refine (blames_refuse (blames_failAt hbracket)).bind fun _ _ => ?_
  have hnode : BlamesTree Known (subscriptNode expression subject bracket) := by
    refine (blames_unlessSeen hexpr .colon).bind fun start _ => ?_
    refine blames_take?.bind fun found _ => ?_
    cases found with
    | some colon =>
      exact (blames_unlessSeen hexpr .rightBracket).bind fun stop _ => blames_pure hbracket
    | none =>
      cases start with
      | none => exact blames_failAt hbracket
      | some key => exact blames_pure hbracket
  exact hnode.bind fun node hknown =>
    (blames_expect (blames_failAt hbracket)).bind fun _ _ => blames_pure hknown

/-- A call, a subscript and a selection are marked with the token behind the subject. -/
theorem blames_postfixForm? (subject : Expr Token) :
    BlamesTree? Known (postfixForm? expression subject) := by
  refine blames_take?.bind fun found hfound => ?_
  cases found with
  | none => exact blames_none
  | some token =>
    have htoken : Known token := hfound token rfl
    dsimp only
    cases token.kind with
    | dot => exact blames_selector.bind fun selector _ => blames_some htoken
    | leftBracket =>
      exact (blames_subscript hexpr subject htoken).bind fun node hnode => blames_some hnode
    | _ => exact (blames_arguments hexpr htoken).bind fun arguments _ => blames_some htoken

/-- Behind the operand every further form keeps a known mark. -/
theorem blames_withPostfix {operand : ExprRule} (hoperand : BlamesTree Known operand) :
    BlamesTree Known (withPostfix expression operand) :=
  hoperand.bind fun _ hsubject =>
    blames_repeatWhile (fun subject _ => blames_postfixForm? hexpr subject) hsubject

/-- A reserved word in place of a name is blamed itself. -/
theorem blames_variableOrBoolean : BlamesTree Known (variableOrBoolean expression) := by
  refine blames_pop.bind fun token htoken => ?_
  cases booleanValue? token.text with
  | some value => exact blames_pure htoken
  | none =>
    refine blames_ite (blames_failAt htoken) ?_
    exact blames_repeatWhile (fun subject _ => blames_postfixForm? hexpr subject) htoken

/-- The kind of the current token says which operand is read, and where none begins it is blamed. -/
theorem blames_plainOperand : BlamesTree Known (plainOperand expression) := by
  refine blames_current.bind fun token _ => ?_
  cases token.kind with
  | integer | float => exact blames_withPostfix hexpr blames_number
  | string => exact blames_withPostfix hexpr blames_string
  | leftParen => exact blames_withPostfix hexpr (blames_group hexpr)
  | leftBracket => exact blames_withPostfix hexpr (blames_list hexpr)
  | leftBrace => exact blames_withPostfix hexpr (blames_dict hexpr)
  | name => exact blames_variableOrBoolean hexpr
  | _ => exact blames_failHere

omit hexpr in
/-- Nodes put around a tree, each of which keeps its own token. -/
theorem known_mark_foldr {wrap : Token → Expr Token → Expr Token}
    (hwrap : ∀ token operand, (wrap token operand).mark = token) {tokens : List Token}
    (htokens : ∀ token ∈ tokens, Known token) {operand : Expr Token}
    (hoperand : Known operand.mark) : Known (tokens.foldr wrap operand).mark := by
  cases tokens with
  | nil => exact hoperand
  | cons token tokens =>
    rw [List.foldr_cons, hwrap]
    exact htokens token List.mem_cons_self

/-- Spread markers before an operand are known, since they have been taken. -/
theorem blames_operand : BlamesTree Known (operand expression) := by
  have hmark (marker : Token) (operand : Expr Token) : (spreadBy marker operand).mark = marker := by
    unfold spreadBy
    split <;> rfl
  exact blames_takeAll.bind fun _ hmarkers => (blames_plainOperand hexpr).bind fun _ hsubject =>
    blames_pure (known_mark_foldr hmark hmarkers hsubject)

/-! ## Arithmetic -/

/-- A filter is marked with its name; where that is missing the bar is blamed. -/
theorem blames_filter? (subject : Expr Token) :
    BlamesTree? Known (filter? expression subject) := by
  refine blames_take?.bind fun found hfound => ?_
  cases found with
  | none => exact blames_none
  | some pipe =>
    refine blames_take?.bind fun found' hfound' => ?_
    cases found' with
    | none => exact blames_failAt (hfound pipe rfl)
    | some name =>
      have hname : Known name := hfound' name rfl
      refine blames_take?.bind fun found'' hfound'' => ?_
      cases found'' with
      | some opening =>
        exact (blames_arguments hexpr (hfound'' opening rfl)).bind fun _ _ => blames_some hname
      | none => exact blames_some hname

theorem blames_filters {subject : Expr Token} (hsubject : Known subject.mark) :
    BlamesTree Known (filters expression subject) :=
  blames_repeatWhile (fun subject _ => blames_filter? hexpr subject) hsubject

/-- The signs before an operand are marks of their own. -/
theorem blames_signed : BlamesTree Known (signed expression) :=
  blames_takeAll.bind fun _ hsigns => (blames_operand hexpr).bind fun _ hsubject =>
    (blames_filters hexpr hsubject).bind fun _ hfiltered =>
      blames_pure (known_mark_foldr (fun _ _ => rfl) hsigns hfiltered)

end

/-! ## Levels of binary operators -/

/-- The rule fails at a known token, or finds an operator that keeps one. -/
abbrev BlamesOperator (Known : Token → Prop) (operator : Rule (Option (BinaryOp × Token))) :
    Prop :=
  Blames? Known (fun operator => Known operator.2) operator

/-- An operator of a level marks the node over its two operands. -/
theorem blames_leftGrouped {operand : ExprRule} {operator : Rule (Option (BinaryOp × Token))}
    (hoperand : BlamesTree Known operand) (hoperator : BlamesOperator Known operator) :
    BlamesTree Known (leftGrouped operand operator) := by
  refine hoperand.bind fun first hfirst => blames_repeatWhile (fun left _ => ?_) hfirst
  refine hoperator.bind fun found hfound => ?_
  cases found with
  | none => exact blames_none
  | some operator => exact hoperand.bind fun right _ => blames_some (hfound operator rfl)

/-- An operator that has been read is a known token. -/
theorem blames_operatorOf (kinds : List Kind) : BlamesOperator Known (operatorOf kinds) := by
  refine blames_take?.bind fun found hfound => ?_
  cases found with
  | none => exact blames_none
  | some token =>
    dsimp only
    cases arithmeticOp? token.kind with
    | none => exact blames_none
    | some op => exact blames_some (hfound token rfl)

theorem blames_wordOperator (word : String) (op : BinaryOp) :
    BlamesOperator Known (wordOperator word op) := by
  refine blames_takeName?.bind fun found hfound => ?_
  cases found with
  | none => exact blames_none
  | some token => exact blames_some (hfound token rfl)

theorem blames_sum (hexpr : BlamesTree Known expression) : BlamesTree Known (sum expression) := by
  have hpower : BlamesTree Known (power expression) :=
    blames_leftGrouped (blames_signed hexpr) (blames_operatorOf _)
  have hproduct : BlamesTree Known (product expression) :=
    blames_leftGrouped hpower (blames_operatorOf _)
  have hconcatenation : BlamesTree Known (concatenation expression) :=
    blames_leftGrouped hproduct (blames_operatorOf _)
  exact blames_leftGrouped hconcatenation (blames_operatorOf _)

/-! ## Logic -/

/-- A comparator is one token, or the two of a negated membership; a negation without the membership
is blamed itself. -/
theorem blames_comparator? :
    Blames? Known (fun comparator => Known comparator.1 ∧ ∀ word ∈ comparator.2, Known word)
      comparator? := by
  refine blames_take?.bind fun found hfound => ?_
  cases found with
  | some token => exact blames_some ⟨hfound token rfl, fun _ hword => nomatch hword⟩
  | none =>
    refine blames_takeName?.bind fun word? hword? => ?_
    cases word? with
    | none => exact blames_none
    | some word =>
      have hword : Known word := hword? word rfl
      refine blames_ite ?_ (blames_some ⟨hword, fun _ hword => nomatch hword⟩)
      refine blames_takeName?.bind fun found hfound => ?_
      cases found with
      | some token => exact blames_some ⟨hfound token rfl, hword?⟩
      | none => exact blames_failAt hword

/-- The nodes of negating words keep them. -/
theorem known_mark_negations {word? : Option Token} (hwords : ∀ word ∈ word?, Known word)
    {operand : Expr Token} (hoperand : Known operand.mark) :
    Known (word?.toList.foldr negatedBy operand).mark :=
  known_mark_foldr (fun _ _ => rfl) (fun word hword => hwords word (Option.mem_toList.1 hword))
    hoperand

section

variable (hexpr : BlamesTree Known expression) (dialect : Dialect)
include hexpr

/-- A comparison is marked with its comparator, a negated membership with the negation. -/
theorem blames_comparison? (left : Expr Token) :
    BlamesTree? Known (comparison? expression left) := by
  refine blames_comparator?.bind fun found hfound => ?_
  cases found with
  | none => exact blames_none
  | some comparator =>
    obtain ⟨htoken, hnegating⟩ := hfound comparator rfl
    exact (blames_refuse (blames_failAt htoken)).bind fun _ _ =>
      (blames_sum hexpr).bind fun right _ => blames_some (known_mark_negations hnegating htoken)

/-- A test is marked with its name or with its negation; where it is incomplete, the word that
begins it is blamed. -/
theorem blames_tested {subject : Expr Token} (hsubject : Known subject.mark) :
    BlamesTree Known (tested dialect expression subject) := by
  refine (blames_filters hexpr hsubject).bind fun subject hsubject => ?_
  refine blames_takeName?.bind fun found hfound => ?_
  cases found with
  | none => exact blames_pure hsubject
  | some word =>
    refine blames_takeName?.bind fun negating? hnegating => ?_
    refine (blames_refuse (blames_failAt (hfound word rfl))).bind fun _ _ => ?_
    refine blames_pop.bind fun name hname => ?_
    exact blames_ite
      ((blames_operand hexpr).bind fun _ _ => blames_pure (known_mark_negations hnegating hname))
      (blames_pure (known_mark_negations hnegating hname))

theorem blames_disjunction : BlamesTree Known (disjunction dialect expression) := by
  have hcomparison : BlamesTree Known (comparison dialect expression) :=
    (blames_sum hexpr).bind fun _ hfirst =>
      (blames_repeatWhile (fun left _ => blames_comparison? hexpr left) hfirst).bind
        fun _ hcompared => blames_tested hexpr dialect hcompared
  have hnegation : BlamesTree Known (negation dialect expression) :=
    blames_takeAllNames.bind fun _ hwords => hcomparison.bind fun _ hsubject =>
      blames_pure (known_mark_foldr (fun _ _ => rfl) hwords hsubject)
  have hconjunction : BlamesTree Known (conjunction dialect expression) :=
    blames_leftGrouped hnegation (blames_wordOperator _ _)
  exact blames_leftGrouped hconjunction (blames_wordOperator _ _)

/-- A condition is marked with the word that begins it. -/
theorem blames_conditional : BlamesTree Known (conditional dialect expression) := by
  refine (blames_disjunction hexpr dialect).bind fun consequent hconsequent => ?_
  refine blames_takeName?.bind fun found hfound => ?_
  cases found with
  | none => exact blames_pure hconsequent
  | some word =>
    have hword : Known word := hfound word rfl
    refine (blames_disjunction hexpr dialect).bind fun condition _ => ?_
    refine blames_takeName?.bind fun found _ => ?_
    cases found with
    | some _ => exact hexpr.bind fun alternative _ => blames_pure hword
    | none => exact blames_pure hword

end

/-! ## Whole texts -/

variable (dialect : Dialect)

/-- All failures of an expression are at known tokens, by the bound on its nesting; where the bound
is used up the current token is blamed. -/
theorem blames_expressionOver (tokens : List Token) :
    BlamesTree Known (expressionOver dialect tokens) := by
  induction tokens with
  | nil => exact blames_failHere
  | cons token tokens ih => exact blames_conditional ih dialect

theorem blames_expression : BlamesTree Known (Grammar.expression dialect) :=
  blames_get.bind fun stream _ =>
    blames_conditional (blames_expressionOver dialect stream.upcoming) dialect

/-- A token behind a whole expression is blamed itself. -/
theorem blames_wholeExpression : BlamesTree Known (wholeExpression dialect) :=
  (blames_expression dialect).bind fun _ hexpr =>
    (blames_expect blames_failHere).bind fun _ _ => blames_pure hexpr

/-- A block that is not closed is blamed on the token that opens it. -/
theorem blames_node? : BlamesOnly Known (node? dialect) := by
  refine blames_take?.bind fun found hfound => ?_
  cases found with
  | none => exact blames_failHere
  | some token =>
    have hunclosed : BlamesOnly Known (node?.unclosed token) :=
      blames_current.bind fun _ _ => blames_failAt (hfound token rfl)
    dsimp only
    cases token.kind with
    | eof | data => exact blames_pure trivial
    | _ =>
      exact (blames_expression dialect).bind fun expr _ =>
        (blames_expect hunclosed).bind fun _ _ => blames_pure trivial

/-- All failures of a template are at tokens of its text. -/
theorem blames_body : BlamesOnly Known (body dialect) :=
  blames_collectWhile (blames_node? dialect)

end Grammar

end Stencil
