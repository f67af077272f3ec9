import Stencil.Grammar.Operand
import Stencil.Proofs.Block.Mirror

/-!
# Operands beside each other

Every rule of the operands runs beside itself, if the rules for the expressions inside of brackets
do on the shorter streams that they are given.
-/

namespace Stencil

namespace Enclosure

variable (block : Enclosure) (token : Token)

/-- The expression that is read in the block. -/
def move (expr : Expr Token) : Expr Token :=
  expr.mapMarks block.change

@[simp]
theorem move_list (items : List (Expr Token)) :
    block.move (.list token items) = .list (block.change token) (items.map block.move) :=
  Expr.mapMarks_list _ token items

@[simp]
theorem move_tuple (items : List (Expr Token)) :
    block.move (.tuple token items) = .tuple (block.change token) (items.map block.move) :=
  Expr.mapMarks_tuple _ token items

/-- Keys and values of a dictionary are moved alike. -/
@[simp]
theorem move_dict (pairs : List (Expr Token × Expr Token)) :
    block.move (.dict token pairs) =
      .dict (block.change token) (pairs.map (Prod.map block.move block.move)) :=
  Expr.mapMarks_dict _ token pairs

/-- Bounds are moved as far as they are there. -/
@[simp]
theorem move_slice (subject : Expr Token) (start stop : Option (Expr Token)) :
    block.move (.slice token subject start stop) =
      .slice (block.change token) (block.move subject) (start.map block.move)
        (stop.map block.move) :=
  Expr.mapMarks_slice _ token subject start stop

@[simp]
theorem move_call (callee : Expr Token) (positional : List (Expr Token))
    (named : List (String × Expr Token)) :
    block.move (.call token callee positional named) =
      .call (block.change token) (block.move callee) (positional.map block.move)
        (named.map (Prod.map id block.move)) :=
  Expr.mapMarks_call _ token callee positional named

@[simp]
theorem move_filter (subject : Expr Token) (name : String) (positional : List (Expr Token))
    (named : List (String × Expr Token)) :
    block.move (.filter token subject name positional named) =
      .filter (block.change token) (block.move subject) name (positional.map block.move)
        (named.map (Prod.map id block.move)) :=
  Expr.mapMarks_filter _ token subject name positional named

@[simp]
theorem move_test (subject : Expr Token) (name : String) (argument : Option (Expr Token)) :
    block.move (.test token subject name argument) =
      .test (block.change token) (block.move subject) name (argument.map block.move) :=
  Expr.mapMarks_test _ token subject name argument

/-- Nodes around an expression, one for each of some tokens. -/
theorem move_foldr (wrap : Token → Expr Token → Expr Token)
    (hwrap : ∀ token expr,
      block.move (wrap token expr) = wrap (block.change token) (block.move expr))
    (tokens : List Token) (expr : Expr Token) :
    block.move (tokens.foldr wrap expr) =
      (tokens.map block.change).foldr wrap (block.move expr) :=
  Expr.mapMarks_foldr _ hwrap tokens expr

end Enclosure

namespace Grammar

open Rule

/-- The second expression is the first one inside of a block. -/
def SameTree (block : Enclosure) (expr expr' : Expr Token) : Prop :=
  expr' = (block.move expr)

def SameOption (block : Enclosure) (option option' : Option (Expr Token)) : Prop :=
  option' = option.map block.move

def SameItems (block : Enclosure) (items items' : List (Expr Token) × Bool) : Prop :=
  items' = (items.1.map block.move, items.2)

def SamePair (block : Enclosure) (pair pair' : Expr Token × Expr Token) : Prop :=
  pair' = pair.map block.move block.move

def SamePairs (block : Enclosure) (pairs pairs' : List (Expr Token × Expr Token)) : Prop :=
  pairs' = pairs.map (Prod.map block.move block.move)

def SameArguments (block : Enclosure) (arguments arguments' : ArgumentList) : Prop :=
  arguments' = ⟨arguments.positional.map block.move,
    arguments.named.map (Prod.map id block.move)⟩

/-- The rules for nested expressions run beside each other on short streams. -/
def Alongside (block : Enclosure) (limit : Nat) (expression expression' : ExprRule) : Prop :=
  ∀ ⦃stream inner⦄, Mirrors block stream inner → stream.upcoming.length < limit →
    Agrees block (SameTree block) stream.upcoming.length expression expression' stream inner

variable {block : Enclosure} {limit : Nat} {expression expression' : ExprRule}
  {stream inner : TokenStream}

/-! ## Leaves -/

section

variable (hmirrors : Mirrors block stream inner)
include hmirrors

theorem agrees_number (hkind : stream.current.kind ≠ .eof) :
    Agrees block (SameTree block) stream.upcoming.length number number stream inner := by
  refine agrees_pop_bind hmirrors hkind fun rest rest' hrest hlt => ?_
  generalize stream.current = token
  simp only [block.kind_change, block.text_change]
  refine agrees_ite (fun _ => ?_) fun _ => ?_
  · cases Decimal.readInteger token.text with
    | ok value => exact agrees_pure rfl hrest hlt
    | error fault => exact fails_failAt.agrees fails_failAt
  · cases Decimal.readFloat token.text with
    | ok value =>
      exact agrees_ite (fun _ => agrees_pure rfl hrest hlt) fun _ =>
        fails_failAt.agrees fails_failAt
    | error fault => exact fails_failAt.agrees fails_failAt

theorem agrees_string (hkind : stream.current.kind ≠ .eof) :
    Agrees block (SameTree block) stream.upcoming.length string string stream inner := by
  refine agrees_pop_bind hmirrors hkind fun rest rest' hrest hlt => ?_
  rw [block.text_change]
  exact agrees_pure rfl hrest hlt

/-- A selector has no place, so it is the same in a block. -/
theorem agrees_selector :
    Agrees block Eq stream.upcoming.length selector selector stream inner := by
  refine (steps_take? hmirrors (by decide)).agrees_bind ?_ ?_
  · rintro token _ rest rest' ⟨rfl, -⟩ hrest hlt
    simp only [block.kind_change, block.text_change]
    refine agrees_ite (fun _ => agrees_pure rfl hrest hlt) fun _ => ?_
    cases Decimal.readIndex token.text with
    | ok index => exact agrees_pure rfl hrest hlt
    | error fault => exact fails_failAt.agrees fails_failAt
  · intro rest rest' hrest hle
    exact fails_failHere.agrees fails_failHere

end

/-! ## Collections -/

section

variable (hexpr : Alongside block limit expression expression')
  (hmirrors : Mirrors block stream inner)
include hexpr hmirrors

/-- A closing bracket is no end, so both streams show whether an item follows the comma. -/
theorem steps_nextItem {closing : Kind} {items items' : List (Expr Token) × Bool}
    (hclosing : closing ≠ .eof ∧ closing ≠ .variableEnd) (hitems : SameItems block items items')
    (hlimit : stream.upcoming.length < limit) :
    Steps block (SameItems block) stream.upcoming.length (nextItem expression closing items)
      (nextItem expression' closing items') stream inner := by
  obtain ⟨items, trailing⟩ := items
  obtain rfl := hitems
  refine (steps_take? hmirrors (by decide)).bind ?_ rfl rfl
  rintro comma _ rest rest' - hrest hlt
  have hends : Kind.eof ∈ [closing] ↔ Kind.variableEnd ∈ [closing] := by
    simp [hclosing.1.symm, hclosing.2.symm]
  refine agrees_sees_bind hrest hends (agrees_ite (fun _ => ?_) fun _ => ?_)
  · exact agrees_pure (bothSome rfl) hrest hlt
  · refine (hexpr hrest (hlt.trans hlimit)).bind ?_
    rintro item _ rest₂ rest₂' rfl hrest₂ hlt₂
    exact agrees_pure (bothSome (by simp [SameItems])) hrest₂ (hlt₂.trans hlt)

theorem agrees_items {closing : Kind} (hclosing : closing ≠ .eof ∧ closing ≠ .variableEnd)
    (hlimit : stream.upcoming.length < limit) :
    Agrees block (SameItems block) stream.upcoming.length (items expression closing)
      (items expression' closing) stream inner := by
  refine (hexpr hmirrors hlimit).bind ?_
  rintro first _ rest rest' rfl hrest hlt
  refine (agrees_repeatWhile (fun items items' stream inner hitems hmirrors hlimit =>
    steps_nextItem hexpr hmirrors hclosing hitems hlimit) ?_ rfl hrest (hlt.trans hlimit)).mono hlt
  exact fun _ => (stops_take? (by decide)).bind stops_none

/-- A list moves past its opening bracket, so nested expressions stand on shorter streams. -/
theorem agrees_list (hkind : stream.current.kind ≠ .eof) (hlimit : stream.upcoming.length ≤ limit) :
    Agrees block (SameTree block) stream.upcoming.length (list expression) (list expression')
      stream inner := by
  refine agrees_pop_bind hmirrors hkind fun rest rest' hrest hlt => ?_
  refine (steps_take? hrest (by decide)).agrees_bind ?_ ?_
  · rintro _ _ rest₂ rest₂' - hrest₂ hlt₂
    exact agrees_pure (by simp [SameTree]) hrest₂ (hlt₂.trans hlt)
  · intro rest₂ rest₂' hrest₂ hle₂
    refine (agrees_items hexpr hrest₂ (by decide) (by omega)).bind ?_
    rintro ⟨items, _⟩ _ rest₃ rest₃' rfl hrest₃ hlt₃
    refine (agrees_expect hrest₃ (by decide) fails_failHere fails_failHere).bind ?_
    rintro _ _ rest₄ rest₄' - hrest₄ hlt₄
    exact agrees_pure (by simp [SameTree]) hrest₄ (by omega)

/-- Whether parentheses are a group or a tuple is the same in a block. -/
theorem agrees_group (hkind : stream.current.kind ≠ .eof)
    (hlimit : stream.upcoming.length ≤ limit) :
    Agrees block (SameTree block) stream.upcoming.length (group expression) (group expression')
      stream inner := by
  refine agrees_pop_bind hmirrors hkind fun rest rest' hrest hlt => ?_
  refine (steps_take? hrest (by decide)).agrees_bind ?_ ?_
  · rintro _ _ rest₂ rest₂' - hrest₂ hlt₂
    exact agrees_pure (by simp [SameTree]) hrest₂ (hlt₂.trans hlt)
  · intro rest₂ rest₂' hrest₂ hle₂
    refine (agrees_items hexpr hrest₂ (by decide) (by omega)).bind ?_
    rintro ⟨items, trailingComma⟩ _ rest₃ rest₃' rfl hrest₃ hlt₃
    refine (agrees_expect hrest₃ (by decide) fails_failAt fails_failAt).bind ?_
    rintro _ _ rest₄ rest₄' - hrest₄ hlt₄
    have hshorter : rest₄.upcoming.length < stream.upcoming.length := by omega
    rcases items with _ | ⟨item, _ | ⟨item', items⟩⟩ <;> rcases trailingComma with _ | _ <;>
      exact agrees_pure (by simp [SameTree]) hrest₄ hshorter

theorem agrees_pair (hlimit : stream.upcoming.length < limit) :
    Agrees block (SamePair block) stream.upcoming.length (pair expression) (pair expression')
      stream inner := by
  refine (hexpr hmirrors hlimit).bind ?_
  rintro key _ rest rest' rfl hrest hlt
  refine (agrees_expect hrest (by decide) fails_failHere fails_failHere).bind ?_
  rintro _ _ rest₂ rest₂' - hrest₂ hlt₂
  refine (hexpr hrest₂ (by omega)).bind ?_
  rintro value _ rest₃ rest₃' rfl hrest₃ hlt₃
  exact agrees_pure rfl hrest₃ (by omega)

theorem steps_nextPair {pairs pairs' : List (Expr Token × Expr Token)}
    (hpairs : SamePairs block pairs pairs') (hlimit : stream.upcoming.length < limit) :
    Steps block (SamePairs block) stream.upcoming.length (nextPair expression pairs)
      (nextPair expression' pairs') stream inner := by
  obtain rfl := hpairs
  refine (steps_take? hmirrors (by decide)).bind ?_ rfl rfl
  rintro comma _ rest rest' - hrest hlt
  refine agrees_sees_bind hrest (by decide) (agrees_ite (fun _ => ?_) fun _ => ?_)
  · exact agrees_pure (bothSome rfl) hrest hlt
  · refine (agrees_pair hexpr hrest (hlt.trans hlimit)).bind ?_
    rintro pair _ rest₂ rest₂' rfl hrest₂ hlt₂
    exact agrees_pure (bothSome (by simp [SamePairs])) hrest₂ (hlt₂.trans hlt)

/-- The braces of a dictionary are not those that end the block. -/
theorem agrees_dict (hkind : stream.current.kind ≠ .eof)
    (hlimit : stream.upcoming.length ≤ limit) :
    Agrees block (SameTree block) stream.upcoming.length (dict expression) (dict expression')
      stream inner := by
  refine agrees_pop_bind hmirrors hkind fun rest rest' hrest hlt => ?_
  have hpairs (first first' : List (Expr Token × Expr Token)) (rest₂ rest₂' : TokenStream)
      (hfirst : SamePairs block first first') (hrest₂ : Mirrors block rest₂ rest₂')
      (hle₂ : rest₂.upcoming.length ≤ rest.upcoming.length) :
      Agrees block (SameTree block) stream.upcoming.length
        (do
          let pairs ← repeatWhile first (nextPair expression)
          expect .rightBrace (failHere fun _ => .missingBrace)
          pure (.dict stream.current pairs))
        (do
          let pairs ← repeatWhile first' (nextPair expression')
          expect .rightBrace (failHere fun _ => .missingBrace)
          pure (.dict (block.change stream.current) pairs)) rest₂ rest₂' := by
    refine (agrees_repeatWhile (fun _ _ _ _ hpairs hmirrors hlimit =>
      steps_nextPair hexpr hmirrors hpairs hlimit)
      (fun _ => (stops_take? (by decide)).bind stops_none) hfirst hrest₂ (by omega)).bind ?_
    rintro pairs _ rest₃ rest₃' rfl hrest₃ hlt₃
    refine (agrees_expect hrest₃ (by decide) fails_failHere fails_failHere).bind ?_
    rintro _ _ rest₄ rest₄' - hrest₄ hlt₄
    exact agrees_pure (by simp [SameTree]) hrest₄ (by omega)
  refine agrees_sees_bind hrest (by decide) (agrees_ite (fun _ => ?_) fun _ => ?_)
  · exact hpairs [] [] rest rest' rfl hrest le_rfl
  · refine (agrees_pair hexpr hrest (hlt.trans_le hlimit)).bind ?_
    rintro pair _ rest₂ rest₂' rfl hrest₂ hlt₂
    exact hpairs [pair] _ rest₂ rest₂' rfl hrest₂ hlt₂.le

end

/-! ## Arguments -/

section

variable (hexpr : Alongside block limit expression expression')
include hexpr

/-- Whether an argument is named is said by the form of its tree, which is the same in a block. -/
theorem agrees_argument {arguments arguments' : ArgumentList}
    (harguments : SameArguments block arguments arguments') (hmirrors : Mirrors block stream inner)
    (hlimit : stream.upcoming.length < limit) :
    Agrees block (SameArguments block) stream.upcoming.length (argument expression arguments)
      (argument expression' arguments') stream inner := by
  obtain rfl := harguments
  refine (hexpr hmirrors hlimit).bind ?_
  rintro value _ rest rest' rfl hrest hlt
  refine (steps_take? hrest (by decide)).agrees_bind ?_ ?_
  · rintro assign _ rest₂ rest₂' - hrest₂ hlt₂
    cases value with
    | name token key =>
      have hany : (arguments.named.map (Prod.map id block.move)).any (fun pair => pair.1 == key) =
          arguments.named.any (fun pair => pair.1 == key) := by
        rw [List.any_map]
        rfl
      simp only [Enclosure.move, Expr.mapMarks] at hany ⊢
      rw [hany]
      refine agrees_ite (fun _ => fails_failAt.agrees fails_failAt) fun _ => ?_
      refine (hexpr hrest₂ (by omega)).bind ?_
      rintro value _ rest₃ rest₃' rfl hrest₃ hlt₃
      exact agrees_pure (by simp [SameArguments]) hrest₃ (by omega)
    | _ => exact fails_failAt.agrees fails_failAt
  · intro rest₂ rest₂' hrest₂ hle₂
    exact agrees_pure (by simp [SameArguments]) hrest₂ (hle₂.trans_lt hlt)

/-- The bounds on the rounds end no list of arguments: where they are used up, it has not been
closed. -/
theorem agrees_argumentsFrom {opening : Token} {tokens tokens' : List Token}
    {arguments arguments' : ArgumentList} (harguments : SameArguments block arguments arguments')
    (hmirrors : Mirrors block stream inner) (hlimit : stream.upcoming.length < limit)
    (hbound : stream.upcoming.length ≤ tokens.length)
    (hbound' : stream.upcoming.length < tokens'.length) :
    Agrees block (SameArguments block) stream.upcoming.length
      (argumentsFrom expression opening tokens arguments)
      (argumentsFrom expression' (block.change opening) tokens' arguments') stream inner := by
  induction tokens generalizing tokens' arguments arguments' stream inner with
  | nil =>
    obtain ⟨token', tokens', rfl⟩ := List.exists_cons_of_length_pos (Nat.zero_lt_of_lt hbound')
    have hends : inner.current.kind ∈ endKinds := by
      rcases hmirrors.cases with ⟨-, -, hkind⟩ | ⟨-, -, hshorter⟩
      · simp [endKinds, hkind]
      · exact absurd (hshorter.trans_le hbound) (Nat.not_lt_zero _)
    obtain ⟨error, rest, herror⟩ := fails_refuse (fails_failAt (α := Unit)) hends
    unfold Agrees argumentsFrom
    rw [runOn_bind, herror]
    exact .error
  | cons token tokens ih =>
    obtain ⟨token', tokens', rfl⟩ := List.exists_cons_of_length_pos (Nat.zero_lt_of_lt hbound')
    rw [List.length_cons] at hbound hbound'
    refine agrees_refuse_bind hmirrors (by decide) fails_failAt fails_failAt fun _ => ?_
    refine (agrees_argument hexpr harguments hmirrors hlimit).bind ?_
    intro next next' rest rest' hnext hrest hlt
    refine (steps_take? hrest (by decide)).agrees_skip fun rest₂ rest₂' hrest₂ hle₂ => ?_
    refine (steps_take? hrest₂ (by decide)).agrees_bind ?_ ?_
    · rintro _ _ rest₃ rest₃' - hrest₃ hlt₃
      exact agrees_pure hnext hrest₃ (by omega)
    · intro rest₃ rest₃' hrest₃ hle₃
      exact (ih hnext hrest₃ (by omega) (by omega) (by omega)).mono (by omega)

/-- Arguments that do not end fail in both: at the end of the stream and at the end of the block. -/
theorem agrees_arguments {opening : Token} (hmirrors : Mirrors block stream inner)
    (hlimit : stream.upcoming.length < limit) :
    Agrees block (SameArguments block) stream.upcoming.length (arguments expression opening)
      (arguments expression' (block.change opening)) stream inner := by
  refine (steps_take? hmirrors (by decide)).agrees_bind ?_ ?_
  · rintro _ _ rest rest' - hrest hlt
    exact agrees_pure rfl hrest hlt
  · intro rest rest' hrest hle
    exact agrees_get_bind ((agrees_argumentsFrom hexpr rfl hrest (by omega) le_rfl
      hrest.length_lt).mono hle)

end

/-! ## Postfix forms -/

section

variable (hexpr : Alongside block limit expression expression')
  (hmirrors : Mirrors block stream inner)
include hexpr hmirrors

/-- A bound is left out in both if it is in one. -/
theorem agrees_unlessSeen {kind : Kind} (hkind : kind ≠ .eof ∧ kind ≠ .variableEnd)
    (hlimit : stream.upcoming.length < limit) :
    Agrees block (SameOption block) (stream.upcoming.length + 1) (unlessSeen expression kind)
      (unlessSeen expression' kind) stream inner := by
  have hends : Kind.eof ∈ [kind] ↔ Kind.variableEnd ∈ [kind] := by
    simp [hkind.1.symm, hkind.2.symm]
  refine agrees_sees_bind hmirrors hends (agrees_ite (fun _ => ?_) fun _ => ?_)
  · exact agrees_pure rfl hmirrors (Nat.lt_succ_self _)
  · refine (hexpr hmirrors hlimit).bind ?_
    rintro expr _ rest rest' rfl hrest hlt
    exact agrees_pure rfl hrest (hlt.trans (Nat.lt_succ_self _))

theorem agrees_subscriptNode {subject : Expr Token} {bracket : Token}
    (hlimit : stream.upcoming.length < limit) :
    Agrees block (SameTree block) (stream.upcoming.length + 1)
      (subscriptNode expression subject bracket)
      (subscriptNode expression' (block.move subject) (block.change bracket)) stream inner := by
  refine (agrees_unlessSeen hexpr hmirrors (by decide) hlimit).bind ?_
  rintro start _ rest rest' rfl hrest hlt
  refine (steps_take? hrest (by decide)).agrees_bind ?_ ?_
  · rintro _ _ rest₂ rest₂' - hrest₂ hlt₂
    refine (agrees_unlessSeen hexpr hrest₂ (by decide) (by omega)).bind ?_
    rintro stop _ rest₃ rest₃' rfl hrest₃ hlt₃
    exact agrees_pure (by simp [SameTree]) hrest₃ (by omega)
  · intro rest₂ rest₂' hrest₂ hle₂
    cases start with
    | none => exact fails_failAt.agrees fails_failAt
    | some key => exact agrees_pure rfl hrest₂ (by omega)

/-- An empty subscript fails in both. -/
theorem agrees_subscript {subject : Expr Token} {bracket : Token}
    (hlimit : stream.upcoming.length < limit) :
    Agrees block (SameTree block) stream.upcoming.length (subscript expression subject bracket)
      (subscript expression' (block.move subject) (block.change bracket)) stream inner := by
  refine agrees_refuse_bind hmirrors (by decide) fails_failAt fails_failAt fun _ => ?_
  refine (agrees_subscriptNode hexpr hmirrors hlimit).bind ?_
  rintro node _ rest rest' rfl hrest hlt
  refine (agrees_expect hrest (by decide) fails_failAt fails_failAt).bind ?_
  rintro _ _ rest₂ rest₂' - hrest₂ hlt₂
  exact agrees_pure rfl hrest₂ (by omega)

/-- A form behind a subject begins with a token that is no end. -/
theorem steps_postfixForm? {subject subject' : Expr Token}
    (hsubject : SameTree block subject subject') (hlimit : stream.upcoming.length ≤ limit) :
    Steps block (SameTree block) stream.upcoming.length (postfixForm? expression subject)
      (postfixForm? expression' subject') stream inner := by
  obtain rfl := hsubject
  refine (steps_take? hmirrors (by decide)).bind ?_ rfl rfl
  rintro token _ rest rest' ⟨rfl, hkind⟩ hrest hlt
  simp only [List.mem_cons, List.not_mem_nil, or_false] at hkind
  dsimp only
  rw [block.kind_change]
  rcases hkind with hdot | hbracket | hparen
  · rw [hdot]
    refine (agrees_selector hrest).bind ?_
    rintro selector _ rest₂ rest₂' rfl hrest₂ hlt₂
    exact agrees_pure (bothSome rfl) hrest₂ (hlt₂.trans hlt)
  · rw [hbracket]
    refine (agrees_subscript hexpr hrest (by omega)).bind ?_
    rintro node _ rest₂ rest₂' rfl hrest₂ hlt₂
    exact agrees_pure (bothSome rfl) hrest₂ (hlt₂.trans hlt)
  · rw [hparen]
    refine (agrees_arguments hexpr hrest (by omega)).bind ?_
    rintro arguments _ rest₂ rest₂' rfl hrest₂ hlt₂
    exact agrees_pure (bothSome (by simp [SameTree])) hrest₂ (hlt₂.trans hlt)

theorem agrees_repeatWhile_postfixForm? {subject subject' : Expr Token}
    (hsubject : SameTree block subject subject') (hlimit : stream.upcoming.length < limit) :
    Agrees block (SameTree block) (stream.upcoming.length + 1)
      (repeatWhile subject (postfixForm? expression))
      (repeatWhile subject' (postfixForm? expression')) stream inner :=
  agrees_repeatWhile (fun _ _ _ _ hsubject hmirrors hlimit =>
    steps_postfixForm? hexpr hmirrors hsubject hlimit.le)
    (fun _ => (stops_take? (by decide)).bind stops_none) hsubject hmirrors hlimit

omit hmirrors in
theorem agrees_withPostfix {operand operand' : ExprRule}
    (hoperand : Agrees block (SameTree block) stream.upcoming.length operand operand' stream inner)
    (hlimit : stream.upcoming.length ≤ limit) :
    Agrees block (SameTree block) stream.upcoming.length (withPostfix expression operand)
      (withPostfix expression' operand') stream inner := by
  refine hoperand.bind fun subject subject' rest rest' hsubject hrest hlt => ?_
  exact (agrees_repeatWhile_postfixForm? hexpr hrest hsubject (hlt.trans_le hlimit)).mono hlt

/-- Boolean values and reserved words are known by their text, which is the same in a block. -/
theorem agrees_variableOrBoolean (hkind : stream.current.kind ≠ .eof)
    (hlimit : stream.upcoming.length ≤ limit) :
    Agrees block (SameTree block) stream.upcoming.length (variableOrBoolean expression)
      (variableOrBoolean expression') stream inner := by
  refine agrees_pop_bind hmirrors hkind fun rest rest' hrest hlt => ?_
  generalize stream.current = token
  rw [block.text_change]
  cases booleanValue? token.text with
  | some value => exact agrees_pure rfl hrest hlt
  | none =>
    refine agrees_ite (fun _ => fails_failAt.agrees fails_failAt) fun _ => ?_
    exact (agrees_repeatWhile_postfixForm? hexpr hrest rfl (hlt.trans_le hlimit)).mono hlt

/-- Where no operand begins both fail, at an end in particular. -/
theorem agrees_plainOperand (hlimit : stream.upcoming.length ≤ limit) :
    Agrees block (SameTree block) stream.upcoming.length (plainOperand expression)
      (plainOperand expression') stream inner := by
  refine agrees_current_bind ?_
  rcases hmirrors.cases with ⟨-, heof, hend⟩ | ⟨hsame, -⟩
  · rw [heof, hend]
    exact fails_failHere.agrees fails_failHere
  · rw [hsame, block.kind_change]
    have hmoves (kind : Kind) (hkind : stream.current.kind = kind) (hne : kind ≠ .eof) :
        stream.current.kind ≠ .eof := hkind ▸ hne
    cases hkind : stream.current.kind with
    | integer | float =>
      have hmoves := hmoves _ hkind (by decide)
      exact agrees_withPostfix hexpr (agrees_number hmirrors hmoves) hlimit
    | string =>
      have hmoves := hmoves _ hkind (by decide)
      exact agrees_withPostfix hexpr (agrees_string hmirrors hmoves) hlimit
    | leftParen =>
      have hmoves := hmoves _ hkind (by decide)
      exact agrees_withPostfix hexpr (agrees_group hexpr hmirrors hmoves hlimit) hlimit
    | leftBracket =>
      have hmoves := hmoves _ hkind (by decide)
      exact agrees_withPostfix hexpr (agrees_list hexpr hmirrors hmoves hlimit) hlimit
    | leftBrace =>
      have hmoves := hmoves _ hkind (by decide)
      exact agrees_withPostfix hexpr (agrees_dict hexpr hmirrors hmoves hlimit) hlimit
    | name => exact agrees_variableOrBoolean hexpr hmirrors (hmoves _ hkind (by decide)) hlimit
    | _ => exact fails_failHere.agrees fails_failHere

omit hmirrors in
/-- Markers and operand together, one level further out than the expressions nested in them. -/
theorem alongside_operand :
    Alongside block (limit + 1) (operand expression) (operand expression') := by
  intro stream inner hmirrors hlimit
  refine (agrees_takeAll hmirrors (by decide)).bind ?_
  rintro markers _ rest rest' rfl hrest hlt
  refine (agrees_plainOperand hexpr hrest (by omega)).bind ?_
  rintro subject _ rest₂ rest₂' rfl hrest₂ hlt₂
  refine agrees_pure (Eq.symm (block.move_foldr spreadBy ?_ markers subject)) hrest₂ (by omega)
  intro token expr
  by_cases hmul : token.kind = .mul
  · simp only [spreadBy, hmul, block.kind_change, if_true]
    rfl
  · simp only [spreadBy, hmul, block.kind_change, if_false]
    rfl

end

end Grammar

end Stencil
