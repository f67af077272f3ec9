import Mathlib
import Stencil.Grammar.Logic

/-!
# Spellings

The grammar of expressions as a relation between token lists and trees.  Each form of expression
belongs to a level, from the conditional, which binds loosest, to the subjects of postfix forms.
Where a form has a part, the part has to be spelled at the level which that position asks for, and
parentheses make a subject out of any expression.  The tokens of a spelling stand in the order of
the source, and each node is marked by the token which it was made from.
-/

namespace Stencil

/-- How tightly a form binds.  A boolean or a spread is an `operand`, but only a `subject` can carry
a postfix form. -/
inductive Level where
  | conditional
  | disjunction
  | conjunction
  | negation
  | test
  | comparison
  | sum
  | concatenation
  | product
  | power
  | sign
  | filter
  | operand
  | subject
  deriving DecidableEq, Repr

namespace Level

def rank : Level → Nat
  | conditional => 0
  | disjunction => 1
  | conjunction => 2
  | negation => 3
  | test => 4
  | comparison => 5
  | sum => 6
  | concatenation => 7
  | product => 8
  | power => 9
  | sign => 10
  | filter => 11
  | operand => 12
  | subject => 13

/-- The next level inwards. -/
def tighter : Level → Level
  | conditional => disjunction
  | disjunction => conjunction
  | conjunction => negation
  | negation => test
  | test => comparison
  | comparison => sum
  | sum => concatenation
  | concatenation => product
  | product => power
  | power => sign
  | sign => filter
  | filter => operand
  | operand => subject
  | subject => subject

theorem rank_le_rank_tighter (level : Level) : level.rank ≤ level.tighter.rank := by
  cases level <;> decide

/-- The next tighter level is one rank higher, up to the tightest. -/
theorem rank_tighter {level : Level} (hlevel : level ≠ .subject) :
    level.tighter.rank = level.rank + 1 := by
  cases level with
  | subject => exact absurd rfl hlevel
  | _ => rfl

/-- Levels are told apart by their ranks. -/
theorem rank_injective {left right : Level} (hrank : left.rank = right.rank) : left = right := by
  revert hrank
  cases left <;> cases right <;> decide

theorem rank_le_rank_subject (level : Level) : level.rank ≤ subject.rank := by
  cases level <;> decide

end Level

namespace BinaryOp

def level : BinaryOp → Level
  | or => .disjunction
  | and => .conjunction
  | eq | ne | gt | gteq | lt | lteq | mem => .comparison
  | add | sub => .sum
  | concat => .concatenation
  | mul | div | floorDiv | mod => .product
  | pow => .power

/-- The kind of the token that spells an operator. -/
def kind : BinaryOp → Kind
  | or | and | mem => .name
  | eq => .eq
  | ne => .ne
  | gt => .gt
  | gteq => .gteq
  | lt => .lt
  | lteq => .lteq
  | add => .add
  | sub => .sub
  | concat => .tilde
  | mul => .mul
  | div => .div
  | floorDiv => .floorDiv
  | mod => .mod
  | pow => .pow

/-- An operator spelled by a word is told from other names by its text. -/
def IsSpelledBy (op : BinaryOp) (token : Token) : Prop :=
  token.kind = op.kind ∧ (op.kind = .name → token.text = op.symbol)

end BinaryOp

def Sign.kind : Sign → Kind
  | minus => .sub
  | plus => .add

/-- Whether two arguments have to be separated by a comma. -/
inductive Separation where
  | required
  | optional
  deriving DecidableEq, Repr

/-- At most one comma. -/
inductive OptionalComma : List Token → Prop where
  | none : OptionalComma []
  | comma {token : Token} : token.kind = .comma → OptionalComma [token]

/-- What stands between two arguments. -/
def Separation.Allows (separation : Separation) (tokens : List Token) : Prop :=
  OptionalComma tokens ∧ (separation = .required → tokens ≠ [])

/-- What a list of tokens may spell. -/
inductive Phrase where
  | expr (level : Level) (value : Expr Token)
  /-- One or more items with a comma between any two of them. -/
  | items (values : List (Expr Token))
  | pair (value : Expr Token × Expr Token)
  /-- One or more pairs with a comma between any two of them. -/
  | pairs (values : List (Expr Token × Expr Token))
  /-- A bound of a slice, which may be left out. -/
  | bound (value : Option (Expr Token))
  /-- One argument, which extends the arguments read before it. -/
  | argument (before after : Grammar.ArgumentList)
  /-- One or more arguments and the closing parenthesis. -/
  | arguments (before after : Grammar.ArgumentList)
  /-- Everything behind the opening parenthesis of a call. -/
  | argumentList (values : Grammar.ArgumentList)
  /-- What follows the name of a filter. -/
  | filterArguments (values : Grammar.ArgumentList)
  /-- What follows the name of a test. -/
  | testArgument (name : String) (value : Option (Expr Token))

open Grammar in
/-- The tokens spell the phrase. -/
inductive Spells (separation : Separation) (dialect : Dialect) : Phrase → List Token → Prop where
  | integer {token value} : token.kind = .integer → Decimal.readInteger token.text = .ok value →
      Spells separation dialect (.expr .subject (.integer token value)) [token]
  | float {token value} : token.kind = .float → Decimal.readFloat token.text = .ok value →
      value.isFinite → Spells separation dialect (.expr .subject (.float token value)) [token]
  | string {token} : token.kind = .string →
      Spells separation dialect (.expr .subject (.string token (unescape token.text))) [token]
  | bool {token value} : token.kind = .name → booleanValue? token.text = some value →
      Spells separation dialect (.expr .operand (.bool token value)) [token]
  | name {token} : token.kind = .name → booleanValue? token.text = none →
      token.text ∉ reservedNames →
      Spells separation dialect (.expr .subject (.name token token.text)) [token]
  | group {opening closing value tokens} :
      opening.kind = .leftParen → closing.kind = .rightParen →
      Spells separation dialect (.expr .conditional value) tokens →
      Spells separation dialect (.expr .subject value) (opening :: (tokens ++ [closing]))
  | emptyList {opening closing} : opening.kind = .leftBracket → closing.kind = .rightBracket →
      Spells separation dialect (.expr .subject (.list opening [])) [opening, closing]
  | list {opening closing values tokens comma} :
      opening.kind = .leftBracket → closing.kind = .rightBracket → OptionalComma comma →
      Spells separation dialect (.items values) tokens →
      Spells separation dialect (.expr .subject (.list opening values))
        (opening :: (tokens ++ (comma ++ [closing])))
  | emptyTuple {opening closing} : opening.kind = .leftParen → closing.kind = .rightParen →
      Spells separation dialect (.expr .subject (.tuple opening [])) [opening, closing]
  /-- A single item needs the comma behind it, or its parentheses would form a group. -/
  | tuple {opening closing values tokens comma} :
      opening.kind = .leftParen → closing.kind = .rightParen → OptionalComma comma →
      (values.length = 1 → comma ≠ []) →
      Spells separation dialect (.items values) tokens →
      Spells separation dialect (.expr .subject (.tuple opening values))
        (opening :: (tokens ++ (comma ++ [closing])))
  | emptyDict {opening closing} : opening.kind = .leftBrace → closing.kind = .rightBrace →
      Spells separation dialect (.expr .subject (.dict opening [])) [opening, closing]
  | dict {opening closing values tokens comma} :
      opening.kind = .leftBrace → closing.kind = .rightBrace → OptionalComma comma →
      Spells separation dialect (.pairs values) tokens →
      Spells separation dialect (.expr .subject (.dict opening values))
        (opening :: (tokens ++ (comma ++ [closing])))
  | member {subject tokens dot selector} : dot.kind = .dot → selector.kind = .name →
      Spells separation dialect (.expr .subject subject) tokens →
      Spells separation dialect (.expr .subject (.member dot subject (.name selector.text)))
        (tokens ++ [dot, selector])
  | position {subject tokens dot selector index} : dot.kind = .dot → selector.kind = .integer →
      Decimal.readIndex selector.text = .ok index →
      Spells separation dialect (.expr .subject subject) tokens →
      Spells separation dialect (.expr .subject (.member dot subject (.index index)))
        (tokens ++ [dot, selector])
  | subscript {subject key bracket closing tokens keyTokens} :
      bracket.kind = .leftBracket → closing.kind = .rightBracket →
      Spells separation dialect (.expr .subject subject) tokens →
      Spells separation dialect (.expr .conditional key) keyTokens →
      Spells separation dialect (.expr .subject (.subscript bracket subject key))
        (tokens ++ bracket :: (keyTokens ++ [closing]))
  | slice {subject start stop bracket colon closing tokens startTokens stopTokens} :
      bracket.kind = .leftBracket → colon.kind = .colon → closing.kind = .rightBracket →
      Spells separation dialect (.expr .subject subject) tokens →
      Spells separation dialect (.bound start) startTokens →
      Spells separation dialect (.bound stop) stopTokens →
      Spells separation dialect (.expr .subject (.slice bracket subject start stop))
        (tokens ++ bracket :: (startTokens ++ colon :: (stopTokens ++ [closing])))
  | call {callee values opening tokens more} : opening.kind = .leftParen →
      Spells separation dialect (.expr .subject callee) tokens →
      Spells separation dialect (.argumentList values) more →
      Spells separation dialect
        (.expr .subject (.call opening callee values.positional values.named))
        (tokens ++ opening :: more)
  | spread {operand marker tokens} : marker.kind = .mul →
      Spells separation dialect (.expr .operand operand) tokens →
      Spells separation dialect (.expr .operand (.spread marker operand)) (marker :: tokens)
  | namedSpread {operand marker tokens} : marker.kind = .pow →
      Spells separation dialect (.expr .operand operand) tokens →
      Spells separation dialect (.expr .operand (.namedSpread marker operand)) (marker :: tokens)
  | filter {subject values pipe name tokens more} : pipe.kind = .pipe → name.kind = .name →
      Spells separation dialect (.expr .filter subject) tokens →
      Spells separation dialect (.filterArguments values) more →
      Spells separation dialect
        (.expr .filter (.filter name subject name.text values.positional values.named))
        (tokens ++ pipe :: name :: more)
  | signed {operand sign token tokens} : token.kind = sign.kind →
      Spells separation dialect (.expr .sign operand) tokens →
      Spells separation dialect (.expr .sign (.signed token sign operand)) (token :: tokens)
  | binary {op left right token leftTokens rightTokens} : BinaryOp.IsSpelledBy op token →
      Spells separation dialect (.expr op.level left) leftTokens →
      Spells separation dialect (.expr op.level.tighter right) rightTokens →
      Spells separation dialect (.expr op.level (.binary token op left right))
        (leftTokens ++ token :: rightTokens)
  /-- The two words of `not in` deny a membership. -/
  | notMember {left right word token leftTokens rightTokens} :
      word.isName ["not"] → token.isName ["in"] →
      Spells separation dialect (.expr .comparison left) leftTokens →
      Spells separation dialect (.expr .sum right) rightTokens →
      Spells separation dialect (.expr .comparison (.negation word (.binary token .mem left right)))
        (leftTokens ++ word :: token :: rightTokens)
  | test {subject argument word name tokens more} : word.isName ["is"] →
      name.kind ≠ .eof → name.kind ≠ .variableEnd → ¬ name.isName ["not"] →
      Spells separation dialect (.expr .comparison subject) tokens →
      Spells separation dialect (.testArgument name.text argument) more →
      Spells separation dialect (.expr .test (.test name subject name.text argument))
        (tokens ++ word :: name :: more)
  /-- The two words of `is not` deny a test. -/
  | notTest {subject argument word negating name tokens more} :
      word.isName ["is"] → negating.isName ["not"] →
      name.kind ≠ .eof → name.kind ≠ .variableEnd →
      Spells separation dialect (.expr .comparison subject) tokens →
      Spells separation dialect (.testArgument name.text argument) more →
      Spells separation dialect
        (.expr .test (.negation negating (.test name subject name.text argument)))
        (tokens ++ word :: negating :: name :: more)
  | negation {operand word tokens} : word.isName ["not"] →
      Spells separation dialect (.expr .negation operand) tokens →
      Spells separation dialect (.expr .negation (.negation word operand)) (word :: tokens)
  | conditional {consequent condition word tokens conditionTokens} : word.isName ["if"] →
      Spells separation dialect (.expr .disjunction consequent) tokens →
      Spells separation dialect (.expr .disjunction condition) conditionTokens →
      Spells separation dialect
        (.expr .conditional (.conditional word condition consequent none))
        (tokens ++ word :: conditionTokens)
  | alternative {consequent condition alternative word otherwise tokens conditionTokens
        alternativeTokens} :
      word.isName ["if"] → otherwise.isName ["else"] →
      Spells separation dialect (.expr .disjunction consequent) tokens →
      Spells separation dialect (.expr .disjunction condition) conditionTokens →
      Spells separation dialect (.expr .conditional alternative) alternativeTokens →
      Spells separation dialect
        (.expr .conditional (.conditional word condition consequent (some alternative)))
        (tokens ++ word :: (conditionTokens ++ otherwise :: alternativeTokens))
  /-- A form that binds tighter than its position asks for needs no parentheses. -/
  | tighten {level value tokens} : Spells separation dialect (.expr level.tighter value) tokens →
      Spells separation dialect (.expr level value) tokens
  | oneItem {value tokens} : Spells separation dialect (.expr .conditional value) tokens →
      Spells separation dialect (.items [value]) tokens
  | moreItems {values value tokens comma more} : comma.kind = .comma →
      Spells separation dialect (.items values) tokens →
      Spells separation dialect (.expr .conditional value) more →
      Spells separation dialect (.items (values ++ [value])) (tokens ++ comma :: more)
  | pair {key value colon tokens more} : colon.kind = .colon →
      Spells separation dialect (.expr .conditional key) tokens →
      Spells separation dialect (.expr .conditional value) more →
      Spells separation dialect (.pair (key, value)) (tokens ++ colon :: more)
  | onePair {value tokens} : Spells separation dialect (.pair value) tokens →
      Spells separation dialect (.pairs [value]) tokens
  | morePairs {values value tokens comma more} : comma.kind = .comma →
      Spells separation dialect (.pairs values) tokens →
      Spells separation dialect (.pair value) more →
      Spells separation dialect (.pairs (values ++ [value])) (tokens ++ comma :: more)
  | noBound : Spells separation dialect (.bound none) []
  | oneBound {value tokens} : Spells separation dialect (.expr .conditional value) tokens →
      Spells separation dialect (.bound (some value)) tokens
  | positional {before value tokens} : Spells separation dialect (.expr .conditional value) tokens →
      Spells separation dialect
        (.argument before { before with positional := before.positional ++ [value] }) tokens
  /-- The name of an argument is an expression of its own, which may stand in parentheses. -/
  | named {before token key value assign tokens more} : assign.kind = .assign →
      key ∉ before.named.map Prod.fst →
      Spells separation dialect (.expr .conditional (.name token key)) tokens →
      Spells separation dialect (.expr .conditional value) more →
      Spells separation dialect
        (.argument before { before with named := before.named ++ [(key, value)] })
        (tokens ++ assign :: more)
  | lastArgument {before after closing tokens comma} : closing.kind = .rightParen →
      OptionalComma comma →
      Spells separation dialect (.argument before after) tokens →
      Spells separation dialect (.arguments before after) (tokens ++ (comma ++ [closing]))
  | moreArguments {before between after tokens gap more} : separation.Allows gap →
      Spells separation dialect (.argument before between) tokens →
      Spells separation dialect (.arguments between after) more →
      Spells separation dialect (.arguments before after) (tokens ++ (gap ++ more))
  | noArguments {closing} : closing.kind = .rightParen →
      Spells separation dialect (.argumentList {}) [closing]
  | someArguments {values tokens} : Spells separation dialect (.arguments {} values) tokens →
      Spells separation dialect (.argumentList values) tokens
  | bareFilter : Spells separation dialect (.filterArguments {}) []
  | filterCall {values opening tokens} : opening.kind = .leftParen →
      Spells separation dialect (.argumentList values) tokens →
      Spells separation dialect (.filterArguments values) (opening :: tokens)
  | noArgument {name} : dialect.takesArgument name = false →
      Spells separation dialect (.testArgument name none) []
  | oneArgument {name value tokens} : dialect.takesArgument name = true →
      Spells separation dialect (.expr .operand value) tokens →
      Spells separation dialect (.testArgument name (some value)) tokens

/-! ## Single items -/

/-- Items are spelled if there is at least one. -/
theorem Spells.not_items_nil {separation : Separation} {dialect : Dialect}
    {tokens : List Token} :
    ¬ Spells separation dialect (.items []) tokens := by
  intro hspells
  generalize hphrase : Phrase.items [] = phrase at hspells
  cases hspells with
  | moreItems => simp at hphrase
  | _ => cases hphrase

theorem Spells.expr_of_items_singleton {separation : Separation} {dialect : Dialect}
    {item : Expr Token}
    {tokens : List Token} (hspells : Spells separation dialect (.items [item]) tokens) :
    Spells separation dialect (.expr .conditional item) tokens := by
  generalize hphrase : Phrase.items [item] = phrase at hspells
  cases hspells with
  | oneItem hitem =>
    cases hphrase
    exact hitem
  | @moreItems before _ _ _ _ _ hbefore =>
    have hnil : before = [] := by
      cases before <;> simp_all
    subst hnil
    exact absurd hbefore Spells.not_items_nil
  | _ => cases hphrase

/-! ## Levels -/

/-- An expression can stand wherever a looser one is asked for. -/
theorem Spells.loosen {separation : Separation} {dialect : Dialect} {loose tight : Level}
    {value : Expr Token} {tokens : List Token}
    (hspells : Spells separation dialect (.expr tight value) tokens)
    (hrank : loose.rank ≤ tight.rank) :
    Spells separation dialect (.expr loose value) tokens := by
  induction hdistance : tight.rank - loose.rank generalizing loose with
  | zero =>
    have hsame : loose = tight := Level.rank_injective (by omega)
    exact hsame ▸ hspells
  | succ distance ih =>
    have hlevel : loose ≠ .subject := by
      rintro rfl
      have := tight.rank_le_rank_subject
      omega
    have htighter := Level.rank_tighter hlevel
    exact .tighten (ih (by omega) (by omega))

/-! ## Prefix markers -/

/-- Markers in front are spelled one by one, the innermost last. -/
theorem Spells.foldr {separation : Separation} {dialect : Dialect} {level : Level}
    {mark : Token → Expr Token → Expr Token} {IsMarker : Token → Prop} {value : Expr Token}
    {markers tokens : List Token}
    (hvalue : Spells separation dialect (.expr level value) tokens)
    (hmarkers : ∀ marker ∈ markers, IsMarker marker)
    (hmark : ∀ marker value tokens, IsMarker marker →
      Spells separation dialect (.expr level value) tokens →
      Spells separation dialect (.expr level (mark marker value)) (marker :: tokens)) :
    Spells separation dialect (.expr level (markers.foldr mark value)) (markers ++ tokens) := by
  induction markers with
  | nil => exact hvalue
  | cons marker markers ih =>
    rw [List.forall_mem_cons] at hmarkers
    exact hmark _ _ _ hmarkers.1 (ih hmarkers.2)

/-! ## How a spelling starts -/

/-- The kinds of the tokens that may start an expression. -/
def startKinds : List Kind :=
  [.integer, .float, .string, .name, .leftParen, .leftBracket, .leftBrace, .sub, .add, .mul, .pow]

namespace Token

/-- A token that may start an expression at the level.  The prefix markers start no expression at a
level tighter than their own. -/
structure Starts (level : Level) (token : Token) : Prop where
  kind : token.kind ∈ startKinds
  not_negation : Level.negation.rank < level.rank → ¬ token.isName ["not"]
  not_sign : Level.sign.rank < level.rank → token.kind ∉ [Kind.sub, .add]
  not_spread : Level.operand.rank < level.rank → token.kind ∉ [Kind.mul, .pow]

/-- What starts a spelling of a tight level starts one of a looser level. -/
theorem Starts.mono {token : Token} {loose tight : Level} (hstarts : token.Starts tight)
    (hrank : loose.rank ≤ tight.rank) : token.Starts loose where
  kind := hstarts.kind
  not_negation hlt := hstarts.not_negation (hlt.trans_le hrank)
  not_sign hlt := hstarts.not_sign (hlt.trans_le hrank)
  not_spread hlt := hstarts.not_spread (hlt.trans_le hrank)

theorem Starts.kind_notMem {token : Token} {level : Level} {kinds : List Kind}
    (hstarts : token.Starts level) (hkinds : ∀ kind ∈ kinds, kind ∉ startKinds) :
    token.kind ∉ kinds :=
  fun hmem => hkinds _ hmem hstarts.kind

theorem isName_iff {words : List String} {token : Token} :
    token.isName words ↔ token.kind = .name ∧ token.text ∈ words := by
  simp [isName]

end Token

/-- The level at which a phrase starts with an expression, if it does. -/
def Phrase.start? : Phrase → Option Level
  | expr level _ => some level
  | items _ | pair _ | pairs _ | argument _ _ | arguments _ _ => some .conditional
  | bound _ | argumentList _ | filterArguments _ | testArgument _ _ => none

/-- Everything but an expression itself stands next to a token of its own. -/
def Phrase.margin : Phrase → Nat
  | expr _ _ => 0
  | _ => 1

theorem Spells.starts {separation : Separation} {dialect : Dialect} {phrase : Phrase}
    {tokens : List Token} (hspells : Spells separation dialect phrase tokens) {level : Level}
    (hlevel : phrase.start? = some level) :
    ∃ token rest, tokens = token :: rest ∧ token.Starts level := by
  induction hspells generalizing level with
  | integer hkind | float hkind | string hkind | group hkind | emptyList hkind | list hkind
  | emptyTuple hkind | tuple hkind | emptyDict hkind | dict hkind =>
    cases hlevel
    exact ⟨_, _, rfl, by constructor <;> simp [startKinds, Token.isName, hkind]⟩
  | @bool token value hkind hvalue =>
    cases hlevel
    have htext : token.text ≠ "not" := by
      intro htext
      simp [htext, Grammar.booleanValue?] at hvalue
    exact ⟨_, _, rfl, by constructor <;> simp [startKinds, Token.isName_iff, hkind, htext]⟩
  | @name token hkind _ hreserved =>
    cases hlevel
    have htext : token.text ≠ "not" := by
      intro htext
      simp [htext, Grammar.reservedNames] at hreserved
    exact ⟨_, _, rfl, by constructor <;> simp [startKinds, Token.isName_iff, hkind, htext]⟩
  | spread hkind | namedSpread hkind =>
    cases hlevel
    exact ⟨_, _, rfl, by constructor <;> simp [startKinds, Token.isName, hkind, Level.rank]⟩
  | @signed _ sign _ _ hkind =>
    cases hlevel
    exact ⟨_, _, rfl, by
      cases sign <;> constructor <;> simp [startKinds, Token.isName, hkind, Sign.kind, Level.rank]⟩
  | negation hword =>
    cases hlevel
    obtain ⟨hkind, htext⟩ := Token.isName_iff.1 hword
    exact ⟨_, _, rfl, by constructor <;> simp [startKinds, hkind, Level.rank]⟩
  | tighten _ ih =>
    cases hlevel
    obtain ⟨token, rest, rfl, hstarts⟩ := ih rfl
    exact ⟨token, rest, rfl, hstarts.mono (Level.rank_le_rank_tighter _)⟩
  | test _ _ _ _ _ _ ih | notTest _ _ _ _ _ _ ih | conditional _ _ _ ih
  | alternative _ _ _ _ _ ih =>
    cases hlevel
    obtain ⟨token, rest, rfl, hstarts⟩ := ih rfl
    exact ⟨token, _, rfl, hstarts.mono (by decide)⟩
  | oneItem _ ih | onePair _ ih | positional _ ih =>
    cases hlevel
    exact ih rfl
  | member _ _ _ ih | position _ _ _ _ ih | subscript _ _ _ _ ih | slice _ _ _ _ _ _ ih
  | call _ _ _ ih | filter _ _ _ _ ih | binary _ _ _ ih | notMember _ _ _ _ ih
  | moreItems _ _ _ ih | pair _ _ _ ih | morePairs _ _ _ ih | named _ _ _ _ ih
  | lastArgument _ _ _ ih | moreArguments _ _ _ ih =>
    cases hlevel
    obtain ⟨token, rest, rfl, hstarts⟩ := ih rfl
    exact ⟨token, _, rfl, hstarts⟩
  | noBound | oneBound | noArguments | someArguments | bareFilter | filterCall | noArgument
  | oneArgument => cases hlevel

end Stencil
