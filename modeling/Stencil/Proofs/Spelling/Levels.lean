import Stencil.Proofs.Reading
import Stencil.Proofs.Spelling

/-!
# The rules by level

Each level of the grammar has its rule, and seven levels and the postfix forms have a loop.  Such a
loop goes on as long as the current token joins the level, so what an expression has to be followed
by is told by the levels which that token does not join.
-/

namespace Stencil

/-- The level whose loop goes on at a token of the kind, if there is one. -/
def Kind.joins? : Kind → Option Level
  | .eq | .ne | .gt | .gteq | .lt | .lteq => some .comparison
  | .add | .sub => some .sum
  | .tilde => some .concatenation
  | .mul | .div | .floorDiv | .mod => some .product
  | .pow => some .power
  | .pipe => some .filter
  | .dot | .leftBracket | .leftParen => some .subject
  | _ => none

def wordJoins? : String → Option Level
  | "if" | "else" => some .conditional
  | "or" => some .disjunction
  | "and" => some .conjunction
  | "is" => some .test
  | "in" | "not" => some .comparison
  | _ => none

/-- The level whose loop goes on at the token, if there is one. -/
def Token.joins? (token : Token) : Option Level :=
  if token.kind = .name then wordJoins? token.text else token.kind.joins?

theorem Token.joins?_of_kind {token : Token} (hname : token.kind ≠ .name) :
    token.joins? = token.kind.joins? :=
  if_neg hname

theorem Token.joins?_of_isName {token : Token} {word : String} (hword : token.isName [word]) :
    token.joins? = wordJoins? word := by
  obtain ⟨hkind, htext⟩ := Token.isName_iff.1 hword
  rw [joins?, if_pos hkind, List.mem_singleton.1 htext]

namespace TokenStream

/-- No loop of the level or of a tighter one goes on here. -/
def Stops (level : Level) (stream : TokenStream) : Prop :=
  ∀ joined, stream.current.joins? = some joined → joined.rank < level.rank

/-- No loop of a tighter level goes on here. -/
def StopsInside (level : Level) (stream : TokenStream) : Prop :=
  ∀ joined, stream.current.joins? = some joined → joined.rank ≤ level.rank

variable {level loose tight : Level} {stream : TokenStream}

theorem stops_of_joins?_eq_none (hjoins : stream.current.joins? = none) : stream.Stops level := by
  intro joined hjoined
  rw [hjoins] at hjoined
  cases hjoined

theorem Stops.mono (hstops : stream.Stops loose) (hrank : loose.rank ≤ tight.rank) :
    stream.Stops tight :=
  fun joined hjoined => (hstops joined hjoined).trans_le hrank

theorem Stops.inside (hstops : stream.Stops level) : stream.StopsInside level :=
  fun joined hjoined => (hstops joined hjoined).le

theorem StopsInside.stops (hstops : stream.StopsInside loose) (hrank : loose.rank < tight.rank) :
    stream.Stops tight :=
  fun joined hjoined => (hstops joined hjoined).trans_lt hrank

/-- At a token that joins a level, all tighter levels stop. -/
theorem stopsInside_of_joins? (hjoins : stream.current.joins? = some level) :
    stream.StopsInside level := by
  intro joined hjoined
  rw [hjoins] at hjoined
  cases hjoined
  rfl

theorem stopsInside_of_kind {kind : Kind} (hkind : stream.current.kind = kind)
    (hjoins : kind.joins? = some level) : stream.StopsInside level := by
  refine stopsInside_of_joins? ((Token.joins?_of_kind ?_).trans (hkind ▸ hjoins))
  rw [hkind]
  rintro rfl
  cases hjoins

theorem stopsInside_of_isName {word : String} (hword : stream.current.isName [word])
    (hjoins : wordJoins? word = some level) : stream.StopsInside level :=
  stopsInside_of_joins? ((Token.joins?_of_isName hword).trans hjoins)

theorem Stops.joins?_ne {joined : Level} (hstops : stream.Stops level)
    (hrank : level.rank ≤ joined.rank) : stream.current.joins? ≠ some joined :=
  fun hjoins => absurd (hstops joined hjoins) (not_lt.2 hrank)

end TokenStream

namespace Grammar

open Rule

/-- The rule that reads the expressions of a level, for given nested expressions. -/
def ruleAt (dialect : Dialect) (expression : ExprRule) : Level → ExprRule
  | .conditional => conditional dialect expression
  | .disjunction => disjunction dialect expression
  | .conjunction => conjunction dialect expression
  | .negation => negation dialect expression
  | .test => comparison dialect expression
  | .comparison => do repeatWhile (← sum expression) (comparison? expression)
  | .sum => sum expression
  | .concatenation => concatenation expression
  | .product => product expression
  | .power => power expression
  | .sign => signed expression
  | .filter => do filters expression (← operand expression)
  | .operand => operand expression
  | .subject => plainOperand expression

/-- The operators of a level at which operands group from the left. -/
def operatorAt? : Level → Option (Rule (Option (BinaryOp × Token)))
  | .disjunction => some (wordOperator "or" .or)
  | .conjunction => some (wordOperator "and" .and)
  | .sum => some (operatorOf [.add, .sub])
  | .concatenation => some (operatorOf [.tilde])
  | .product => some (operatorOf [.mul, .div, .floorDiv, .mod])
  | .power => some (operatorOf [.pow])
  | _ => none

/-- The step which the loop of a level repeats, if the level has one. -/
def stepAt? (dialect : Dialect) (expression : ExprRule) (level : Level) :
    Option (Expr Token → Rule (Option (Expr Token))) :=
  match level with
  | .comparison => some (comparison? expression)
  | .filter => some (filter? expression)
  | .subject => some (postfixForm? expression)
  | level => (operatorAt? level).map (nextOperand (ruleAt dialect expression level.tighter))

variable {dialect : Dialect} {expression : ExprRule} {level : Level} {stream : TokenStream}
variable {value : Expr Token} {step : Expr Token → Rule (Option (Expr Token))}
variable {operator : Rule (Option (BinaryOp × Token))}

theorem stepAt?_of_operatorAt? (hoperator : operatorAt? level = some operator) :
    stepAt? dialect expression level =
      some (nextOperand (ruleAt dialect expression level.tighter) operator) := by
  cases level <;> cases hoperator <;> rfl

/-- Outside the operands, a loop starts with what the next level inwards reads. -/
theorem ruleAt_of_stepAt? (hstep : stepAt? dialect expression level = some step)
    (hlevel : level ≠ .subject) :
    ruleAt dialect expression level =
      (do repeatWhile (← ruleAt dialect expression level.tighter) step) := by
  cases level <;> cases hstep <;> first | rfl | exact absurd rfl hlevel

theorem rank_lt_rank_tighter (hlevel : level ≠ .subject) : level.rank < level.tighter.rank := by
  cases level <;> first | decide | exact absurd rfl hlevel

/-! ## Where the loops end -/

/-- Tokens of these kinds always join the level. -/
theorem kind_notMem_of_stops {kinds : List Kind} (hstops : stream.Stops level)
    (hkinds : ∀ kind ∈ kinds, kind.joins? = some level) : stream.current.kind ∉ kinds := by
  intro hmem
  have hname : stream.current.kind ≠ .name := by
    intro hname
    simpa [hname, Kind.joins?] using hkinds _ hmem
  exact hstops.joins?_ne le_rfl ((Token.joins?_of_kind hname).trans (hkinds _ hmem))

theorem not_isName_of_stops {words : List String} (hstops : stream.Stops level)
    (hwords : ∀ word ∈ words, wordJoins? word = some level) : ¬ stream.current.isName words := by
  intro hword
  obtain ⟨hkind, hmem⟩ := Token.isName_iff.1 hword
  refine hstops.joins?_ne le_rfl ((Token.joins?_of_isName ?_).trans (hwords _ hmem))
  simp [Token.isName_iff, hkind]

theorem reads_operatorOf_none {kinds : List Kind} (hstops : stream.Stops level)
    (hkinds : ∀ kind ∈ kinds, kind.joins? = some level) :
    Reads (operatorOf kinds) stream none stream :=
  (reads_take?_none (kind_notMem_of_stops hstops hkinds)).bind (reads_pure.2 ⟨rfl, rfl⟩)

theorem reads_wordOperator_none {word : String} {op : BinaryOp} (hstops : stream.Stops level)
    (hword : wordJoins? word = some level) : Reads (wordOperator word op) stream none stream :=
  (reads_takeName?_none (not_isName_of_stops hstops (by simpa using hword))).bind
    (reads_pure.2 ⟨rfl, rfl⟩)

theorem reads_operatorAt_none (hoperator : operatorAt? level = some operator)
    (hstops : stream.Stops level) : Reads operator stream none stream := by
  cases level <;> cases hoperator
  case disjunction => exact reads_wordOperator_none hstops rfl
  case conjunction => exact reads_wordOperator_none hstops rfl
  all_goals exact reads_operatorOf_none hstops (by decide)

theorem reads_comparator?_none (hstops : stream.Stops .comparison) :
    Reads comparator? stream none stream :=
  (reads_take?_none (kind_notMem_of_stops hstops (by decide))).bind
    ((reads_takeName?_none (not_isName_of_stops hstops (by decide))).bind (reads_pure.2 ⟨rfl, rfl⟩))

/-- The loop of a level ends where the level stops. -/
theorem reads_stepAt_none (hstep : stepAt? dialect expression level = some step)
    (hstops : stream.Stops level) : Reads (step value) stream none stream := by
  cases hoperator : operatorAt? level with
  | some operator =>
    rw [stepAt?_of_operatorAt? hoperator] at hstep
    cases hstep
    exact (reads_operatorAt_none hoperator hstops).bind (reads_pure.2 ⟨rfl, rfl⟩)
  | none =>
    cases level <;> cases hoperator <;> cases hstep
    · exact (reads_comparator?_none hstops).bind (reads_pure.2 ⟨rfl, rfl⟩)
    all_goals
      exact (reads_take?_none (kind_notMem_of_stops hstops (by decide))).bind
        (reads_pure.2 ⟨rfl, rfl⟩)

/-! ## Reading a spelling -/

/-- The rule of the level reads the tokens to the value, and its loop goes on from there. -/
def ReadsAt (dialect : Dialect) (expression : ExprRule) (level : Level) (value : Expr Token)
    (tokens : List Token) : Prop :=
  match stepAt? dialect expression level with
  | some step => ∀ ⦃after result rest⦄, after.StopsInside level →
      Repeats step value after result rest →
      Reads (ruleAt dialect expression level) (after.prepend tokens) result rest
  | none => ∀ ⦃rest⦄, rest.Stops level →
      Reads (ruleAt dialect expression level) (rest.prepend tokens) value rest

variable {tokens : List Token} {rest : TokenStream}

/-- Where the level stops, the rule has read the value. -/
theorem ReadsAt.whole (hreads : ReadsAt dialect expression level value tokens)
    (hstops : rest.Stops level) :
    Reads (ruleAt dialect expression level) (rest.prepend tokens) value rest := by
  unfold ReadsAt at hreads
  split at hreads
  · next step hstep => exact hreads hstops.inside (.stop (reads_stepAt_none hstep hstops))
  · exact hreads hstops

/-- Outside the operands, the value of the next level inwards starts the loop. -/
theorem ReadsAt.tighten_of_stepAt? (hstep : stepAt? dialect expression level = some step)
    (hlevel : level ≠ .subject)
    (hreads : ReadsAt dialect expression level.tighter value tokens) :
    ReadsAt dialect expression level value tokens := by
  unfold ReadsAt
  rw [hstep]
  intro after result rest hstops hrepeats
  rw [ruleAt_of_stepAt? hstep hlevel]
  exact (hreads.whole (hstops.stops (rank_lt_rank_tighter hlevel))).bind hrepeats.reads

end Grammar

end Stencil
