import Stencil.Proofs.Cursor
import Stencil.Proofs.Lookahead.Grammar

/-!
# Progress of the grammar

A rule of the grammar that succeeds somewhere in a list of tokens moves on, at most to the next end
token, and it has seen nothing of the list but the tokens up to the place where it stops.  So no loop of
the grammar needs more rounds than there are tokens.
-/

namespace Stencil

/-! ## Places in a list of tokens -/

namespace TokenStream

/-- The stream over a list of tokens from a place on: what a cursor there has still to come. -/
def atPosition (tokens : List Token) (position : ℕ) : TokenStream :=
  TokenCursor.rest ⟨closed tokens, position⟩

variable {tokens tokens' moved more : List Token} {token : Token} {stream : TokenStream}
variable {position : ℕ}

theorem current_ofTokens_cons (token : Token) (tokens : List Token) :
    (ofTokens (token :: tokens)).current = token := by
  by_cases hkind : token.kind = .eof <;> simp [ofTokens, current, hkind]

/-- What comes behind a place in a closed list is empty or has an end token last. -/
theorem kind_of_getLast?_drop {last : Token}
    (hlast : ((closed tokens).drop position).getLast? = some last) : last.kind = .eof := by
  obtain ⟨before, final, hclosed, hkind⟩ := exists_closed_eq tokens
  rw [List.getLast?_drop, hclosed] at hlast
  split at hlast
  · cases hlast
  · rw [List.getLast?_concat] at hlast
    cases hlast
    exact hkind

/-- Tokens that are moved past from a place on stand there in the list, and none is an end token. -/
theorem exists_drop_eq (hsplit : atPosition tokens position = stream.prepend moved)
    (hmoved : moved ≠ []) :
    ∃ first behind, (closed tokens).drop position = moved ++ first :: behind ∧
      (∀ token ∈ moved, token.kind ≠ .eof) ∧ stream = ofTokens (first :: behind) := by
  have hupcoming : ((closed tokens).drop position).takeWhile (fun token => token.kind != .eof) =
      moved ++ stream.upcoming := congrArg upcoming hsplit
  have hkinds : ∀ token ∈ moved, token.kind ≠ .eof := by
    intro token hmem
    have hmem : token ∈ (atPosition tokens position).upcoming := by
      rw [hsplit, upcoming_prepend]
      exact List.mem_append_left _ hmem
    exact kind_ne_eof_of_mem_ofTokens hmem
  have htaken : moved <+: _ := ⟨_, hupcoming.symm⟩
  obtain ⟨more, hdrop⟩ := htaken.trans <| List.takeWhile_prefix _
  cases more with
  | nil =>
    rw [List.append_nil] at hdrop
    obtain ⟨last, hlast⟩ := Option.ne_none_iff_exists'.1 (mt List.getLast?_eq_none_iff.1 hmoved)
    exact absurd (kind_of_getLast?_drop (hdrop ▸ hlast)) (hkinds last (List.mem_of_getLast? hlast))
  | cons first behind =>
    refine ⟨first, behind, hdrop.symm, hkinds, ?_⟩
    have hsame : stream.prepend moved = (ofTokens (first :: behind)).prepend moved := by
      rw [← hsplit, atPosition, TokenCursor.rest, ← hdrop,
        ofTokens_append hkinds (List.cons_ne_nil first behind)]
    exact prepend_cancel hsame

/-- Two lists have the same tokens from a place to another one, both included. -/
def AgreeOn (start stop : ℕ) (tokens tokens' : List Token) : Prop :=
  ∀ index, start ≤ index → index ≤ stop → (closed tokens')[index]? = (closed tokens)[index]?

theorem atPosition_add (hdrop : (closed tokens).drop position = moved ++ more) :
    atPosition tokens (position + moved.length) = ofTokens more := by
  rw [atPosition, TokenCursor.rest, ← List.drop_drop, hdrop, List.drop_left]

/-- The next end token stands behind the tokens that are moved past. -/
theorem add_length_le_of_eof {index : ℕ} (hdrop : (closed tokens).drop position = moved ++ more)
    (hkinds : ∀ token ∈ moved, token.kind ≠ .eof) (hindex : position ≤ index)
    (htoken : (closed tokens)[index]? = some token) (hkind : token.kind = .eof) :
    position + moved.length ≤ index := by
  by_contra! hbefore
  obtain ⟨offset, rfl⟩ := Nat.exists_eq_add_of_le hindex
  rw [← List.getElem?_drop, hdrop, List.getElem?_append_left (by omega)] at htoken
  exact hkinds token (List.mem_of_getElem? htoken) hkind

theorem AgreeOn.drop_eq {first : Token} {behind : List Token}
    (hagree : AgreeOn position (position + moved.length) tokens tokens')
    (hdrop : (closed tokens).drop position = moved ++ first :: behind) :
    ∃ behind', (closed tokens').drop position = moved ++ first :: behind' := by
  have htake : ((closed tokens').drop position).take (moved.length + 1) = moved ++ [first] := by
    apply List.ext_getElem?
    intro offset
    rw [List.getElem?_take]
    split
    · next hoffset =>
      have hsame := hagree (position + offset) (by omega) (by omega)
      have hlist : moved ++ first :: behind = (moved ++ [first]) ++ behind := by simp
      rw [List.getElem?_drop, hsame, ← List.getElem?_drop, hdrop, hlist,
        List.getElem?_append_left (by simpa using hoffset)]
    · next hoffset => exact (List.getElem?_eq_none (by simpa using hoffset)).symm
  obtain ⟨behind', hbehind⟩ := htake ▸ List.take_prefix (moved.length + 1) _
  exact ⟨behind', by rw [← hbehind]; simp⟩

end TokenStream

namespace Rule

variable {α : Type}

/-- A loop without a bound comes to an outcome in so many rounds: the step declines at the end, or it
fails. -/
inductive Rounds (step : α → Rule (Option α)) :
    ℕ → α → TokenStream → Except SyntaxError α × TokenStream → Prop where
  | stop {value stream rest} : (step value).runOn stream = (.ok none, rest) →
      Rounds step 0 value stream (.ok value, rest)
  | fail {value stream error rest} : (step value).runOn stream = (.error error, rest) →
      Rounds step 0 value stream (.error error, rest)
  | next {count value stream value' between outcome} :
      (step value).runOn stream = (.ok (some value'), between) →
      Rounds step count value' between outcome → Rounds step (count + 1) value stream outcome

variable {step : α → Rule (Option α)} {stream : TokenStream}

theorem Steady.rounds_repeatOver (hsteady : Steady step) (hends : stream.Ends) {tokens : List Token}
    (hlength : stream.upcoming.length ≤ tokens.length) (value : α) :
    ∃ count ≤ stream.upcoming.length,
      Rounds step count value stream ((repeatOver step tokens value).runOn stream) := by
  induction tokens generalizing value stream with
  | nil =>
    have hnil := List.length_eq_zero_iff.1 (Nat.le_zero.1 hlength)
    exact ⟨0, Nat.zero_le _, .stop (hsteady.stops hends hnil)⟩
  | cons token tokens ih =>
    rw [repeatOver, runOn_bind]
    rcases hrun : (step value).runOn stream with ⟨error | _ | value', between⟩
    · exact ⟨0, Nat.zero_le _, .fail hrun⟩
    · exact ⟨0, Nat.zero_le _, .stop hrun⟩
    · obtain ⟨first, moved, rfl⟩ := hsteady.consumes hrun hends
      simp only [TokenStream.upcoming_prepend, List.length_append, List.length_cons] at hlength ⊢
      have hbetween : between.Ends := hends
      obtain ⟨count, hcount, hrounds⟩ := ih hbetween (by omega) value'
      exact ⟨count + 1, by omega, .next hrun hrounds⟩

/-- The bound on its rounds is never what ends a repetition. -/
theorem Steady.rounds (hsteady : Steady step) (hends : stream.Ends) (value : α) :
    ∃ count ≤ stream.upcoming.length,
      Rounds step count value stream ((repeatWhile value step).runOn stream) :=
  hsteady.rounds_repeatOver hends le_rfl value

end Rule

namespace Grammar

open Rule

variable {dialect : Dialect} {expression : ExprRule} {opening : Token} {stream rest : TokenStream}

/-! ## Arguments -/

/-- One round of the loop over the arguments of a call, whose state tells whether the closing
parenthesis has been read. -/
def argumentRound (expression : ExprRule) (opening : Token) :
    ArgumentList × Bool → Rule (Option (ArgumentList × Bool))
  | (_, true) => pure none
  | (arguments, false) => do
    refuse endKinds (failAt opening .unbalancedParen)
    let arguments ← argument expression arguments
    let _ ← take? [.comma]
    let closing ← take? [.rightParen]
    return some (arguments, closing.isSome)

theorem argumentsFrom_cons (token : Token) (bound : List Token) (arguments : ArgumentList) :
    argumentsFrom expression opening (token :: bound) arguments =
      (do
        match ← argumentRound expression opening (arguments, false) with
        | some (arguments, false) => argumentsFrom expression opening bound arguments
        | some (arguments, true) => pure arguments
        | none => pure arguments) := by
  simp only [argumentsFrom, argumentRound, bind_assoc, pure_bind]
  refine bind_congr fun _ => bind_congr fun _ => bind_congr fun _ => bind_congr fun closing => ?_
  cases closing <;> rfl

theorem consumes_argumentRound (hexpr : Derives dialect .conditional expression)
    {arguments : ArgumentList} {result : Option (ArgumentList × Bool)}
    (hreads : Reads (argumentRound expression opening (arguments, false)) stream result rest)
    (hends : stream.Ends) :
    result.isSome ∧ ∃ token tokens, stream = rest.prepend (token :: tokens) := by
  obtain ⟨-, hround⟩ := hreads.refuse_bind not_reads_failAt
  obtain ⟨arguments', afterArgument, hargument, hseparator⟩ := reads_bind.1 hround
  obtain ⟨comma, afterComma, hcomma, hend⟩ := reads_bind.1 hseparator
  obtain ⟨closing, afterClosing, hclosing, hdone⟩ := reads_bind.1 hend
  obtain ⟨rfl, rfl⟩ := reads_pure.1 hdone
  obtain ⟨first, moved, rfl⟩ :=
    consumes_of_yields (argument_spelled hexpr arguments) (fun _ => rfl) hargument hends
  obtain ⟨commas, rfl⟩ := CarriesFrom.moves (carries_take? (by decide)) hcomma hends
  obtain ⟨parens, rfl⟩ := CarriesFrom.moves (carries_take? (by decide)) hclosing hends
  exact ⟨rfl, first, moved ++ (commas ++ parens), by simp⟩

/-- At the end of the stream the loop over the arguments fails as its last bound does. -/
theorem runOn_argumentRound_of_end (hends : stream.Ends) (hnil : stream.upcoming = [])
    (arguments : ArgumentList) :
    (argumentRound expression opening (arguments, false)).runOn stream =
      (.error (.ofToken .unbalancedParen opening), stream) := by
  have hkind : stream.current.kind ∈ endKinds := by
    rw [hends.current_kind hnil]
    decide
  rw [argumentRound, runOn_bind, runOn_refuse hkind]
  rfl

/-- Nor is the bound on the arguments ever what ends them: without one, the loop comes to the same
outcome. -/
theorem rounds_argumentsFrom (hexpr : Derives dialect .conditional expression)
    (hends : stream.Ends) {bound : List Token} (hlength : stream.upcoming.length ≤ bound.length)
    (arguments : ArgumentList) :
    ∃ count ≤ stream.upcoming.length, ∃ outcome,
      Rounds (argumentRound expression opening) count (arguments, false) stream outcome ∧
      (argumentsFrom expression opening bound arguments).runOn stream =
        (outcome.1.map Prod.fst, outcome.2) := by
  induction bound generalizing stream arguments with
  | nil =>
    have hnil := List.length_eq_zero_iff.1 (Nat.le_zero.1 hlength)
    exact ⟨0, Nat.zero_le _, _, .fail (runOn_argumentRound_of_end hends hnil arguments), rfl⟩
  | cons token bound ih =>
    rw [argumentsFrom_cons, runOn_bind]
    rcases hrun : (argumentRound expression opening (arguments, false)).runOn stream with
      ⟨error | result, between⟩
    · exact ⟨0, Nat.zero_le _, _, .fail hrun, rfl⟩
    · obtain ⟨hsome, first, moved, rfl⟩ := consumes_argumentRound hexpr hrun hends
      obtain ⟨⟨arguments', closed⟩, rfl⟩ := Option.isSome_iff_exists.1 hsome
      simp only [TokenStream.upcoming_prepend, List.length_append, List.length_cons] at hlength ⊢
      cases closed with
      | true => exact ⟨1, by omega, _, .next hrun (.stop rfl), rfl⟩
      | false =>
        have hbetween : between.Ends := hends
        obtain ⟨count, hcount, outcome, hrounds, hsame⟩ := ih hbetween (by omega) arguments'
        exact ⟨count + 1, by omega, outcome, .next hrun hrounds, hsame⟩

/-! ## Rules from a place on -/

variable {level : Level} {tokens tokens' : List Token} {value : Expr Token} {position : ℕ}

/-- A rule leaves off behind its place, at most at the next end token, and reads the same off every
list with the same tokens up to there. -/
theorem levelRule_local
    (hreads : Reads (levelRule dialect level) (.atPosition tokens position) value rest) :
    ∃ stop, position < stop ∧ stop < (TokenStream.closed tokens).length ∧
      rest = .atPosition tokens stop ∧
      (∀ index token, position ≤ index → (TokenStream.closed tokens)[index]? = some token →
        token.kind = .eof → stop ≤ index) ∧
      ∀ tokens', TokenStream.AgreeOn position stop tokens tokens' →
        Reads (levelRule dialect level) (.atPosition tokens' position) value
          (.atPosition tokens' stop) := by
  have hends : (TokenStream.atPosition tokens position).Ends := TokenStream.ofTokens_ends _
  obtain ⟨first, more, hmoved⟩ := consumes_levelRule level hreads hends
  obtain ⟨moved, hsplit, hcarries⟩ :=
    carries_levelRule (first :: more).length level hreads hends trivial
  obtain rfl := TokenStream.prepend_injective (hmoved.symm.trans hsplit)
  obtain ⟨next, behind, hdrop, hkinds, rfl⟩ := TokenStream.exists_drop_eq hsplit (by simp)
  refine ⟨position + (first :: more).length, by simp, ?_, ?_, ?_, fun tokens' hagree => ?_⟩
  · have hlength := congrArg List.length hdrop
    simp only [List.length_drop, List.length_append, List.length_cons] at hlength ⊢
    omega
  · exact (TokenStream.atPosition_add hdrop).symm
  · intro index token hindex htoken hkind
    exact TokenStream.add_length_le_of_eof hdrop hkinds hindex htoken hkind
  · obtain ⟨behind', hdrop'⟩ := hagree.drop_eq hdrop
    rw [TokenStream.atPosition_add hdrop', TokenStream.atPosition, TokenCursor.rest, hdrop',
      TokenStream.ofTokens_append hkinds (List.cons_ne_nil next behind')]
    refine hcarries le_rfl _ ?_
    rw [TokenStream.current_ofTokens_cons, TokenStream.current_ofTokens_cons]

/-- A rule of any level, from the conditional over logic and arithmetic down to the operand, that
succeeds from a place in a list of tokens leaves off behind it, at most at the next end token, and it
reads the same off every list that has the same tokens up to there, the one where it leaves off
included.  And every loop of the grammar, be it over operators, filters, postfix forms, items, pairs or
arguments without commas, comes to its outcome in no more rounds than there are tokens to come, with no
bound on them. -/
theorem progress_and_lookahead (dialect : Dialect) :
    (∀ level tokens position value rest,
      Reads (levelRule dialect level) (.atPosition tokens position) value rest →
      ∃ stop, position < stop ∧ stop < (TokenStream.closed tokens).length ∧
        rest = .atPosition tokens stop ∧
        (∀ index token, position ≤ index → (TokenStream.closed tokens)[index]? = some token →
          token.kind = .eof → stop ≤ index) ∧
        ∀ tokens', TokenStream.AgreeOn position stop tokens tokens' →
          Reads (levelRule dialect level) (.atPosition tokens' position) value
            (.atPosition tokens' stop)) ∧
    ∀ bound stream, stream.Ends →
      let expression := expressionOver dialect bound
      (∀ level step, stepAt? dialect expression level = some step →
        ∀ left, ∃ count ≤ stream.upcoming.length,
          Rounds step count left stream ((repeatWhile left step).runOn stream)) ∧
      (∀ closing found, ∃ count ≤ stream.upcoming.length,
        Rounds (nextItem expression closing) count found stream
          ((repeatWhile found (nextItem expression closing)).runOn stream)) ∧
      (∀ pairs, ∃ count ≤ stream.upcoming.length,
        Rounds (nextPair expression) count pairs stream
          ((repeatWhile pairs (nextPair expression)).runOn stream)) ∧
      ∀ opening arguments, ∃ count ≤ stream.upcoming.length, ∃ outcome,
        Rounds (argumentRound expression opening) count (arguments, false) stream outcome ∧
        (argumentsFrom expression opening stream.upcoming arguments).runOn stream =
          (outcome.1.map Prod.fst, outcome.2) := by
  refine ⟨fun _ _ _ _ _ => levelRule_local, fun bound stream hends => ?_⟩
  have hexpr := expressionOver_spelled dialect bound
  refine ⟨fun level step hstep left => ?_, fun closing found => ?_, fun pairs => ?_,
    fun opening arguments => ?_⟩
  · exact (steady_stepAt? hexpr hstep).rounds hends left
  · exact (steady_nextItem hexpr).rounds hends found
  · exact (steady_nextPair hexpr).rounds hends pairs
  · exact rounds_argumentsFrom hexpr hends le_rfl arguments

/-- A call without a comma in a list, and the same call between other tokens. -/
theorem progress_and_lookahead_call :
    let token (kind : Kind) (text : String) : Token := ⟨kind, text, ⟨0, 0, 1, 1⟩⟩
    let name := token .name "f"
    let opening := token .leftParen "("
    let arguments := [token .name "a", token .name "b", token .rightParen ")"]
    let call := name :: opening :: (arguments ++ [token .rightBracket "]"])
    let tokens := token .leftBracket "[" :: call
    let tokens' := token .comma "," :: (call ++ [token .dot "."])
    let value := Expr.call opening (.name name "f")
      [.name (token .name "a") "a", .name (token .name "b") "b"] []
    let expression := expressionOver .standard tokens
    Reads (levelRule .standard .operand) (.atPosition tokens 1) value (.atPosition tokens 6) ∧
    Reads (levelRule .standard .operand) (.atPosition tokens' 1) value (.atPosition tokens' 6) ∧
    (∃ count ≤ 5, Rounds (postfixForm? expression) count (.name name "f") (.atPosition tokens 2)
      ((repeatWhile (.name name "f") (postfixForm? expression)).runOn (.atPosition tokens 2))) ∧
    ∃ count ≤ 4, ∃ outcome,
      Rounds (argumentRound expression opening) count ({}, false) (.atPosition tokens 3) outcome ∧
      (argumentsFrom expression opening (arguments ++ [token .rightBracket "]"]) {}).runOn
        (.atPosition tokens 3) = (outcome.1.map Prod.fst, outcome.2) := by
  intro token name opening arguments call tokens tokens' value expression
  have hreads : Reads (levelRule .standard .operand) (.atPosition tokens 1) value
      (.atPosition tokens 6) := by
    dsimp only [tokens, call, arguments, value, name, opening, token]
    rfl
  obtain ⟨hrules, hloops⟩ := progress_and_lookahead .standard
  obtain ⟨stop, -, hstop, hrest, -, hlocal⟩ := hrules .operand tokens 1 value _ hreads
  obtain rfl : stop = 6 :=
    (by decide : ∀ stop < 8, TokenStream.atPosition tokens 6 = .atPosition tokens stop → stop = 6)
      stop hstop hrest
  have hagree : TokenStream.AgreeOn 1 6 tokens tokens' := by
    intro index hstart hindex
    interval_cases index <;> rfl
  obtain ⟨hsteps, -, -, -⟩ := hloops tokens (.atPosition tokens 2) rfl
  obtain ⟨-, -, -, harguments⟩ := hloops tokens (.atPosition tokens 3) rfl
  exact ⟨hreads, hlocal tokens' hagree, hsteps .subject _ rfl _, harguments opening {}⟩

end Grammar

end Stencil
