import Stencil.Grammar.Document
import Stencil.Proofs.Reading

/-!
# Cursors and streams

A cursor is a place in a list of tokens, which always has an end token.  Whatever is done with the
cursor, the place moves on token by token as far as the first end token, and never further.  The
stream of what is still to come follows it: each operation on the cursor is the rule of the grammar
that does the same to the stream.
-/

namespace Stencil

namespace TokenStream

/-! ## The list behind a stream -/

theorem exists_closed_eq (tokens : List Token) :
    ∃ before last, closed tokens = before ++ [last] ∧ last.kind = .eof := by
  unfold closed
  split
  · next hlast =>
    obtain ⟨last, hmem, hkind⟩ := (Option.any_eq_true _ _).1 hlast
    obtain ⟨before, rfl⟩ := List.getLast?_eq_some_iff.1 hmem
    exact ⟨before, last, rfl, by simpa using hkind⟩
  · exact ⟨tokens, _, rfl, kind_endAfter _⟩

/-- A second end token changes nothing, since no stream comes to it. -/
theorem ofTokens_closed (tokens : List Token) : ofTokens (closed tokens) = ofTokens tokens := by
  unfold closed
  split
  · rfl
  · cases hfind : tokens.find? fun token => token.kind == .eof with
    | some final =>
      obtain ⟨hfinal, before, behind, rfl, hbefore⟩ := List.find?_eq_some_iff_append.1 hfind
      have hkinds : ∀ token ∈ before, token.kind ≠ .eof := by simpa using hbefore
      have hkind : final.kind = .eof := by simpa using hfinal
      rw [List.append_assoc, List.cons_append, ofTokens_append_cons hkinds hkind,
        ofTokens_append_cons hkinds hkind]
    | none =>
      have hkinds : ∀ token ∈ tokens, token.kind ≠ .eof := by simpa using hfind
      have htaken : ∀ token ∈ tokens, (token.kind != .eof) = true := by simpa using hkinds
      rw [ofTokens_append_singleton hkinds (kind_endAfter _)]
      simp [ofTokens, hfind, List.takeWhile_eq_self_iff.2 htaken]

/-- The list has the tokens of the stream at its front, the end token right behind them. -/
theorem exists_closed_eq_append (tokens : List Token) :
    ∃ behind, closed tokens =
      (ofTokens tokens).upcoming ++ (ofTokens tokens).final :: behind := by
  obtain ⟨before, last, hclosed, hlast⟩ := exists_closed_eq tokens
  have hmem : last ∈ closed tokens := by simp [hclosed]
  obtain ⟨final, hfind⟩ := exists_find?_eof ⟨last, hmem, hlast⟩
  obtain ⟨hfinal, upcoming, behind, hsplit, hupcoming⟩ :=
    List.find?_eq_some_iff_append.1 hfind
  have hstream : ofTokens (closed tokens) = ⟨upcoming, final⟩ := by
    rw [hsplit]
    exact ofTokens_append_cons (by simpa using hupcoming) (by simpa using hfinal) behind
  rw [ofTokens_closed] at hstream
  exact ⟨behind, by rw [hstream, hsplit]⟩

/-! ## Moving on -/

section Moving

variable (stream : TokenStream) (count : ℕ)

/-- The stream after so many moves. -/
def advanceBy : TokenStream :=
  { stream with upcoming := stream.upcoming.drop count }

/-- The first so many tokens to come, with the end token in place of those that are missing. -/
def firsts : List Token :=
  stream.upcoming.take count ++ List.replicate (count - stream.upcoming.length) stream.final

theorem advanceBy_zero : stream.advanceBy 0 = stream := rfl

@[simp]
theorem upcoming_advanceBy : (stream.advanceBy count).upcoming = stream.upcoming.drop count := rfl

theorem firsts_zero : stream.firsts 0 = [] := by
  simp [firsts]

theorem advanceBy_succ : stream.advanceBy (count + 1) = stream.advance.advanceBy count := by
  simp [advanceBy, advance]

theorem firsts_succ :
    stream.firsts (count + 1) = stream.current :: stream.advance.firsts count := by
  rcases stream with ⟨_ | ⟨token, tokens⟩, final⟩
  · simp [firsts, current, advance, List.replicate_succ]
  · simp [firsts, current, advance]

end Moving

end TokenStream

namespace TokenCursor

/-! ## Operations -/

/-- What can be done with a cursor. -/
inductive Operation where
  | current
  | peek (kinds : List Kind)
  | peekName (words : List String)
  | take (kinds : List Kind)
  | takeName (words : List String)
  | pop
  | isAtEnd
  deriving DecidableEq, Repr

/-- What an operation returns: a token if it finds one, or whether the cursor is at its end. -/
inductive Answer where
  | found (token? : Option Token)
  | atEnd (isAtEnd : Bool)
  deriving DecidableEq, Repr

def Answer.token? : Answer → Option Token
  | found token? => token?
  | atEnd _ => none

namespace Operation

def perform : Operation → Action Answer
  | current => do return .found (some (← TokenCursor.current))
  | peek kinds => do return .found (← peek? kinds)
  | peekName words => do return .found (← peekName? words)
  | take kinds => do return .found (← take? kinds)
  | takeName words => do return .found (← takeName? words)
  | pop => do return .found (some (← TokenCursor.pop))
  | isAtEnd => do return .atEnd (← TokenCursor.isAtEnd)

/-- The rule that does to a stream what the operation does to a cursor. -/
def rule : Operation → Rule Answer
  | current => do return .found (some (← Rule.current))
  | peek kinds => do return .found (← Rule.peek? kinds)
  | peekName words => do return .found ((← get).peekName? words)
  | take kinds => do return .found (← Rule.take? kinds)
  | takeName words => do return .found (← Rule.takeName? words)
  | pop => do return .found (some (← Rule.pop))
  | isAtEnd => do return .atEnd (← get).isAtEnd

/-- Whether an operation moves past the token that it returns. -/
def moves : Operation → Bool
  | take _ | takeName _ | pop => true
  | current | peek _ | peekName _ | isAtEnd => false

/-- The operation that returns the same and moves past nothing. -/
def looking : Operation → Operation
  | take kinds => peek kinds
  | takeName words => peekName words
  | pop => current
  | operation => operation

/-- What an operation returns where a token is the current one. -/
def answer (token : Token) : Operation → Answer
  | current | pop => .found (some token)
  | peek kinds | take kinds => .found (if token.kind ∈ kinds then some token else none)
  | peekName words | takeName words => .found (if token.isName words then some token else none)
  | isAtEnd => .atEnd (token.kind == .eof)

/-- The tokens that the moving ones among some operations return. -/
def taken (operations : List Operation) (answers : List Answer) : List Token :=
  (operations.zip answers).filterMap fun (operation, answer) =>
    if operation.moves then answer.token? else none

variable {operation : Operation} {operations : List Operation} {token : Token}
variable {answer : Answer} {answers : List Answer}

/-- No operation returns any other token than the current one. -/
theorem token?_answer (operation : Operation) (token : Token) :
    (operation.answer token).token? = some token ∨ (operation.answer token).token? = none := by
  cases operation <;> grind [Operation.answer, Answer.token?]

@[simp]
theorem moves_looking (operation : Operation) : operation.looking.moves = false := by
  cases operation <;> rfl

@[simp]
theorem answer_looking (operation : Operation) (token : Token) :
    operation.looking.answer token = operation.answer token := by
  cases operation <;> rfl

theorem taken_cons_of_moves (hmoves : operation.moves) (hanswer : answer.token? = some token) :
    taken (operation :: operations) (answer :: answers) = token :: taken operations answers := by
  simp [taken, hmoves, hanswer]

theorem taken_cons_of_stays (hstays : operation.moves = false ∨ answer.token? = none) :
    taken (operation :: operations) (answer :: answers) = taken operations answers := by
  rcases hstays with hstays | hstays <;> simp [taken, hstays]

end Operation

/-! ## One operation -/

/-- The cursor behind a token at which it stands: an end token is never passed. -/
def past (cursor : TokenCursor) (token : Token) : TokenCursor :=
  if token.kind = .eof then cursor else { cursor with position := cursor.position + 1 }

section

variable {cursor : TokenCursor} {token : Token} (hcurrent : cursor.current? = some token)
include hcurrent

theorem run_current : current.run cursor = some (token, cursor) := by
  simp [current, hcurrent]

theorem run_peek? (kinds : List Kind) :
    (peek? kinds).run cursor = some (if token.kind ∈ kinds then some token else none, cursor) := by
  simp [peek?, run_current hcurrent]

theorem run_peekName? (words : List String) :
    (peekName? words).run cursor =
      some (if token.isName words then some token else none, cursor) := by
  simp [peekName?, run_current hcurrent]

theorem run_pop : pop.run cursor = some (token, cursor.past token) := by
  by_cases hkind : token.kind = .eof <;> simp [pop, past, run_current hcurrent, hkind]

theorem run_take? (kinds : List Kind) :
    (take? kinds).run cursor =
      if token.kind ∈ kinds then some (some token, cursor.past token)
      else some (none, cursor) := by
  by_cases hkind : token.kind ∈ kinds <;>
    simp [take?, run_peek? hcurrent, run_pop hcurrent, hkind]

theorem run_takeName? (words : List String) :
    (takeName? words).run cursor =
      if token.isName words then some (some token, cursor.past token)
      else some (none, cursor) := by
  by_cases hword : token.isName words <;>
    simp [takeName?, run_peekName? hcurrent, run_pop hcurrent, hword]

theorem run_isAtEnd : isAtEnd.run cursor = some (token.kind == .eof, cursor) := by
  simp [isAtEnd, run_current hcurrent]

/-- Every operation answers from the current token, and moves past it if it is a moving one that
returns the token. -/
theorem run_perform (operation : Operation) :
    operation.perform.run cursor = some (operation.answer token,
      if operation.moves ∧ (operation.answer token).token? ≠ none then cursor.past token
      else cursor) := by
  cases operation with
  | current => simp [Operation.perform, run_current hcurrent, Operation.answer, Operation.moves]
  | peek kinds => simp [Operation.perform, run_peek? hcurrent, Operation.answer, Operation.moves]
  | peekName words =>
    simp [Operation.perform, run_peekName? hcurrent, Operation.answer, Operation.moves]
  | take kinds =>
    by_cases hkind : token.kind ∈ kinds <;>
      simp [Operation.perform, run_take? hcurrent, Operation.answer, Operation.moves, hkind,
        Answer.token?]
  | takeName words =>
    by_cases hword : token.isName words <;>
      simp [Operation.perform, run_takeName? hcurrent, Operation.answer, Operation.moves, hword,
        Answer.token?]
  | pop =>
    simp [Operation.perform, run_pop hcurrent, Operation.answer, Operation.moves, Answer.token?]
  | isAtEnd =>
    simp [Operation.perform, run_isAtEnd hcurrent, Operation.answer, Operation.moves]

end

/-- The rule of an operation does to a stream what the operation does to a cursor. -/
theorem reads_rule (operation : Operation) (stream : TokenStream) (hends : stream.Ends)
    (hkinds : ∀ token ∈ stream.upcoming, token.kind ≠ .eof) :
    Rule.Reads operation.rule stream (operation.answer stream.current)
      (if operation.moves ∧ (operation.answer stream.current).token? ≠ none then stream.advance
        else stream) := by
  cases operation with
  | current => exact (Rule.reads_current.2 ⟨rfl, rfl⟩).bind (Rule.reads_pure.2 ⟨rfl, rfl⟩)
  | peek kinds => exact (Rule.reads_peek?.2 ⟨rfl, rfl⟩).bind (Rule.reads_pure.2 ⟨rfl, rfl⟩)
  | peekName words => exact (Rule.reads_get.2 ⟨rfl, rfl⟩).bind (Rule.reads_pure.2 ⟨rfl, rfl⟩)
  | take kinds =>
    refine (Rule.reads_take?.2 ?_).bind (Rule.reads_pure.2 ⟨rfl, rfl⟩)
    by_cases hkind : stream.current.kind ∈ kinds <;>
      simp [Operation.moves, Operation.answer, Answer.token?, hkind]
  | takeName words =>
    refine (Rule.reads_takeName?.2 ?_).bind (Rule.reads_pure.2 ⟨rfl, rfl⟩)
    by_cases hword : stream.current.isName words <;>
      simp [Operation.moves, Operation.answer, Answer.token?, hword]
  | pop => exact (Rule.reads_pop.2 ⟨rfl, rfl⟩).bind (Rule.reads_pure.2 ⟨rfl, rfl⟩)
  | isAtEnd =>
    have hend : stream.isAtEnd = (stream.current.kind == .eof) := by
      rcases stream with ⟨_ | ⟨token, tokens⟩, final⟩
      · have hfinal : final.kind = .eof := hends
        simp [TokenStream.isAtEnd, TokenStream.current, hfinal]
      · simpa [TokenStream.isAtEnd, TokenStream.current] using hkinds token List.mem_cons_self
    refine (Rule.reads_get.2 ⟨rfl, rfl⟩).bind (Rule.reads_pure.2 ⟨?_, rfl⟩)
    exact congrArg Answer.atEnd hend.symm

/-! ## The place and the stream -/

/-- The cursor stands before the first end token of its list or at it. -/
structure Stands (cursor : TokenCursor) (before : List Token) (final : Token)
    (behind : List Token) : Prop where
  tokens_eq : cursor.tokens = before ++ final :: behind
  before_kinds : ∀ token ∈ before, token.kind ≠ .eof
  final_kind : final.kind = .eof
  position_le : cursor.position ≤ before.length

namespace Stands

variable {cursor : TokenCursor} {before behind : List Token} {final : Token}
  (hstands : cursor.Stands before final behind)
include hstands

/-- What is still to come are the tokens from the place up to the first end token. -/
theorem rest_eq : cursor.rest = ⟨before.drop cursor.position, final⟩ := by
  have hkinds : ∀ token ∈ before.drop cursor.position, token.kind ≠ .eof := fun token hmem =>
    hstands.before_kinds token (List.mem_of_mem_drop hmem)
  rw [rest, hstands.tokens_eq, List.drop_append_of_le_length hstands.position_le]
  exact TokenStream.ofTokens_append_cons hkinds hstands.final_kind behind

/-- The place is one of the list, so the clamp changes nothing, and the token there is the current one
of the stream. -/
theorem getElem?_position : cursor.tokens[cursor.position]? = some cursor.rest.current := by
  rw [hstands.rest_eq, hstands.tokens_eq]
  rcases hstands.position_le.lt_or_eq with hlt | heq
  · rw [List.getElem?_append_left hlt]
    simp [TokenStream.current, hlt]
  · rw [List.getElem?_append_right heq.ge]
    simp [TokenStream.current, heq]

theorem current?_eq : cursor.current? = some cursor.rest.current := by
  have hlength : cursor.tokens.length = before.length + (behind.length + 1) := by
    simp [hstands.tokens_eq]
  have hposition : min cursor.position (cursor.tokens.length - 1) = cursor.position := by
    have hle := hstands.position_le
    omega
  rw [current?, hposition, hstands.getElem?_position]

/-- The current token is an end token exactly at the first one of the list. -/
theorem current_kind_iff :
    cursor.rest.current.kind = .eof ↔ cursor.position = before.length := by
  rw [hstands.rest_eq]
  constructor
  · intro hkind
    by_contra hne
    have hlt : cursor.position < before.length := lt_of_le_of_ne hstands.position_le hne
    have hcurrent : (TokenStream.mk (before.drop cursor.position) final).current =
        before[cursor.position] := by
      simp [TokenStream.current, hlt]
    rw [hcurrent] at hkind
    exact hstands.before_kinds _ (List.getElem_mem hlt) hkind
  · intro hposition
    simpa [TokenStream.current, hposition] using hstands.final_kind

/-- Behind a token before the end the cursor stands at the next one; at the end it stays. -/
theorem past : (cursor.past cursor.rest.current).Stands before final behind ∧
    (cursor.past cursor.rest.current).rest = cursor.rest.advance := by
  unfold TokenCursor.past
  split
  · next hkind =>
    have hposition := hstands.current_kind_iff.1 hkind
    refine ⟨hstands, ?_⟩
    rw [hstands.rest_eq, hposition, List.drop_length]
    rfl
  · next hkind =>
    have hne := mt hstands.current_kind_iff.2 hkind
    have hnext : Stands { cursor with position := cursor.position + 1 } before final behind :=
      { hstands with position_le := lt_of_le_of_ne hstands.position_le hne }
    refine ⟨hnext, ?_⟩
    rw [hnext.rest_eq, hstands.rest_eq, TokenStream.advance, List.tail_drop]

/-- At the first end token that is the current one, and a cursor that stands there is not moved. -/
theorem at_end (hposition : cursor.position = before.length) :
    cursor.rest.current = final ∧ cursor.past final = cursor := by
  refine ⟨?_, if_pos hstands.final_kind⟩
  rw [hstands.rest_eq, hposition, List.drop_length]
  rfl

/-- The place is as far from the start as the stream has moved on, but not beyond its end. -/
theorem position_eq {count : ℕ}
    (hadvance : cursor.rest = TokenStream.advanceBy ⟨before, final⟩ count) :
    cursor.position = min count before.length := by
  -- Both say how many tokens are still to come.
  have hupcoming : before.drop cursor.position = before.drop count :=
    congrArg TokenStream.upcoming (hstands.rest_eq.symm.trans hadvance)
  have hlength := congrArg List.length hupcoming
  rw [List.length_drop, List.length_drop] at hlength
  have hle := hstands.position_le
  omega

/-- Looking for what a moving operation would return gives the same answer and moves nothing. -/
theorem run_looking (operation : Operation) :
    operation.looking.perform.run cursor =
      some (operation.answer cursor.rest.current, cursor) := by
  rw [run_perform hstands.current?_eq, Operation.answer_looking, Operation.moves_looking, if_neg]
  simp

/-- An operation has a result, which is that of its rule on the stream.  It moves past the current
token and returns it, or leaves the cursor alone. -/
theorem perform (operation : Operation) :
    ∃ next, operation.perform.run cursor = some (operation.answer cursor.rest.current, next) ∧
      next.Stands before final behind ∧
      Rule.Reads operation.rule cursor.rest (operation.answer cursor.rest.current) next.rest ∧
      (operation.moves ∧ (operation.answer cursor.rest.current).token? =
          some cursor.rest.current ∧ next.rest = cursor.rest.advance ∨
        (operation.moves = false ∨ (operation.answer cursor.rest.current).token? = none) ∧
          next = cursor) := by
  have hrun := run_perform hstands.current?_eq operation
  have hreads := reads_rule operation cursor.rest (TokenStream.ofTokens_ends _)
    fun _ hmem => TokenStream.kind_ne_eof_of_mem_ofTokens hmem
  obtain ⟨hpast, hadvance⟩ := hstands.past
  by_cases hmoves : operation.moves ∧ (operation.answer cursor.rest.current).token? ≠ none
  · rw [if_pos hmoves] at hrun hreads
    have htoken := (operation.token?_answer cursor.rest.current).resolve_right hmoves.2
    exact ⟨_, hrun, hpast, hadvance ▸ hreads, .inl ⟨hmoves.1, htoken, hadvance⟩⟩
  · rw [if_neg hmoves] at hrun hreads
    refine ⟨cursor, hrun, hstands, hreads, .inr ⟨?_, rfl⟩⟩
    rw [← Bool.not_eq_true]
    tauto

/-- One operation after the other, the cursor and the stream move past as many tokens as are
returned. -/
theorem run (operations : List Operation) :
    ∃ answers next, (operations.mapM Operation.perform).run cursor = some (answers, next) ∧
      next.Stands before final behind ∧
      Rule.Reads (operations.mapM Operation.rule) cursor.rest answers next.rest ∧
      let count := (Operation.taken operations answers).length
      next.rest = cursor.rest.advanceBy count ∧
        Operation.taken operations answers = cursor.rest.firsts count := by
  induction operations generalizing cursor with
  | nil =>
    exact ⟨[], cursor, rfl, hstands, Rule.reads_pure.2 ⟨rfl, rfl⟩,
      cursor.rest.advanceBy_zero.symm, cursor.rest.firsts_zero.symm⟩
  | cons operation operations ih =>
    obtain ⟨between, hrun, hbetween, hreads, hmoved⟩ := hstands.perform operation
    obtain ⟨answers, next, hruns, hnext, hrest, hadvance, htaken⟩ := ih hbetween
    refine ⟨operation.answer cursor.rest.current :: answers, next, ?_, hnext, ?_, ?_⟩
    · simp [List.mapM_cons, hrun, hruns]
    · rw [List.mapM_cons]
      exact hreads.bind (hrest.bind (Rule.reads_pure.2 ⟨rfl, rfl⟩))
    -- The token that is returned first is counted just if the first operation has moved past it.
    · rcases hmoved with ⟨hmoves, htoken, hmoved⟩ | ⟨hstays, rfl⟩
      · rw [Operation.taken_cons_of_moves hmoves htoken, List.length_cons]
        rw [hmoved] at hadvance htaken
        exact ⟨hadvance.trans (TokenStream.advanceBy_succ _ _).symm, by
          rw [TokenStream.firsts_succ, ← htaken]⟩
      · rw [Operation.taken_cons_of_stays hstays]
        exact ⟨hadvance, htaken⟩

end Stands

/-- What a cursor over a list has still to come at its start is the stream over the list. -/
theorem rest_ofTokens (tokens : List Token) :
    (ofTokens tokens).rest = TokenStream.ofTokens tokens :=
  TokenStream.ofTokens_closed tokens

/-- A cursor over a list starts at its first token, and the stream to come is the one over the
list. -/
theorem stands_ofTokens (tokens : List Token) :
    ∃ behind, (ofTokens tokens).Stands (tokens.takeWhile fun token => token.kind != .eof)
        (TokenStream.ofTokens tokens).final behind ∧
      (ofTokens tokens).rest = TokenStream.ofTokens tokens := by
  obtain ⟨behind, hclosed⟩ := TokenStream.exists_closed_eq_append tokens
  exact ⟨behind, ⟨hclosed, fun _ hmem => TokenStream.kind_ne_eof_of_mem_ofTokens hmem,
    TokenStream.ofTokens_ends tokens, Nat.zero_le _⟩, rest_ofTokens tokens⟩

/-- However many operations are performed on a cursor over a list of tokens, in whatever order, each
of them has a result, and the stream to come has followed them by their rules.  What the moving ones
return are the tokens before the first end token, each of them once and in order, and from then on
that end token, which `pop` and a match of its kind return without moving.  The place is behind the
tokens that were returned and never beyond the first end token, so it is one of the list, and the
token there is the current one.  The cursor is at its end when none is left.  An operation that does
not move or that returns nothing leaves the cursor alone, and a moving one returns just what it
would by looking. -/
theorem stream_is_faithful_cursor (tokens : List Token) :
    let before := tokens.takeWhile fun token => token.kind != .eof
    ∃ final behind, (ofTokens tokens).tokens = before ++ final :: behind ∧ final.kind = .eof ∧
      ∀ operations : List Operation, ∃ answers cursor,
        (operations.mapM Operation.perform).run (ofTokens tokens) = some (answers, cursor) ∧
        Rule.Reads (operations.mapM Operation.rule) (.ofTokens tokens) answers cursor.rest ∧
        let returned := Operation.taken operations answers
        let count := returned.length
        returned = before.take count ++ List.replicate (count - before.length) final ∧
        cursor.tokens = (ofTokens tokens).tokens ∧ cursor.position = min count before.length ∧
        (∃ token, cursor.tokens[cursor.position]? = some token ∧
          current.run cursor = some (token, cursor)) ∧
        isAtEnd.run cursor = some (decide (before.length ≤ count), cursor) ∧
        (before.length ≤ count → pop.run cursor = some (final, cursor) ∧
          ∀ kinds, .eof ∈ kinds → (take? kinds).run cursor = some (some final, cursor)) ∧
        ∀ operation : Operation, ∃ answer next,
          operation.perform.run cursor = some (answer, next) ∧
          operation.looking.perform.run cursor = some (answer, cursor) ∧
          (operation.moves = false ∨ answer.token? = none → next = cursor) := by
  intro before
  obtain ⟨behind, hstands, hrest⟩ := stands_ofTokens tokens
  refine ⟨_, behind, hstands.tokens_eq, hstands.final_kind, fun operations => ?_⟩
  obtain ⟨answers, cursor, hrun, hcursor, hreads, hadvance, htaken⟩ := hstands.run operations
  rw [hrest] at hreads hadvance htaken
  have hposition : cursor.position =
      min (Operation.taken operations answers).length before.length :=
    hcursor.position_eq hadvance
  have hend : before.length ≤ (Operation.taken operations answers).length ↔
      cursor.position = before.length := by omega
  refine ⟨answers, cursor, hrun, hreads, htaken, hcursor.tokens_eq.trans hstands.tokens_eq.symm,
    hposition, ⟨_, hcursor.getElem?_position, run_current hcursor.current?_eq⟩, ?_,
    fun hcount => ?_, fun operation => ?_⟩
  · rw [run_isAtEnd hcursor.current?_eq, beq_eq_decide]
    simp only [hcursor.current_kind_iff, hend]
    rfl
  · obtain ⟨hfinal, hpast⟩ := hcursor.at_end (hend.1 hcount)
    have hcurrent := hfinal ▸ hcursor.current?_eq
    refine ⟨?_, fun kinds heof => ?_⟩
    · rw [run_pop hcurrent, hpast]
    · rw [run_take? hcurrent, if_pos (hcursor.final_kind ▸ heof), hpast]
  · obtain ⟨next, hperform, -, -, hmoved⟩ := hcursor.perform operation
    refine ⟨_, next, hperform, hcursor.run_looking operation, fun hstays => ?_⟩
    rcases hmoved with ⟨hmoves, htoken, -⟩ | ⟨-, hnext⟩
    · simp [hmoves, htoken] at hstays
    · exact hnext

/-- An end token in the middle is not passed, so what stands behind it is never read. -/
example :
    let token (kind : Kind) (text : String) : Token := ⟨kind, text, ⟨0, 0, 1, 1⟩⟩
    let operations : List Operation := [.take [.add], .pop, .pop, .takeName ["b"], .isAtEnd]
    let tokens := [token .name "a", token .eof "", token .name "b"]
    (operations.mapM Operation.perform).run (ofTokens tokens) =
      some ([.found none, .found (some (token .name "a")), .found (some (token .eof "")),
        .found none, .atEnd true], ⟨tokens ++ [token .eof ""], 1⟩) := by
  rfl

end TokenCursor

/-- A list of tokens is read by a rule as the stream over the list is. -/
theorem parseTokens_eq {α : Type} (rule : Rule α) (tokens : List Token) :
    parseTokens rule tokens = (rule.runOn (.ofTokens tokens)).1 := by
  rw [parseTokens, TokenCursor.rest_ofTokens]

theorem parseTokens_of_reads {α : Type} {rule : Rule α} {tokens : List Token} {value : α}
    {rest : TokenStream} (hreads : Rule.Reads rule (.ofTokens tokens) value rest) :
    parseTokens rule tokens = .ok value :=
  (parseTokens_eq rule tokens).trans (congrArg Prod.fst hreads)

end Stencil
