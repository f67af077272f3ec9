import Stencil.Grammar.Logic
import Stencil.Proofs.Reading
import Stencil.Proofs.Spelling

/-!
# Operands are spelled

The rules from the literals up to the operand move past spellings of the trees that they yield, if
the rule for the nested expressions does.
-/

namespace Stencil.Grammar

open Rule

/-- The rule moves past spellings of its trees at the level. -/
abbrev Derives (dialect : Dialect) (level : Level) (rule : ExprRule) : Prop :=
  Yields rule fun value => Spells .optional dialect (.expr level value)

variable {dialect : Dialect} {expression : ExprRule} {stream rest : TokenStream}
variable {value : Expr Token}

section Literals

/-- What the rule for numbers reads is one token that spells the number. -/
theorem number_spelled (hreads : Reads number stream value rest) (hends : stream.Ends)
    (hkind : stream.current.kind ∈ [Kind.integer, .float]) :
    ∃ tokens, stream = rest.prepend tokens ∧
      Spells .optional dialect (.expr .subject value) tokens := by
  obtain ⟨between, hstream, hnext⟩ := hreads.pop_bind hends (by grind)
  split at hnext
  · next hinteger =>
    split at hnext
    · next number hnumber =>
      obtain ⟨rfl, rfl⟩ := reads_pure.1 hnext
      exact ⟨_, hstream, .integer hinteger hnumber⟩
    · exact absurd hnext not_reads_failAt
  · next hinteger =>
    split at hnext
    · next number hnumber =>
      split at hnext
      · next hfinite =>
        obtain ⟨rfl, rfl⟩ := reads_pure.1 hnext
        exact ⟨_, hstream, .float (by simpa [hinteger] using hkind) hnumber hfinite⟩
      · exact absurd hnext not_reads_failAt
    · exact absurd hnext not_reads_failAt

theorem string_spelled (hreads : Reads string stream value rest) (hends : stream.Ends)
    (hkind : stream.current.kind = .string) :
    ∃ tokens, stream = rest.prepend tokens ∧
      Spells .optional dialect (.expr .subject value) tokens := by
  obtain ⟨between, hstream, hnext⟩ := hreads.pop_bind hends (by simp [hkind])
  obtain ⟨rfl, rfl⟩ := reads_pure.1 hnext
  exact ⟨_, hstream, .string hkind⟩

end Literals

/-! ## Loops and markers -/

/-- A step that makes a longer spelling out of a spelling whenever it goes on, and otherwise leaves
the stream alone. -/
structure Lengthens (dialect : Dialect) (level : Level)
    (step : Expr Token → Rule (Option (Expr Token))) : Prop where
  lengthens : ∀ {value result stream rest}, Reads (step value) stream (some result) rest →
    stream.Ends → ∃ token tokens, stream = rest.prepend (token :: tokens) ∧
      ∀ {before}, Spells .optional dialect (.expr level value) before →
        Spells .optional dialect (.expr level result) (before ++ token :: tokens)
  declines : ∀ {value stream rest}, Reads (step value) stream none rest → stream.Ends →
    rest = stream
  stops : ∀ {value stream}, stream.Ends → stream.upcoming = [] →
    Reads (step value) stream none stream

section Loops

variable {level : Level} {step : Expr Token → Rule (Option (Expr Token))}
variable {start : Expr Token} {before : List Token}

/-- A step that lengthens moves past a token whenever it goes on. -/
theorem Lengthens.steady (hstep : Lengthens dialect level step) : Steady step where
  consumes hreads hends := by
    obtain ⟨token, tokens, hstream, -⟩ := hstep.lengthens hreads hends
    exact ⟨token, tokens, hstream⟩
  declines := hstep.declines
  stops := hstep.stops

/-- A loop over such a step ends with a spelling of its result, and the step declines behind it. -/
theorem Lengthens.repeat_spelled (hstep : Lengthens dialect level step)
    (hreads : Reads (repeatWhile start step) stream value rest) (hends : stream.Ends)
    (hstart : Spells .optional dialect (.expr level start) before) :
    ∃ tokens, stream = rest.prepend tokens ∧
      Spells .optional dialect (.expr level value) (before ++ tokens) ∧
      Reads (step value) rest none rest := by
  have hrepeats := hstep.steady.repeats hreads hends
  refine hrepeats.invariant
    (fun value before _ => Spells .optional dialect (.expr level value) before)
    hends hstart ?_
  intro value value' before stream stream' hreads hends hspelled
  obtain ⟨token, tokens, hstream, hlonger⟩ := hstep.lengthens hreads hends
  exact ⟨token :: tokens, hstream, hlonger hspelled⟩

/-- The body of a step makes a longer spelling out of a spelling and the token it starts from. -/
abbrev LengthensFrom (dialect : Dialect) (level : Level) (kinds : List Kind)
    (body : Expr Token → Token → Rule (Option (Expr Token))) : Prop :=
  ∀ value token, token.kind ∈ kinds →
    Yields (body value token) fun found tokens => ∃ result, found = some result ∧
      ∀ {before}, Spells .optional dialect (.expr level value) before →
        Spells .optional dialect (.expr level result) (before ++ token :: tokens)

variable {kinds : List Kind} {body : Expr Token → Token → Rule (Option (Expr Token))}

theorem LengthensFrom.isSome (hbody : LengthensFrom dialect level kinds body) (value : Expr Token)
    (token : Token) (hkind : token.kind ∈ kinds) :
    Yields (body value token) fun found _ => found.isSome := by
  intro stream found rest hreads hends
  obtain ⟨tokens, hstream, result, rfl, -⟩ := hbody value token hkind hreads hends
  exact ⟨tokens, hstream, rfl⟩

/-- A step that begins with a token of some kinds and declines at all others. -/
theorem lengthens_of_take? (kinds : List Kind) (hbody : LengthensFrom dialect level kinds body)
    (hstep : ∀ value, step value = take? kinds >>= fun
      | none => pure none
      | some token => body value token)
    (heof : Kind.eof ∉ kinds) : Lengthens dialect level step where
  lengthens := by
    intro value result stream rest hreads hends
    rw [hstep] at hreads
    rcases hreads.take?_bind hends heof with ⟨token, between, hkind, rfl, hgoes⟩ | ⟨-, hdeclines⟩
    · obtain ⟨tokens, rfl, _, hsome, hlonger⟩ := hbody value token hkind hgoes hends
      cases hsome
      exact ⟨token, tokens, by simp, hlonger⟩
    · cases (reads_pure.1 hdeclines).1
  declines := (steady_of_take? kinds hstep heof (hbody.isSome)).declines
  stops := (steady_of_take? kinds hstep heof (hbody.isSome)).stops

end Loops

/-- A comma that may be taken is in the spelling exactly if it is there. -/
theorem optionalComma_spelled {α : Type} {next : Rule α} {value : α}
    (hreads : Reads (take? [.comma] >>= fun _ => next) stream value rest) (hends : stream.Ends) :
    ∃ comma between, OptionalComma comma ∧ stream = between.prepend comma ∧
      Reads next between value rest := by
  rcases hreads.take?_bind hends (by decide) with ⟨token, between, hkind, rfl, hnext⟩ | ⟨-, hnext⟩
  · exact ⟨[token], between, .comma (by simpa using hkind), rfl, hnext⟩
  · exact ⟨[], stream, .none, rfl, hnext⟩

/-! ## Brackets -/

section Brackets

variable (hexpr : Derives dialect .conditional expression)
include hexpr

theorem steady_nextItem {closing : Kind} : Steady (nextItem expression closing) := by
  refine steady_of_take? [.comma] (fun _ => rfl) (by decide) ?_
  rintro ⟨values, trailing⟩ comma - stream result rest hreads hends
  have hnext := hreads.sees_bind
  split at hnext
  · obtain ⟨rfl, rfl⟩ := reads_pure.1 hnext
    exact ⟨[], rfl, rfl⟩
  · obtain ⟨item, tokens, between, hitem, rfl, hdone⟩ := hexpr.bind hnext hends
    obtain ⟨rfl, rfl⟩ := reads_pure.1 hdone
    exact ⟨tokens, rfl, rfl⟩

/-- What holds of the items read so far: the last comma is no separator if the closing bracket
comes next. -/
def ItemsRead (dialect : Dialect) (closing : Kind) :
    List (Expr Token) × Bool → List Token → TokenStream → Prop
  | (values, false), tokens, _ => Spells .optional dialect (.items values) tokens
  | (values, true), tokens, stream =>
    stream.current.kind = closing ∧ ∃ before comma, tokens = before ++ [comma] ∧
      comma.kind = .comma ∧ Spells .optional dialect (.items values) before

/-- A comma behind the items has an item behind it, or is the last one. -/
theorem nextItem_spelled {closing : Kind} (hclosing : closing ≠ .comma)
    {found found' : List (Expr Token) × Bool} {before : List Token}
    (hreads : Reads (nextItem expression closing found) stream (some found') rest)
    (hends : stream.Ends) (hread : ItemsRead dialect closing found before stream) :
    ∃ tokens, stream = rest.prepend tokens ∧
      ItemsRead dialect closing found' (before ++ tokens) rest := by
  obtain ⟨values, trailing⟩ := found
  rcases hreads.take?_bind hends (by decide) with ⟨comma, between, hcomma, rfl, hnext⟩ | ⟨-, hnext⟩
  · cases trailing with
    | true =>
      -- The closing bracket comes next, so there is no comma.
      obtain ⟨hkind, -⟩ := hread
      simp only [TokenStream.current_prepend_cons] at hkind
      simp [hkind, hclosing] at hcomma
    | false =>
      have hcomma : comma.kind = .comma := by simpa using hcomma
      have hnext := hnext.sees_bind
      split at hnext
      · next hkind =>
        obtain ⟨hsame, rfl⟩ := reads_pure.1 hnext
        cases hsame
        exact ⟨[comma], rfl, by simpa using hkind, before, comma, rfl, hcomma, hread⟩
      · obtain ⟨item, tokens, between, hitem, rfl, hdone⟩ := hexpr.bind hnext hends
        obtain ⟨hsame, rfl⟩ := reads_pure.1 hdone
        cases hsame
        exact ⟨comma :: tokens, by simp, .moreItems hcomma hread hitem⟩
  · cases (reads_pure.1 hnext).1

/-- The items are spelled with a comma behind the last one exactly if one was read. -/
theorem items_spelled {closing : Kind} (hclosing : closing ≠ .comma) :
    Yields (items expression closing) fun (values, trailing) tokens =>
      ∃ before comma, tokens = before ++ comma ∧ OptionalComma comma ∧
        (trailing = false ↔ comma = []) ∧ Spells .optional dialect (.items values) before := by
  intro stream found rest hreads hends
  obtain ⟨first, tokens, between, hfirst, rfl, hloop⟩ := hexpr.bind hreads hends
  have hloop := (steady_nextItem hexpr).repeats hloop hends
  obtain ⟨more, rfl, hresult, -⟩ := hloop.invariant (ItemsRead dialect closing) hends
    (show ItemsRead dialect closing ([first], false) tokens between from .oneItem hfirst)
    fun _ _ _ _ _ hreads => nextItem_spelled hexpr hclosing hreads
  refine ⟨tokens ++ more, by simp, ?_⟩
  obtain ⟨values, _ | _⟩ := found
  · exact ⟨tokens ++ more, [], by simp, .none, by simp, hresult⟩
  · obtain ⟨-, before, comma, htokens, hcomma, hvalues⟩ := hresult
    exact ⟨before, [comma], htokens, .comma hcomma, by simp, hvalues⟩

/-- The brackets of a list belong to its spelling. -/
theorem list_spelled (hreads : Reads (list expression) stream value rest) (hends : stream.Ends)
    (hkind : stream.current.kind = .leftBracket) :
    ∃ tokens, stream = rest.prepend tokens ∧
      Spells .optional dialect (.expr .subject value) tokens := by
  obtain ⟨between, hstream, hnext⟩ := hreads.pop_bind hends (by simp [hkind])
  generalize stream.current = opening at hstream hnext hkind
  subst hstream
  rcases hnext.take?_bind hends (by decide) with ⟨closing, between, hclosing, rfl, hdone⟩ |
    ⟨-, hnext⟩
  · obtain ⟨rfl, rfl⟩ := reads_pure.1 hdone
    exact ⟨[opening, closing], by simp, .emptyList hkind (by simpa using hclosing)⟩
  · obtain ⟨⟨values, trailing⟩, tokens, between, hitems, rfl, hclosed⟩ :=
      (items_spelled hexpr (by decide)).bind hnext hends
    obtain ⟨before, comma, rfl, hcomma, -, hvalues⟩ := hitems
    obtain ⟨closing, between, hclosing, rfl, hdone⟩ :=
      hclosed.expect_bind hends not_reads_failHere (by decide)
    obtain ⟨rfl, rfl⟩ := reads_pure.1 hdone
    exact ⟨opening :: (before ++ (comma ++ [closing])), by simp,
      .list hkind hclosing hcomma hvalues⟩

/-- A group spells its item in parentheses; a tuple of one item needs its comma. -/
theorem group_spelled (hreads : Reads (group expression) stream value rest) (hends : stream.Ends)
    (hkind : stream.current.kind = .leftParen) :
    ∃ tokens, stream = rest.prepend tokens ∧
      Spells .optional dialect (.expr .subject value) tokens := by
  obtain ⟨between, hstream, hnext⟩ := hreads.pop_bind hends (by simp [hkind])
  generalize stream.current = opening at hstream hnext hkind
  subst hstream
  rcases hnext.take?_bind hends (by decide) with ⟨closing, between, hclosing, rfl, hdone⟩ |
    ⟨-, hnext⟩
  · obtain ⟨rfl, rfl⟩ := reads_pure.1 hdone
    exact ⟨[opening, closing], by simp, .emptyTuple hkind (by simpa using hclosing)⟩
  · obtain ⟨⟨values, trailing⟩, tokens, between, hitems, rfl, hclosed⟩ :=
      (items_spelled hexpr (by decide)).bind hnext hends
    obtain ⟨before, comma, rfl, hcomma, htrailing, hvalues⟩ := hitems
    obtain ⟨closing, between, hclosing, rfl, hdone⟩ :=
      hclosed.expect_bind hends not_reads_failAt (by decide)
    refine ⟨opening :: (before ++ (comma ++ [closing])), ?_⟩
    split at hdone
    · next item =>
      obtain ⟨rfl, rfl⟩ := reads_pure.1 hdone
      obtain rfl := htrailing.1 rfl
      exact ⟨by simp, by simpa using .group hkind hclosing hvalues.expr_of_items_singleton⟩
    · next hgroup =>
      obtain ⟨rfl, rfl⟩ := reads_pure.1 hdone
      refine ⟨by simp, .tuple hkind hclosing hcomma ?_ hvalues⟩
      intro hlength hnil
      obtain ⟨item, rfl⟩ := List.length_eq_one_iff.1 hlength
      exact hgroup item rfl (htrailing.2 hnil)

theorem pair_spelled :
    Yields (pair expression) fun found => Spells .optional dialect (.pair found) := by
  intro stream found rest hreads hends
  obtain ⟨key, tokens, between, hkey, rfl, hnext⟩ := hexpr.bind hreads hends
  obtain ⟨colon, between, hcolon, rfl, hafter⟩ :=
    hnext.expect_bind hends not_reads_failHere (by decide)
  obtain ⟨entry, more, between, hvalue, rfl, hdone⟩ := hexpr.bind hafter hends
  obtain ⟨rfl, rfl⟩ := reads_pure.1 hdone
  exact ⟨tokens ++ colon :: more, by simp, .pair hcolon hkey hvalue⟩

theorem steady_nextPair : Steady (nextPair expression) := by
  refine steady_of_take? [.comma] (fun _ => rfl) (by decide) ?_
  intro pairs comma _ stream result rest hreads hends
  have hnext := hreads.sees_bind
  split at hnext
  · obtain ⟨rfl, rfl⟩ := reads_pure.1 hnext
    exact ⟨[], rfl, rfl⟩
  · obtain ⟨pair, tokens, between, -, rfl, hdone⟩ := (pair_spelled hexpr).bind hnext hends
    obtain ⟨rfl, rfl⟩ := reads_pure.1 hdone
    exact ⟨tokens, rfl, rfl⟩

/-- What holds of the pairs read so far: a comma that is no separator stands before the closing
brace. -/
def PairsRead (dialect : Dialect) (pairs : List (Expr Token × Expr Token)) (tokens : List Token)
    (stream : TokenStream) : Prop :=
  (tokens = [] ∧ pairs = [] ∧ stream.current.kind = .rightBrace) ∨
    ∃ before comma, tokens = before ++ comma ∧ OptionalComma comma ∧
      (comma ≠ [] → stream.current.kind = .rightBrace) ∧
      Spells .optional dialect (.pairs pairs) before

theorem nextPair_spelled {pairs pairs' : List (Expr Token × Expr Token)} {before : List Token}
    (hreads : Reads (nextPair expression pairs) stream (some pairs') rest)
    (hends : stream.Ends) (hread : PairsRead dialect pairs before stream) :
    ∃ tokens, stream = rest.prepend tokens ∧ PairsRead dialect pairs' (before ++ tokens) rest := by
  rcases hreads.take?_bind hends (by decide) with ⟨comma, between, hcomma, rfl, hnext⟩ | ⟨-, hnext⟩
  · have hcomma : comma.kind = .comma := by simpa using hcomma
    have hbrace : comma.kind ≠ .rightBrace := by simp [hcomma]
    obtain ⟨-, -, hkind⟩ | ⟨before, separator, rfl, -, hseparator, hpairs⟩ := hread
    · exact absurd hkind hbrace
    · obtain rfl : separator = [] := by
        by_contra hne
        exact hbrace (hseparator hne)
      have hnext := hnext.sees_bind
      split at hnext
      · next hkind =>
        obtain ⟨hsame, rfl⟩ := reads_pure.1 hnext
        cases hsame
        exact ⟨[comma], rfl, .inr ⟨before, [comma], by simp, .comma hcomma,
          fun _ => by simpa using hkind, hpairs⟩⟩
      · obtain ⟨pair, tokens, between, hpair, rfl, hdone⟩ := (pair_spelled hexpr).bind hnext hends
        obtain ⟨hsame, rfl⟩ := reads_pure.1 hdone
        cases hsame
        exact ⟨comma :: tokens, by simp, .inr ⟨before ++ comma :: tokens, [], by simp, .none,
          by simp, .morePairs hcomma hpairs hpair⟩⟩
  · cases (reads_pure.1 hnext).1

theorem dict_spelled (hreads : Reads (dict expression) stream value rest) (hends : stream.Ends)
    (hkind : stream.current.kind = .leftBrace) :
    ∃ tokens, stream = rest.prepend tokens ∧
      Spells .optional dialect (.expr .subject value) tokens := by
  obtain ⟨between, hstream, hnext⟩ := hreads.pop_bind hends (by simp [hkind])
  generalize stream.current = opening at hstream hnext hkind
  subst hstream
  have hfirst : ∃ first tokens after, PairsRead dialect first tokens after ∧
      between = after.prepend tokens ∧ Reads (do
        let pairs ← repeatWhile first (nextPair expression)
        expect .rightBrace (failHere fun _ => .missingBrace)
        return .dict opening pairs) after value rest := by
    have hnext := hnext.sees_bind
    split at hnext
    · next hbrace =>
      exact ⟨[], [], between, .inl ⟨rfl, rfl, by simpa using hbrace⟩, rfl, hnext⟩
    · obtain ⟨pair, tokens, after, hpair, rfl, hrest⟩ := (pair_spelled hexpr).bind hnext hends
      exact ⟨[pair], tokens, after, .inr ⟨tokens, [], by simp, .none, by simp, .onePair hpair⟩, rfl,
        hrest⟩
  clear hnext
  obtain ⟨first, tokens, between, hfirst, rfl, hnext⟩ := hfirst
  obtain ⟨pairs, after, hloop, hclosed⟩ := reads_bind.1 hnext
  have hloop := (steady_nextPair hexpr).repeats hloop hends
  obtain ⟨more, rfl, hresult, -⟩ := hloop.invariant (PairsRead dialect) hends hfirst
    fun _ _ _ _ _ hreads => nextPair_spelled hexpr hreads
  obtain ⟨closing, between, hclosing, rfl, hdone⟩ :=
    hclosed.expect_bind hends not_reads_failHere (by decide)
  obtain ⟨rfl, rfl⟩ := reads_pure.1 hdone
  refine ⟨opening :: (tokens ++ (more ++ [closing])), by simp, ?_⟩
  rw [← List.append_assoc]
  obtain ⟨hnil, rfl, -⟩ | ⟨before, comma, htokens, hcomma, -, hpairs⟩ := hresult
  · simpa [hnil] using .emptyDict hkind hclosing
  · rw [htokens, List.append_assoc]
    exact .dict hkind hclosing hcomma hpairs

/-! ## Arguments and postfix forms -/

/-- A keyword is spelled with its equals sign, and it is a new one. -/
theorem argument_spelled (before : ArgumentList) :
    Yields (argument expression before) fun after =>
      Spells .optional dialect (.argument before after) := by
  intro stream after rest hreads hends
  obtain ⟨value, tokens, between, hvalue, rfl, hnext⟩ := hexpr.bind hreads hends
  rcases hnext.take?_bind hends (by decide) with ⟨assign, between, hassign, rfl, hnamed⟩ |
    ⟨-, hdone⟩
  · have hassign : assign.kind = .assign := by simpa using hassign
    dsimp only at hnamed
    split at hnamed
    · next token key =>
      split at hnamed
      · exact absurd hnamed not_reads_failAt
      · next hfresh =>
        have hfresh : key ∉ before.named.map Prod.fst := by
          simpa [List.mem_map] using hfresh
        obtain ⟨value, more, between, hmore, rfl, hdone⟩ := hexpr.bind hnamed hends
        obtain ⟨rfl, rfl⟩ := reads_pure.1 hdone
        exact ⟨tokens ++ assign :: more, by simp, .named hassign hfresh hvalue hmore⟩
    · exact absurd hnamed not_reads_failAt
  · obtain ⟨rfl, rfl⟩ := reads_pure.1 hdone
    exact ⟨tokens, rfl, .positional hvalue⟩

/-- The comma between two arguments may be missing from the spelling. -/
theorem argumentsFrom_spelled {opening : Token} {bound : List Token} (before : ArgumentList) :
    Yields (argumentsFrom expression opening bound before) fun after =>
      Spells .optional dialect (.arguments before after) := by
  induction bound generalizing before with
  | nil =>
    intro stream after rest hreads
    exact absurd hreads not_reads_failAt
  | cons token bound ih =>
    intro stream after rest hreads hends
    obtain ⟨-, hargument⟩ := hreads.refuse_bind not_reads_failAt
    obtain ⟨between, tokens, stream, htokens, rfl, hgap⟩ :=
      (argument_spelled hexpr before).bind hargument hends
    obtain ⟨gap, stream, hcomma, rfl, hclosing⟩ := optionalComma_spelled hgap hends
    rcases hclosing.take?_bind hends (by decide) with
      ⟨closing, stream, hkind, rfl, hdone⟩ | ⟨-, hmore⟩
    · obtain ⟨rfl, rfl⟩ := reads_pure.1 hdone
      exact ⟨tokens ++ (gap ++ [closing]), by simp,
        .lastArgument (by simpa using hkind) hcomma htokens⟩
    · obtain ⟨more, rfl, hspelled⟩ := ih between hmore hends
      exact ⟨tokens ++ (gap ++ more), by simp,
        .moreArguments ⟨hcomma, by simp⟩ htokens hspelled⟩

theorem arguments_spelled (opening : Token) :
    Yields (arguments expression opening) fun values =>
      Spells .optional dialect (.argumentList values) := by
  intro stream values rest hreads hends
  rcases hreads.take?_bind hends (by decide) with ⟨closing, between, hkind, rfl, hdone⟩ | ⟨-, hmore⟩
  · obtain ⟨rfl, rfl⟩ := reads_pure.1 hdone
    exact ⟨[closing], rfl, .noArguments (by simpa using hkind)⟩
  · obtain ⟨state, between, hget, hfrom⟩ := reads_bind.1 hmore
    obtain ⟨rfl, rfl⟩ := reads_get.1 hget
    obtain ⟨tokens, hstream, hspelled⟩ := argumentsFrom_spelled hexpr {} hfrom hends
    exact ⟨tokens, hstream, .someArguments hspelled⟩

omit hexpr in
/-- The selector behind a dot prolongs the spelling of the subject. -/
theorem selector_spelled {dot : Token} (hdot : dot.kind = .dot) :
    Yields selector fun found tokens => ∀ {subject before},
      Spells .optional dialect (.expr .subject subject) before →
      Spells .optional dialect (.expr .subject (.member dot subject found))
        (before ++ dot :: tokens) := by
  intro stream found rest hreads hends
  rcases hreads.take?_bind hends (by decide) with ⟨token, between, hkind, rfl, hnext⟩ | ⟨-, hfail⟩
  · dsimp only at hnext
    split at hnext
    · next hname =>
      obtain ⟨rfl, rfl⟩ := reads_pure.1 hnext
      exact ⟨[token], rfl, .member hdot hname⟩
    · next hname =>
      split at hnext
      · next index hindex =>
        obtain ⟨rfl, rfl⟩ := reads_pure.1 hnext
        exact ⟨[token], rfl, .position hdot (by simpa [hname] using hkind) hindex⟩
      · exact absurd hnext not_reads_failAt
  · exact absurd hfail not_reads_failHere

theorem unlessSeen_spelled (kind : Kind) :
    Yields (unlessSeen expression kind) fun found =>
      Spells .optional dialect (.bound found) := by
  intro stream found rest hreads hends
  have hnext := hreads.sees_bind
  split at hnext
  · obtain ⟨rfl, rfl⟩ := reads_pure.1 hnext
    exact ⟨[], rfl, .noBound⟩
  · obtain ⟨value, tokens, between, hvalue, rfl, hdone⟩ := hexpr.bind hnext hends
    obtain ⟨rfl, rfl⟩ := reads_pure.1 hdone
    exact ⟨tokens, rfl, .oneBound hvalue⟩

theorem subscript_spelled {subject : Expr Token} {bracket : Token}
    (hbracket : bracket.kind = .leftBracket) :
    Yields (subscript expression subject bracket) fun value tokens => ∀ {before},
      Spells .optional dialect (.expr .subject subject) before →
      Spells .optional dialect (.expr .subject value) (before ++ bracket :: tokens) := by
  intro stream value rest hreads hends
  obtain ⟨-, hnode⟩ := hreads.refuse_bind not_reads_failAt
  obtain ⟨node, between, hinner, hclosed⟩ := reads_bind.1 hnode
  obtain ⟨start, tokens, after, hstart, rfl, hcolon⟩ :=
    (unlessSeen_spelled hexpr .colon).bind hinner hends
  rcases hcolon.take?_bind hends (by decide) with ⟨colon, after, hkind, rfl, hstop⟩ | ⟨-, hkey⟩
  · obtain ⟨stop, more, after, hmore, rfl, hslice⟩ :=
      (unlessSeen_spelled hexpr .rightBracket).bind hstop hends
    obtain ⟨rfl, rfl⟩ := reads_pure.1 hslice
    obtain ⟨closing, after, hclosing, rfl, hdone⟩ :=
      hclosed.expect_bind hends not_reads_failAt (by decide)
    obtain ⟨rfl, rfl⟩ := reads_pure.1 hdone
    exact ⟨tokens ++ colon :: (more ++ [closing]), by simp, fun hsubject =>
      .slice hbracket (by simpa using hkind) hclosing hsubject hstart hmore⟩
  · cases hstart with
    | noBound => exact absurd hkey not_reads_failAt
    | @oneBound key _ hbound =>
      obtain ⟨rfl, rfl⟩ := reads_pure.1 hkey
      obtain ⟨closing, after, hclosing, rfl, hdone⟩ :=
        hclosed.expect_bind hends not_reads_failAt (by decide)
      obtain ⟨rfl, rfl⟩ := reads_pure.1 hdone
      exact ⟨tokens ++ [closing], by simp, fun hsubject =>
        .subscript hbracket hclosing hsubject hbound⟩

/-- Every form behind a subject prolongs its spelling, and nothing else is read. -/
theorem lengthens_postfixForm? : Lengthens dialect .subject (postfixForm? expression) := by
  refine lengthens_of_take? [.dot, .leftBracket, .leftParen] ?_ (fun _ => rfl) (by decide)
  intro subject token htoken stream found rest hreads hends
  dsimp only at hreads
  split at hreads
  · next hdot =>
    obtain ⟨found, tokens, between, hspelled, rfl, hdone⟩ :=
      (selector_spelled hdot).bind hreads hends
    obtain ⟨rfl, rfl⟩ := reads_pure.1 hdone
    exact ⟨tokens, rfl, _, rfl, hspelled⟩
  · next hbracket =>
    obtain ⟨found, tokens, between, hspelled, rfl, hdone⟩ :=
      (subscript_spelled hexpr hbracket).bind hreads hends
    obtain ⟨rfl, rfl⟩ := reads_pure.1 hdone
    exact ⟨tokens, rfl, _, rfl, hspelled⟩
  · next hdot hbracket =>
    have hparen : token.kind = .leftParen := by grind
    obtain ⟨values, tokens, between, hvalues, rfl, hdone⟩ :=
      (arguments_spelled hexpr token).bind hreads hends
    obtain ⟨rfl, rfl⟩ := reads_pure.1 hdone
    exact ⟨tokens, rfl, _, rfl, fun hsubject => .call hparen hsubject hvalues⟩

/-! ## Whole operands -/

/-- A subject with the postfix forms behind it is a subject. -/
theorem postfix_spelled {subject : Expr Token} {before : List Token}
    (hsubject : Spells .optional dialect (.expr .subject subject) before)
    (hreads : Reads (repeatWhile subject (postfixForm? expression)) stream value rest)
    (hends : stream.Ends) :
    ∃ tokens, stream = rest.prepend tokens ∧
      Spells .optional dialect (.expr .operand value) (before ++ tokens) := by
  obtain ⟨tokens, rfl, hspelled, -⟩ :=
    (lengthens_postfixForm? hexpr).repeat_spelled hreads hends hsubject
  exact ⟨tokens, rfl, .tighten hspelled⟩

theorem withPostfix_spelled {literal : ExprRule}
    (hliteral : ∀ {subject between}, Reads literal stream subject between →
      ∃ tokens, stream = between.prepend tokens ∧
        Spells .optional dialect (.expr .subject subject) tokens)
    (hreads : Reads (withPostfix expression literal) stream value rest) (hends : stream.Ends) :
    ∃ tokens, stream = rest.prepend tokens ∧
      Spells .optional dialect (.expr .operand value) tokens := by
  obtain ⟨subject, between, hread, hforms⟩ := reads_bind.1 hreads
  obtain ⟨tokens, rfl, hsubject⟩ := hliteral hread
  obtain ⟨more, rfl, hspelled⟩ := postfix_spelled hexpr hsubject hforms hends
  exact ⟨tokens ++ more, by simp, hspelled⟩

/-- A boolean value is spelled as an operand of its own, which no form follows. -/
theorem variableOrBoolean_spelled
    (hreads : Reads (variableOrBoolean expression) stream value rest) (hends : stream.Ends)
    (hkind : stream.current.kind = .name) :
    ∃ tokens, stream = rest.prepend tokens ∧
      Spells .optional dialect (.expr .operand value) tokens := by
  obtain ⟨between, hstream, hnext⟩ := hreads.pop_bind hends (by simp [hkind])
  generalize stream.current = token at hstream hnext hkind
  subst hstream
  split at hnext
  · next hboolean =>
    obtain ⟨rfl, rfl⟩ := reads_pure.1 hnext
    exact ⟨[token], rfl, .bool hkind hboolean⟩
  · next hboolean =>
    split at hnext
    · exact absurd hnext not_reads_failAt
    · next hreserved =>
      obtain ⟨more, rfl, hspelled⟩ :=
        postfix_spelled hexpr (.name hkind hboolean hreserved) hnext hends
      exact ⟨token :: more, by simp, hspelled⟩

/-- One case for each kind that begins an operand. -/
theorem plainOperand_spelled :
    Derives dialect .operand (plainOperand expression) := by
  intro stream value rest hreads hends
  obtain ⟨token, between, hcurrent, hnext⟩ := reads_bind.1 hreads
  obtain ⟨rfl, rfl⟩ := reads_current.1 hcurrent
  split at hnext
  · next hkind =>
    exact withPostfix_spelled hexpr (number_spelled · hends (by simp [hkind])) hnext hends
  · next hkind =>
    exact withPostfix_spelled hexpr (number_spelled · hends (by simp [hkind])) hnext hends
  · next hkind => exact withPostfix_spelled hexpr (string_spelled · hends hkind) hnext hends
  · next hkind => exact withPostfix_spelled hexpr (group_spelled hexpr · hends hkind) hnext hends
  · next hkind => exact withPostfix_spelled hexpr (list_spelled hexpr · hends hkind) hnext hends
  · next hkind => exact withPostfix_spelled hexpr (dict_spelled hexpr · hends hkind) hnext hends
  · next hkind => exact variableOrBoolean_spelled hexpr hnext hends hkind
  all_goals exact absurd hnext not_reads_failHere

/-- The markers are spelled in front of the operand in their order. -/
theorem operand_spelled : Derives dialect .operand (operand expression) := by
  intro stream value rest hreads hends
  obtain ⟨markers, between, hmarkers, hnext⟩ := reads_bind.1 hreads
  obtain ⟨rfl, hkinds⟩ := hmarkers.takeAll_eq
  obtain ⟨subject, tokens, between, hsubject, rfl, hdone⟩ :=
    (plainOperand_spelled hexpr).bind hnext hends
  obtain ⟨rfl, rfl⟩ := reads_pure.1 hdone
  refine ⟨markers ++ tokens, by simp, hsubject.foldr hkinds ?_⟩
  intro marker value tokens hkind hvalue
  by_cases hmul : marker.kind = .mul
  · simpa [spreadBy, hmul] using .spread hmul hvalue
  · simpa [spreadBy, hmul] using .namedSpread (by simpa [hmul] using hkind) hvalue

end Brackets

end Stencil.Grammar
