import Mathlib
import Stencil.Grammar.Rule

/-!
# What a rule reads

A rule that succeeds moves past some tokens and yields a value.  This module turns the code of a
rule into that relation, one lemma for each primitive rule, so that the grammar can be compared
with the rules without unfolding the monad again.  Repetition becomes a relation of its own, in
which the bound on the number of rounds no longer occurs.
-/

namespace Stencil

namespace TokenStream

/-- A stream whose end token really is one. -/
def Ends (stream : TokenStream) : Prop :=
  stream.final.kind = .eof

/-- The stream in which some tokens come before the given one. -/
def prepend (tokens : List Token) (stream : TokenStream) : TokenStream :=
  { stream with upcoming := tokens ++ stream.upcoming }

@[simp]
theorem prepend_nil (stream : TokenStream) : stream.prepend [] = stream := rfl

@[simp]
theorem prepend_prepend (first second : List Token) (stream : TokenStream) :
    (stream.prepend second).prepend first = stream.prepend (first ++ second) := by
  simp [prepend]

@[simp]
theorem upcoming_prepend (tokens : List Token) (stream : TokenStream) :
    (stream.prepend tokens).upcoming = tokens ++ stream.upcoming := rfl

/-- Tokens at its front do not change how a stream ends. -/
@[simp]
theorem ends_prepend {tokens : List Token} {stream : TokenStream} :
    (stream.prepend tokens).Ends ↔ stream.Ends := Iff.rfl

@[simp]
theorem current_prepend_cons (token : Token) (tokens : List Token) (stream : TokenStream) :
    (stream.prepend (token :: tokens)).current = token := rfl

@[simp]
theorem advance_prepend_cons (token : Token) (tokens : List Token) (stream : TokenStream) :
    (stream.prepend (token :: tokens)).advance = stream.prepend tokens := rfl

/-- Where no token is left the end token is the current one. -/
theorem current_of_upcoming_eq_nil {stream : TokenStream} (hnil : stream.upcoming = []) :
    stream.current = stream.final := by
  simp [current, hnil]

theorem Ends.current_kind {stream : TokenStream} (hends : stream.Ends)
    (hnil : stream.upcoming = []) : stream.current.kind = .eof := by
  rw [current_of_upcoming_eq_nil hnil]
  exact hends

/-- Away from the end, the current token stands before the rest of the stream. -/
theorem Ends.eq_prepend {stream : TokenStream} (hends : stream.Ends)
    (hkind : stream.current.kind ≠ .eof) :
    stream = stream.advance.prepend [stream.current] := by
  rcases stream with ⟨_ | ⟨token, tokens⟩, final⟩
  · exact absurd (hends.current_kind rfl) hkind
  · rfl

/-- An end token is the current one only where none is left. -/
theorem eq_nil_of_current_eof {stream : TokenStream}
    (hkinds : ∀ token ∈ stream.upcoming, token.kind ≠ .eof) (hkind : stream.current.kind = .eof) :
    stream.upcoming = [] := by
  rcases stream with ⟨_ | ⟨token, tokens⟩, final⟩
  · rfl
  · exact absurd hkind (hkinds token List.mem_cons_self)

/-- A list of tokens is read up to its first end token only. -/
theorem kind_ne_eof_of_mem_ofTokens {tokens : List Token} {token : Token}
    (hmem : token ∈ (ofTokens tokens).upcoming) : token.kind ≠ .eof := by
  simpa using List.mem_takeWhile_imp hmem

/-- A list with an end token has a first one. -/
theorem exists_find?_eof {tokens : List Token} (hend : ∃ token ∈ tokens, token.kind = .eof) :
    ∃ final, tokens.find? (fun token => token.kind == .eof) = some final := by
  simpa [← Option.isSome_iff_exists] using hend

theorem kind_endAfter (last : Option Token) : (endAfter last).kind = .eof := by
  cases last <;> rfl

theorem ofTokens_ends (tokens : List Token) : (ofTokens tokens).Ends := by
  unfold Ends ofTokens
  cases hfind : tokens.find? (fun token => token.kind == .eof) with
  | none => exact kind_endAfter tokens.getLast?
  | some token => simpa using List.find?_some hfind

section Append

variable {moved more : List Token} (hmoved : ∀ token ∈ moved, token.kind ≠ .eof)
include hmoved

/-- The tokens before the first end token stand at the front of the stream. -/
theorem ofTokens_append (hmore : more ≠ []) :
    ofTokens (moved ++ more) = (ofTokens more).prepend moved := by
  have htaken : ∀ token ∈ moved, (token.kind != .eof) = true := by simpa using hmoved
  have hfind : moved.find? (fun token => token.kind == .eof) = none := by simpa using hmoved
  simp only [ofTokens, prepend, List.takeWhile_append_of_pos htaken, List.find?_append, hfind,
    Option.none_or, List.getLast?_append_of_ne_nil moved hmore]

/-- What stands behind the first end token is not a part of the stream. -/
theorem ofTokens_append_cons {final : Token} (hfinal : final.kind = .eof)
    (behind : List Token) : ofTokens (moved ++ final :: behind) = ⟨moved, final⟩ := by
  rw [ofTokens_append hmoved (List.cons_ne_nil final behind)]
  simp [ofTokens, prepend, hfinal]

theorem ofTokens_append_singleton {final : Token} (hfinal : final.kind = .eof) :
    ofTokens (moved ++ [final]) = ⟨moved, final⟩ :=
  ofTokens_append_cons hmoved hfinal []

end Append

end TokenStream

namespace Rule

variable {α β : Type}

/-- The rule succeeds on a stream with a value and leaves the rest of the stream. -/
def Reads (rule : Rule α) (stream : TokenStream) (value : α) (rest : TokenStream) : Prop :=
  rule.runOn stream = (.ok value, rest)

/-- Whatever the rule reads, the tokens which it moves past stand in the relation to its value. -/
def Yields (rule : Rule α) (relation : α → List Token → Prop) : Prop :=
  ∀ ⦃stream value rest⦄, Reads rule stream value rest → stream.Ends →
    ∃ tokens, stream = rest.prepend tokens ∧ relation value tokens

theorem reads_pure {value result : α} {stream rest : TokenStream} :
    Reads (pure value) stream result rest ↔ result = value ∧ rest = stream := by
  constructor
  · intro hreads
    cases hreads
    exact ⟨rfl, rfl⟩
  · rintro ⟨rfl, rfl⟩
    rfl

/-- The run of one rule after the other; a failure leaves the stream where it occurred. -/
theorem runOn_bind (rule : Rule α) (next : α → Rule β) (stream : TokenStream) :
    (rule >>= next).runOn stream =
      match rule.runOn stream with
      | (.ok value, between) => (next value).runOn between
      | (.error error, between) => (.error error, between) := by
  simp only [runOn, ExceptT.run, StateT.run, bind, ExceptT.bind, ExceptT.mk, StateT.bind,
    ExceptT.bindCont]
  rcases rule stream with ⟨_ | value, between⟩ <;> rfl

/-- One rule after the other succeeds exactly if both do, the second one on what the first one left.
-/
theorem reads_bind {rule : Rule α} {next : α → Rule β} {stream rest : TokenStream}
    {result : β} :
    Reads (rule >>= next) stream result rest ↔
      ∃ value between, Reads rule stream value between ∧
        Reads (next value) between result rest := by
  unfold Reads
  rw [runOn_bind]
  rcases hrun : rule.runOn stream with ⟨error | value, between⟩
  · simp
  · constructor
    · intro hnext
      exact ⟨value, between, rfl, hnext⟩
    · rintro ⟨value', between', hsame, hnext⟩
      cases hsame
      exact hnext

theorem Reads.bind {rule : Rule α} {next : α → Rule β} {stream between rest : TokenStream}
    {value : α} {result : β} (hrule : Reads rule stream value between)
    (hnext : Reads (next value) between result rest) :
    Reads (rule >>= next) stream result rest :=
  reads_bind.2 ⟨value, between, hrule, hnext⟩

/-- A rule reads a stream in one way only. -/
theorem Reads.unique {rule : Rule α} {stream rest rest' : TokenStream} {value value' : α}
    (hreads : Reads rule stream value rest) (hreads' : Reads rule stream value' rest') :
    value = value' ∧ rest = rest' := by
  have hsame := hreads.symm.trans hreads'
  simpa using hsame

theorem not_reads_failAt {token : Token} {fault : SyntaxFault} {stream rest : TokenStream}
    {value : α} : ¬ Reads (failAt token fault) stream value rest := by
  intro hreads
  cases hreads

theorem not_reads_failHere {fault : Token → SyntaxFault} {stream rest : TokenStream}
    {value : α} : ¬ Reads (failHere fault) stream value rest := by
  intro hreads
  obtain ⟨token, between, -, hfail⟩ := reads_bind.1 hreads
  exact not_reads_failAt hfail

theorem reads_get {stream rest state : TokenStream} :
    Reads get stream state rest ↔ state = stream ∧ rest = stream := by
  constructor
  · intro hreads
    cases hreads
    exact ⟨rfl, rfl⟩
  · rintro ⟨rfl, rfl⟩
    rfl

theorem reads_current {stream rest : TokenStream} {token : Token} :
    Reads current stream token rest ↔ token = stream.current ∧ rest = stream := by
  simp only [current, reads_bind, reads_get, reads_pure]
  constructor
  · rintro ⟨_, _, ⟨rfl, rfl⟩, rfl, rfl⟩
    exact ⟨rfl, rfl⟩
  · rintro ⟨rfl, rfl⟩
    exact ⟨_, _, ⟨rfl, rfl⟩, rfl, rfl⟩

theorem reads_modifyGet {change : TokenStream → α × TokenStream} {stream rest : TokenStream}
    {value : α} :
    Reads (modifyGet change) stream value rest ↔
      value = (change stream).1 ∧ rest = (change stream).2 := by
  constructor
  · intro hreads
    cases hreads
    exact ⟨rfl, rfl⟩
  · rintro ⟨rfl, rfl⟩
    rfl

theorem reads_pop {stream rest : TokenStream} {token : Token} :
    Reads pop stream token rest ↔ token = stream.current ∧ rest = stream.advance :=
  reads_modifyGet

theorem reads_pop_prepend (token : Token) (tokens : List Token) (rest : TokenStream) :
    Reads pop (rest.prepend (token :: tokens)) token (rest.prepend tokens) :=
  reads_pop.2 ⟨rfl, rfl⟩

theorem reads_peek? {kinds : List Kind} {stream rest : TokenStream} {found : Option Token} :
    Reads (peek? kinds) stream found rest ↔ found = stream.peek? kinds ∧ rest = stream := by
  simp only [peek?, reads_bind, reads_get, reads_pure]
  constructor
  · rintro ⟨_, _, ⟨rfl, rfl⟩, rfl, rfl⟩
    exact ⟨rfl, rfl⟩
  · rintro ⟨rfl, rfl⟩
    exact ⟨_, _, ⟨rfl, rfl⟩, rfl, rfl⟩

theorem reads_sees {kinds : List Kind} {stream rest : TokenStream} {answer : Bool} :
    Reads (sees kinds) stream answer rest ↔
      answer = decide (stream.current.kind ∈ kinds) ∧ rest = stream := by
  have hsome : (stream.peek? kinds).isSome = decide (stream.current.kind ∈ kinds) := by
    unfold TokenStream.peek?
    split <;> simp_all
  simp only [sees, reads_bind, reads_peek?, reads_pure]
  constructor
  · rintro ⟨_, _, ⟨rfl, rfl⟩, rfl, rfl⟩
    exact ⟨hsome, rfl⟩
  · rintro ⟨rfl, rfl⟩
    exact ⟨_, _, ⟨rfl, rfl⟩, hsome.symm, rfl⟩

/-! ## Taking tokens -/

section Taking

variable {kinds : List Kind} {words : List String} {stream rest : TokenStream}
variable {found : Option Token} {token : Token} {tokens : List Token}

/-- A token of a wanted kind is taken, and the stream is left alone where the current one has
another kind. -/
theorem reads_take? :
    Reads (take? kinds) stream found rest ↔
      if stream.current.kind ∈ kinds then found = some stream.current ∧ rest = stream.advance
      else found = none ∧ rest = stream := by
  rw [take?, reads_modifyGet]
  by_cases hkind : stream.current.kind ∈ kinds <;>
    simp [TokenStream.take?, TokenStream.peek?, hkind]

theorem reads_takeName? :
    Reads (takeName? words) stream found rest ↔
      if stream.current.isName words then found = some stream.current ∧ rest = stream.advance
      else found = none ∧ rest = stream := by
  rw [takeName?, reads_modifyGet]
  by_cases hword : stream.current.isName words <;>
    simp [TokenStream.takeName?, TokenStream.peekName?, hword]

theorem reads_take?_of_mem (hkind : stream.current.kind ∈ kinds) :
    Reads (take? kinds) stream (some stream.current) stream.advance :=
  reads_take?.2 (by simp [hkind])

theorem reads_take?_some (hkind : token.kind ∈ kinds) :
    Reads (take? kinds) (rest.prepend (token :: tokens)) (some token) (rest.prepend tokens) :=
  reads_take?_of_mem hkind

theorem reads_take?_none (hkind : stream.current.kind ∉ kinds) :
    Reads (take? kinds) stream none stream :=
  reads_take?.2 (by simp [hkind])

theorem reads_takeName?_some (hword : token.isName words) :
    Reads (takeName? words) (rest.prepend (token :: tokens)) (some token) (rest.prepend tokens) :=
  reads_takeName?.2 (by simp [hword])

theorem reads_takeName?_none (hword : ¬ stream.current.isName words) :
    Reads (takeName? words) stream none stream :=
  reads_takeName?.2 (by simp [hword])

/-- A token is taken off the front of the stream, or the stream stays as it is. -/
theorem Reads.take?_bind {next : Option Token → Rule β} {value : β}
    (hreads : Reads (take? kinds >>= next) stream value rest) (hends : stream.Ends)
    (heof : Kind.eof ∉ kinds) :
    (∃ token between, token.kind ∈ kinds ∧ stream = between.prepend [token] ∧
        Reads (next (some token)) between value rest) ∨
      (stream.current.kind ∉ kinds ∧ Reads (next none) stream value rest) := by
  obtain ⟨found, between, htake, hnext⟩ := reads_bind.1 hreads
  rw [reads_take?] at htake
  split at htake
  · next hkind =>
    obtain ⟨rfl, rfl⟩ := htake
    refine .inl ⟨stream.current, stream.advance, hkind, hends.eq_prepend ?_, hnext⟩
    intro hend
    exact heof (hend ▸ hkind)
  · next hkind =>
    obtain ⟨rfl, rfl⟩ := htake
    exact .inr ⟨hkind, hnext⟩

theorem Reads.takeName?_bind {next : Option Token → Rule β} {value : β}
    (hreads : Reads (takeName? words >>= next) stream value rest) (hends : stream.Ends) :
    (∃ token between, token.isName words ∧ stream = between.prepend [token] ∧
        Reads (next (some token)) between value rest) ∨
      (¬ stream.current.isName words ∧ Reads (next none) stream value rest) := by
  obtain ⟨found, between, htake, hnext⟩ := reads_bind.1 hreads
  rw [reads_takeName?] at htake
  split at htake
  · next hword =>
    obtain ⟨rfl, rfl⟩ := htake
    refine .inl ⟨stream.current, stream.advance, hword, hends.eq_prepend ?_, hnext⟩
    intro hend
    simp [Token.isName, hend] at hword
  · next hword =>
    obtain ⟨rfl, rfl⟩ := htake
    exact .inr ⟨hword, hnext⟩

/-- A token before the end that has been popped stands at the front of the stream. -/
theorem Reads.pop_bind {next : Token → Rule β} {value : β}
    (hreads : Reads (pop >>= next) stream value rest) (hends : stream.Ends)
    (hkind : stream.current.kind ≠ .eof) :
    ∃ between, stream = between.prepend [stream.current] ∧
      Reads (next stream.current) between value rest := by
  obtain ⟨token, between, hpop, hnext⟩ := reads_bind.1 hreads
  obtain ⟨rfl, rfl⟩ := reads_pop.1 hpop
  exact ⟨_, hends.eq_prepend hkind, hnext⟩

/-- Looking ahead moves nothing, so what comes next starts where it stood. -/
theorem Reads.sees_bind {next : Bool → Rule β} {value : β}
    (hreads : Reads (sees kinds >>= next) stream value rest) :
    Reads (next (decide (stream.current.kind ∈ kinds))) stream value rest := by
  obtain ⟨answer, between, hsees, hnext⟩ := reads_bind.1 hreads
  obtain ⟨rfl, rfl⟩ := reads_sees.1 hsees
  exact hnext

/-- What comes behind a rule of a known yield starts behind the tokens of the yield. -/
theorem Yields.bind {rule : Rule α} {relation : α → List Token → Prop} {next : α → Rule β}
    {value : β} (hyields : Yields rule relation)
    (hreads : Reads (rule >>= next) stream value rest) (hends : stream.Ends) :
    ∃ first tokens between, relation first tokens ∧ stream = between.prepend tokens ∧
      Reads (next first) between value rest := by
  obtain ⟨first, between, hrule, hnext⟩ := reads_bind.1 hreads
  obtain ⟨tokens, hstream, hrelation⟩ := hyields hrule hends
  exact ⟨first, tokens, between, hrelation, hstream, hnext⟩

theorem reads_takeAll :
    Reads (takeAll kinds) stream tokens rest ↔
      tokens = (stream.takeAll kinds).1 ∧ rest = (stream.takeAll kinds).2 :=
  reads_modifyGet

theorem reads_takeAllNames :
    Reads (takeAllNames words) stream tokens rest ↔
      tokens = (stream.takeAllNames words).1 ∧ rest = (stream.takeAllNames words).2 :=
  reads_modifyGet

/-- A run that has been taken stands at the front of the stream and has tokens of the wanted kinds
alone. -/
theorem Reads.takeAll_eq (hreads : Reads (takeAll kinds) stream tokens rest) :
    stream = rest.prepend tokens ∧ ∀ token ∈ tokens, token.kind ∈ kinds := by
  obtain ⟨rfl, rfl⟩ := reads_takeAll.1 hreads
  constructor
  · simp [TokenStream.takeAll, TokenStream.prepend]
  · intro token hmem
    simpa using List.mem_takeWhile_imp hmem

theorem Reads.takeAllNames_eq (hreads : Reads (takeAllNames words) stream tokens rest) :
    stream = rest.prepend tokens ∧ ∀ token ∈ tokens, token.isName words := by
  obtain ⟨rfl, rfl⟩ := reads_takeAllNames.1 hreads
  constructor
  · simp [TokenStream.takeAllNames, TokenStream.prepend]
  · intro token hmem
    exact List.mem_takeWhile_imp hmem

theorem reads_takeAll_nil (hkind : stream.current.kind ∉ kinds) :
    Reads (takeAll kinds) stream [] stream := by
  rw [reads_takeAll]
  rcases stream with ⟨_ | ⟨head, tail⟩, final⟩
  · simp [TokenStream.takeAll]
  · have hhead : head.kind ∉ kinds := hkind
    simp [TokenStream.takeAll, hhead]

/-- A token of a wanted kind prolongs the run behind it. -/
theorem reads_takeAll_cons (hkind : token.kind ∈ kinds)
    (hreads : Reads (takeAll kinds) stream tokens rest) :
    Reads (takeAll kinds) (stream.prepend [token]) (token :: tokens) rest := by
  obtain ⟨rfl, rfl⟩ := reads_takeAll.1 hreads
  simp [reads_takeAll, TokenStream.takeAll, TokenStream.prepend, hkind]

theorem reads_takeAllNames_nil (hword : ¬ stream.current.isName words) :
    Reads (takeAllNames words) stream [] stream := by
  rw [reads_takeAllNames]
  rcases stream with ⟨_ | ⟨head, tail⟩, final⟩
  · simp [TokenStream.takeAllNames]
  · have hhead : ¬ head.isName words := hword
    simp [TokenStream.takeAllNames, hhead]

theorem reads_takeAllNames_cons (hword : token.isName words)
    (hreads : Reads (takeAllNames words) stream tokens rest) :
    Reads (takeAllNames words) (stream.prepend [token]) (token :: tokens) rest := by
  obtain ⟨rfl, rfl⟩ := reads_takeAllNames.1 hreads
  simp [reads_takeAllNames, TokenStream.takeAllNames, TokenStream.prepend, hword]

/-- Behind an expected kind the rule goes on only if a token of this kind was there. -/
theorem Reads.expect_bind {kind : Kind} {failure : Rule Unit} {next : Unit → Rule β} {value : β}
    (hreads : Reads (expect kind failure >>= next) stream value rest) (hends : stream.Ends)
    (hfails : ∀ {stream value rest}, ¬ Reads failure stream value rest) (heof : kind ≠ .eof) :
    ∃ token between, token.kind = kind ∧ stream = between.prepend [token] ∧
      Reads (next ()) between value rest := by
  obtain ⟨_, between, hexpect, hnext⟩ := reads_bind.1 hreads
  rcases hexpect.take?_bind hends (by simpa using heof.symm) with
    ⟨token, after, hkind, rfl, hdone⟩ | ⟨-, hfail⟩
  · obtain ⟨-, rfl⟩ := reads_pure.1 hdone
    exact ⟨token, between, by simpa using hkind, rfl, hnext⟩
  · exact absurd hfail hfails

/-- An expected kind is the kind of the current token. -/
theorem Reads.current_of_expect {kind : Kind} {failure : Rule Unit}
    (hreads : Reads (expect kind failure) stream () rest)
    (hfails : ∀ {stream value rest}, ¬ Reads failure stream value rest) :
    stream.current.kind = kind := by
  obtain ⟨found, between, htake, hnext⟩ := reads_bind.1 hreads
  rw [reads_take?] at htake
  split at htake
  · next hkind => simpa using hkind
  · obtain ⟨rfl, rfl⟩ := htake
    exact absurd hnext hfails

theorem reads_expect {kind : Kind} {failure : Rule Unit} (hkind : token.kind = kind) :
    Reads (expect kind failure) (rest.prepend (token :: tokens)) () (rest.prepend tokens) :=
  (reads_take?_some (by simp [hkind])).bind (reads_pure.2 ⟨rfl, rfl⟩)

/-- A rule goes on behind a refusal only if the current token has another kind. -/
theorem Reads.refuse_bind {failure : Rule Unit} {next : Unit → Rule β} {value : β}
    (hreads : Reads (refuse kinds failure >>= next) stream value rest)
    (hfails : ∀ {stream value rest}, ¬ Reads failure stream value rest) :
    stream.current.kind ∉ kinds ∧ Reads (next ()) stream value rest := by
  obtain ⟨_, between, hrefuse, hnext⟩ := reads_bind.1 hreads
  obtain ⟨found, between', hpeek, hdone⟩ := reads_bind.1 hrefuse
  obtain ⟨rfl, rfl⟩ := reads_peek?.1 hpeek
  by_cases hkind : between'.current.kind ∈ kinds
  · simp only [TokenStream.peek?, hkind, if_true] at hdone
    exact absurd hdone hfails
  · simp only [TokenStream.peek?, hkind, if_false] at hdone
    obtain ⟨-, rfl⟩ := reads_pure.1 hdone
    exact ⟨hkind, hnext⟩

/-- A token of a refused kind makes the rule fail as it is told to. -/
theorem runOn_refuse {failure : Rule Unit} (hkind : stream.current.kind ∈ kinds) :
    (refuse kinds failure).runOn stream = failure.runOn stream := by
  have hpeek : Reads (peek? kinds) stream (some stream.current) stream :=
    reads_peek?.2 ⟨by simp [TokenStream.peek?, hkind], rfl⟩
  rw [refuse, runOn_bind, hpeek]

theorem reads_refuse {failure : Rule Unit} (hkind : stream.current.kind ∉ kinds) :
    Reads (refuse kinds failure) stream () stream := by
  refine Reads.bind (reads_peek?.2 ⟨rfl, rfl⟩) ?_
  simp only [TokenStream.peek?, hkind, if_false]
  exact reads_pure.2 ⟨rfl, rfl⟩

end Taking

/-! ## Repetition -/

/-- A step repeated from a value until it declines.  Every round but the last one moves past a
token. -/
inductive Repeats (step : α → Rule (Option α)) : α → TokenStream → α → TokenStream → Prop where
  | stop {value stream} : Reads (step value) stream none stream →
      Repeats step value stream value stream
  | next {value stream value' stream' result rest} :
      Reads (step value) stream (some value') stream' →
      stream'.upcoming.length < stream.upcoming.length →
      Repeats step value' stream' result rest →
      Repeats step value stream result rest

/-- A step that moves past a token whenever it goes on, and otherwise leaves the stream alone. -/
structure Steady (step : α → Rule (Option α)) : Prop where
  consumes : ∀ {value stream value' stream'},
    Reads (step value) stream (some value') stream' → stream.Ends →
    ∃ token tokens, stream = stream'.prepend (token :: tokens)
  declines : ∀ {value stream stream'},
    Reads (step value) stream none stream' → stream.Ends → stream' = stream
  stops : ∀ {value stream}, stream.Ends → stream.upcoming = [] →
    Reads (step value) stream none stream

section Repetition

variable {step : α → Rule (Option α)} {value result : α} {stream rest : TokenStream}

/-- The rounds of a loop are run if its bound has a round for every token. -/
theorem Repeats.reads_repeatOver (hrepeats : Repeats step value stream result rest)
    {tokens : List Token} (hlength : stream.upcoming.length ≤ tokens.length) :
    Reads (repeatOver step tokens value) stream result rest := by
  induction hrepeats generalizing tokens with
  | stop hstop =>
    cases tokens with
    | nil => exact reads_pure.2 ⟨rfl, rfl⟩
    | cons token tokens => exact hstop.bind (reads_pure.2 ⟨rfl, rfl⟩)
  | next hstep hshorter _ ih =>
    cases tokens with
    | nil =>
      simp only [List.length_nil] at hlength
      omega
    | cons token tokens =>
      simp only [List.length_cons] at hlength
      exact hstep.bind (ih (by omega))

/-- A stream is always long enough for the rounds of a loop over it, as each takes a token. -/
theorem Repeats.reads (hrepeats : Repeats step value stream result rest) :
    Reads (repeatWhile value step) stream result rest :=
  Reads.bind (reads_get.2 ⟨rfl, rfl⟩) (hrepeats.reads_repeatOver le_rfl)

/-- A loop has run round by round, and it has not ended because its bound was used up. -/
theorem Steady.repeats_of_repeatOver (hsteady : Steady step) {tokens : List Token}
    (hends : stream.Ends) (hlength : stream.upcoming.length ≤ tokens.length)
    (hreads : Reads (repeatOver step tokens value) stream result rest) :
    Repeats step value stream result rest := by
  induction tokens generalizing value stream with
  | nil =>
    obtain ⟨rfl, rfl⟩ := reads_pure.1 hreads
    exact .stop (hsteady.stops hends (List.length_eq_zero_iff.1 (by simpa using hlength)))
  | cons token tokens ih =>
    obtain ⟨next?, between, hstep, hrest⟩ := reads_bind.1 hreads
    cases next? with
    | none =>
      obtain ⟨rfl, rfl⟩ := reads_pure.1 hrest
      obtain rfl := hsteady.declines hstep hends
      exact .stop hstep
    | some next =>
      obtain ⟨first, moved, rfl⟩ := hsteady.consumes hstep hends
      simp only [TokenStream.upcoming_prepend, List.length_append, List.length_cons] at hlength
      have hshorter : between.upcoming.length <
          (between.prepend (first :: moved)).upcoming.length := by
        simp only [TokenStream.upcoming_prepend, List.length_append, List.length_cons]
        omega
      exact .next hstep hshorter (ih hends (by omega) hrest)

/-- The bound on the number of rounds is never what ends a repetition. -/
theorem Steady.repeats (hsteady : Steady step)
    (hreads : Reads (repeatWhile value step) stream result rest) (hends : stream.Ends) :
    Repeats step value stream result rest := by
  obtain ⟨state, between, hget, hover⟩ := reads_bind.1 hreads
  obtain ⟨rfl, rfl⟩ := reads_get.1 hget
  exact hsteady.repeats_of_repeatOver hends le_rfl hover

/-- A step keeps what it can be shown to keep through a whole repetition, at the end of which it
declines. -/
theorem Repeats.invariant (hrepeats : Repeats step value stream result rest)
    (Invariant : α → List Token → TokenStream → Prop) {before : List Token}
    (hends : stream.Ends) (hinitial : Invariant value before stream)
    (hstep : ∀ ⦃value value' before stream stream'⦄,
      Reads (step value) stream (some value') stream' → stream.Ends →
      Invariant value before stream →
      ∃ tokens, stream = stream'.prepend tokens ∧ Invariant value' (before ++ tokens) stream') :
    ∃ tokens, stream = rest.prepend tokens ∧ Invariant result (before ++ tokens) rest ∧
      Reads (step result) rest none rest := by
  induction hrepeats generalizing before with
  | stop hstop => exact ⟨[], rfl, by simpa using hinitial, hstop⟩
  | next hnext _ _ ih =>
    obtain ⟨tokens, rfl, hnew⟩ := hstep hnext hends hinitial
    obtain ⟨more, rfl, hresult, hstop⟩ := ih hends hnew
    exact ⟨tokens ++ more, by simp, by simpa using hresult, hstop⟩

/-- What every round keeps of the stream holds of it at the end. -/
theorem Repeats.keeps (hrepeats : Repeats step value stream result rest)
    (Kept : TokenStream → Prop) (hinitial : Kept stream)
    (hstep : ∀ ⦃value value' stream stream'⦄, Reads (step value) stream (some value') stream' →
      Kept stream → Kept stream') : Kept rest := by
  induction hrepeats with
  | stop => exact hinitial
  | next hnext _ _ ih => exact ih (hstep hnext hinitial)

/-- A step that starts by taking a token, declines if there is none, and otherwise always goes
on. -/
theorem steady_of_take? (kinds : List Kind) {body : α → Token → Rule (Option α)}
    (hstep : ∀ value, step value = take? kinds >>= fun
      | none => pure none
      | some token => body value token)
    (heof : Kind.eof ∉ kinds)
    (hbody : ∀ value token, token.kind ∈ kinds →
      Yields (body value token) fun result _ => result.isSome) :
    Steady step where
  consumes := by
    intro value stream value' stream' hreads hends
    rw [hstep] at hreads
    rcases hreads.take?_bind hends heof with ⟨token, between, hkind, rfl, hgoes⟩ | ⟨-, hdeclines⟩
    · obtain ⟨tokens, rfl, -⟩ := hbody value token hkind hgoes hends
      exact ⟨token, tokens, by simp⟩
    · cases (reads_pure.1 hdeclines).1
  declines := by
    intro value stream stream' hreads hends
    rw [hstep] at hreads
    rcases hreads.take?_bind hends heof with ⟨token, between, hkind, rfl, hgoes⟩ | ⟨-, hdeclines⟩
    · obtain ⟨tokens, -, hsome⟩ := hbody value token hkind hgoes hends
      cases hsome
    · exact (reads_pure.1 hdeclines).2
  stops := by
    intro value stream hends hnil
    rw [hstep]
    exact (reads_take?_none (by rwa [hends.current_kind hnil])).bind (reads_pure.2 ⟨rfl, rfl⟩)

/-- A repetition by such a step ends before a token of another kind. -/
theorem current_kind_of_reads_none (kinds : List Kind) {body : α → Token → Rule (Option α)}
    (hstep : ∀ value, step value = take? kinds >>= fun
      | none => pure none
      | some token => body value token)
    (heof : Kind.eof ∉ kinds)
    (hbody : ∀ value token, token.kind ∈ kinds →
      Yields (body value token) fun result _ => result.isSome)
    (hreads : Reads (step value) stream none rest) (hends : stream.Ends) :
    stream.current.kind ∉ kinds := by
  rw [hstep] at hreads
  rcases hreads.take?_bind hends heof with ⟨token, between, hkind, rfl, hgoes⟩ | ⟨hkind, -⟩
  · obtain ⟨tokens, -, hsome⟩ := hbody value token hkind hgoes hends
    cases hsome
  · exact hkind

end Repetition

end Rule

end Stencil
