import Stencil.Proofs.Places.Shifting

/-!
# Rules beside each other

A rule for an expression by itself and the same rule inside of a block run alike: where one stream
ends, the block of the other one does, whatever comes after it.  Both fail, or both yield the same
up to the places of the tokens and leave streams that are beside each other again.
-/

namespace Stencil

open Rule

/-- What stands around an expression in a block: how its tokens differ from those of the expression
by itself, and the stream behind the block. -/
structure Enclosure where
  change : Token → Token
  keeps : Token.Keeps change
  behind : TokenStream
  ends : behind.Ends

namespace Enclosure

variable (block : Enclosure)

@[simp]
theorem kind_change (token : Token) : (block.change token).kind = token.kind :=
  block.keeps.kind token

@[simp]
theorem text_change (token : Token) : (block.change token).text = token.text :=
  block.keeps.text token

@[simp]
theorem isName_change (token : Token) (words : List String) :
    (block.change token).isName words = token.isName words :=
  block.keeps.isName words token

end Enclosure

/-- The stream of an expression beside the stream of a block that holds the expression. -/
structure Mirrors (block : Enclosure) (stream inner : TokenStream) : Prop where
  enclosed : ∃ closing : Token, closing.kind = .variableEnd ∧
    inner = block.behind.prepend (stream.upcoming.map block.change ++ [closing])
  plain : ∀ token ∈ stream.upcoming, token.kind ∉ endKinds
  ends : stream.Ends

/-- Two results beside each other; what is left of the stream is shorter than the limit. -/
inductive Mirrored (block : Enclosure) {α β : Type} (results : α → β → Prop) (limit : Nat) :
    Except SyntaxError α × TokenStream → Except SyntaxError β × TokenStream → Prop where
  | ok {value value' rest rest'} : results value value' → Mirrors block rest rest' →
      rest.upcoming.length < limit →
      Mirrored block results limit (.ok value, rest) (.ok value', rest')
  | error {error error' rest rest'} :
      Mirrored block results limit (.error error, rest) (.error error', rest')

/-- Two results that may decline beside each other; whatever goes on has moved past a token. -/
inductive Stepped (block : Enclosure) {α β : Type} (results : α → β → Prop) (limit : Nat) :
    Except SyntaxError (Option α) × TokenStream → Except SyntaxError (Option β) × TokenStream →
      Prop where
  | goes {value value' rest rest'} : results value value' → Mirrors block rest rest' →
      rest.upcoming.length < limit →
      Stepped block results limit (.ok (some value), rest) (.ok (some value'), rest')
  | declines {rest rest'} : Mirrors block rest rest' → rest.upcoming.length ≤ limit →
      Stepped block results limit (.ok none, rest) (.ok none, rest')
  | error {error error' rest rest'} :
      Stepped block results limit (.error error, rest) (.error error', rest')

/-- A result within a limit is within a greater one. -/
theorem Mirrored.mono {block : Enclosure} {α β : Type} {results : α → β → Prop} {limit limit' : Nat}
    {outcome : Except SyntaxError α × TokenStream} {outcome' : Except SyntaxError β × TokenStream}
    (hmirrored : Mirrored block results limit outcome outcome') (hle : limit ≤ limit') :
    Mirrored block results limit' outcome outcome' := by
  cases hmirrored with
  | ok hvalue hmirrors hlt => exact .ok hvalue hmirrors (hlt.trans_le hle)
  | error => exact .error

theorem Stepped.mono {block : Enclosure} {α β : Type} {results : α → β → Prop} {limit limit' : Nat}
    {outcome : Except SyntaxError (Option α) × TokenStream}
    {outcome' : Except SyntaxError (Option β) × TokenStream}
    (hstepped : Stepped block results limit outcome outcome') (hle : limit ≤ limit') :
    Stepped block results limit' outcome outcome' := by
  cases hstepped with
  | goes hvalue hmirrors hlt => exact .goes hvalue hmirrors (hlt.trans_le hle)
  | declines hmirrors hshorter => exact .declines hmirrors (hshorter.trans hle)
  | error => exact .error

namespace Mirrors

variable {block : Enclosure} {stream inner : TokenStream} {kinds : List Kind} {words : List String}

/-- Either both have come to their end, or the current tokens are the same but for their places. -/
theorem cases (hmirrors : Mirrors block stream inner) :
    (stream.upcoming = [] ∧ stream.current.kind = .eof ∧ inner.current.kind = .variableEnd) ∨
      (inner.current = block.change stream.current ∧ Mirrors block stream.advance inner.advance ∧
        stream.advance.upcoming.length < stream.upcoming.length) := by
  obtain ⟨⟨closing, hclosing, rfl⟩, hplain, hends⟩ := hmirrors
  obtain ⟨upcoming, final⟩ := stream
  cases upcoming with
  | nil => exact .inl ⟨rfl, hends, hclosing⟩
  | cons token tokens =>
    have hrest : Mirrors block ⟨tokens, final⟩
        (block.behind.prepend (tokens.map block.change ++ [closing])) :=
      ⟨⟨closing, hclosing, rfl⟩, fun _ hmem => hplain _ (.tail _ hmem), hends⟩
    exact .inr ⟨rfl, hrest, Nat.lt_succ_self _⟩

/-- The stream of the block has at least the end of the block more. -/
theorem length_lt (hmirrors : Mirrors block stream inner) :
    stream.upcoming.length < inner.upcoming.length := by
  obtain ⟨closing, -, rfl⟩ := hmirrors.enclosed
  simp

/-- Kinds do not tell the streams apart if they include both ends or neither. -/
theorem kind_mem_iff (hmirrors : Mirrors block stream inner)
    (hkinds : Kind.eof ∈ kinds ↔ Kind.variableEnd ∈ kinds) :
    inner.current.kind ∈ kinds ↔ stream.current.kind ∈ kinds := by
  rcases hmirrors.cases with ⟨-, hkind, hkind'⟩ | ⟨hsame, -⟩
  · rw [hkind, hkind', hkinds]
  · rw [hsame, block.kind_change]

/-- No end is a word, so words do not tell the streams apart. -/
theorem isName_iff (hmirrors : Mirrors block stream inner) :
    inner.current.isName words = stream.current.isName words := by
  rcases hmirrors.cases with ⟨-, hkind, hkind'⟩ | ⟨hsame, -⟩
  · simp [Token.isName, hkind, hkind']
  · rw [hsame, block.isName_change]

/-- Nothing ends in the middle of an expression. -/
theorem kind_not_mem (hmirrors : Mirrors block stream inner) (hkind : stream.current.kind ≠ .eof) :
    stream.current.kind ∉ endKinds := by
  have hupcoming : stream.upcoming = stream.current :: stream.advance.upcoming :=
    congrArg TokenStream.upcoming (hmirrors.ends.eq_prepend hkind)
  exact hmirrors.plain _ (hupcoming ▸ List.mem_cons_self)

/-- Away from the end, both streams move on. -/
theorem advance (hmirrors : Mirrors block stream inner) (hkind : stream.current.kind ≠ .eof) :
    inner.current = block.change stream.current ∧ Mirrors block stream.advance inner.advance ∧
      stream.advance.upcoming.length < stream.upcoming.length := by
  rcases hmirrors.cases with ⟨-, heof, -⟩ | hmoves
  · exact absurd heof hkind
  · exact hmoves

end Mirrors

namespace Rule

variable {block : Enclosure} {α β γ δ : Type} {results : α → β → Prop} {results' : γ → δ → Prop}
  {limit limit' : Nat} {stream inner : TokenStream} {kinds : List Kind} {words : List String}

/-- The rules run beside each other on two streams. -/
abbrev Agrees (block : Enclosure) (results : α → β → Prop) (limit : Nat) (rule : Rule α)
    (rule' : Rule β) (stream inner : TokenStream) : Prop :=
  Mirrored block results limit (rule.runOn stream) (rule'.runOn inner)

/-- The steps run beside each other on two streams. -/
abbrev Steps (block : Enclosure) (results : α → β → Prop) (limit : Nat) (rule : Rule (Option α))
    (rule' : Rule (Option β)) (stream inner : TokenStream) : Prop :=
  Stepped block results limit (rule.runOn stream) (rule'.runOn inner)

/-- A rule that reads nothing leaves the streams beside each other. -/
theorem agrees_pure {value : α} {value' : β} (hvalue : results value value')
    (hmirrors : Mirrors block stream inner) (hlimit : stream.upcoming.length < limit) :
    Agrees block results limit (pure value) (pure value') stream inner :=
  .ok hvalue hmirrors hlimit

theorem agrees_ite {condition : Prop} [Decidable condition] {yes no : Rule α} {yes' no' : Rule β}
    (hyes : condition → Agrees block results limit yes yes' stream inner)
    (hno : ¬ condition → Agrees block results limit no no' stream inner) :
    Agrees block results limit (if condition then yes else no) (if condition then yes' else no')
      stream inner := by
  by_cases hcondition : condition
  · simpa only [if_pos hcondition] using hyes hcondition
  · simpa only [if_neg hcondition] using hno hcondition

/-- One rule after the other; what comes next starts on shorter streams. -/
theorem Agrees.bind {rule : Rule α} {rule' : Rule β} {next : α → Rule γ} {next' : β → Rule δ}
    (hrule : Agrees block results limit rule rule' stream inner)
    (hnext : ∀ value value' rest rest', results value value' → Mirrors block rest rest' →
      rest.upcoming.length < limit →
      Agrees block results' limit' (next value) (next' value') rest rest') :
    Agrees block results' limit' (rule >>= next) (rule' >>= next') stream inner := by
  unfold Agrees at hrule ⊢
  rw [runOn_bind, runOn_bind]
  generalize rule.runOn stream = outcome, rule'.runOn inner = outcome' at hrule
  cases hrule with
  | ok hvalue hmirrors hlimit => exact hnext _ _ _ _ hvalue hmirrors hlimit
  | error => exact .error

/-- What comes behind a rule that may decline goes on in two ways, and both have to agree. -/
theorem Steps.agrees_bind {rule : Rule (Option α)} {rule' : Rule (Option β)}
    {next : Option α → Rule γ} {next' : Option β → Rule δ}
    (hrule : Steps block results limit rule rule' stream inner)
    (hgoes : ∀ value value' rest rest', results value value' → Mirrors block rest rest' →
      rest.upcoming.length < limit →
      Agrees block results' limit' (next (some value)) (next' (some value')) rest rest')
    (hdeclines : ∀ rest rest', Mirrors block rest rest' → rest.upcoming.length ≤ limit →
      Agrees block results' limit' (next none) (next' none) rest rest') :
    Agrees block results' limit' (rule >>= next) (rule' >>= next') stream inner := by
  unfold Steps at hrule
  unfold Agrees
  rw [runOn_bind, runOn_bind]
  generalize rule.runOn stream = outcome, rule'.runOn inner = outcome' at hrule
  cases hrule with
  | goes hvalue hmirrors hlimit => exact hgoes _ _ _ _ hvalue hmirrors hlimit
  | declines hmirrors hlimit => exact hdeclines _ _ hmirrors hlimit
  | error => exact .error

/-- A step whose value is not used may go on or decline. -/
theorem Steps.agrees_skip {rule : Rule (Option α)} {rule' : Rule (Option β)} {next : Rule γ}
    {next' : Rule δ} (hrule : Steps block results limit rule rule' stream inner)
    (hnext : ∀ rest rest', Mirrors block rest rest' → rest.upcoming.length ≤ limit →
      Agrees block results' limit' next next' rest rest') :
    Agrees block results' limit' (rule >>= fun _ => next) (rule' >>= fun _ => next') stream inner :=
  hrule.agrees_bind (fun _ _ rest rest' _ hrest hlt => hnext rest rest' hrest hlt.le) hnext

/-- Both go on, with related values. -/
def BothSome (results : α → β → Prop) (found : Option α) (found' : Option β) : Prop :=
  ∃ value value', found = some value ∧ found' = some value' ∧ results value value'

theorem bothSome {value : α} {value' : β} (hvalue : results value value') :
    BothSome results (some value) (some value') :=
  ⟨value, value', rfl, rfl, hvalue⟩

/-- Rules that always find something are rules that may decline. -/
theorem Agrees.steps {rule : Rule (Option α)} {rule' : Rule (Option β)}
    (hrule : Agrees block (BothSome results) limit rule rule' stream inner) :
    Steps block results limit rule rule' stream inner := by
  unfold Agrees at hrule
  unfold Steps
  generalize rule.runOn stream = outcome, rule'.runOn inner = outcome' at hrule
  cases hrule with
  | ok hsome hmirrors hlimit =>
    obtain ⟨value, value', rfl, rfl, hvalue⟩ := hsome
    exact .goes hvalue hmirrors hlimit
  | error => exact .error

/-- A rule that may decline, seen as one that always yields something. -/
theorem Steps.agrees {results' : Option α → Option β → Prop} {rule : Rule (Option α)}
    {rule' : Rule (Option β)} (hrule : Steps block results limit rule rule' stream inner)
    (hsome : ∀ value value', results value value' → results' (some value) (some value'))
    (hnone : results' none none) : Agrees block results' (limit + 1) rule rule' stream inner := by
  unfold Steps at hrule
  unfold Agrees
  generalize rule.runOn stream = outcome, rule'.runOn inner = outcome' at hrule
  cases hrule with
  | goes hvalue hmirrors hlt =>
    exact .ok (hsome _ _ hvalue) hmirrors (hlt.trans (Nat.lt_succ_self _))
  | declines hmirrors hle => exact .ok hnone hmirrors (Nat.lt_succ_of_le hle)
  | error => exact .error

theorem Steps.steps_bind {rule : Rule (Option α)} {rule' : Rule (Option β)}
    {next : Option α → Rule (Option γ)} {next' : Option β → Rule (Option δ)}
    (hrule : Steps block results limit rule rule' stream inner)
    (hgoes : ∀ value value' rest rest', results value value' → Mirrors block rest rest' →
      rest.upcoming.length < limit →
      Steps block results' limit' (next (some value)) (next' (some value')) rest rest')
    (hdeclines : ∀ rest rest', Mirrors block rest rest' → rest.upcoming.length ≤ limit →
      Steps block results' limit' (next none) (next' none) rest rest') :
    Steps block results' limit' (rule >>= next) (rule' >>= next') stream inner := by
  unfold Steps at hrule ⊢
  rw [runOn_bind, runOn_bind]
  generalize rule.runOn stream = outcome, rule'.runOn inner = outcome' at hrule
  cases hrule with
  | goes hvalue hmirrors hlimit => exact hgoes _ _ _ _ hvalue hmirrors hlimit
  | declines hmirrors hlimit => exact hdeclines _ _ hmirrors hlimit
  | error => exact .error

theorem steps_none (hmirrors : Mirrors block stream inner)
    (hlimit : stream.upcoming.length ≤ limit) :
    Steps block results limit (pure none) (pure none) stream inner :=
  .declines hmirrors hlimit

/-- A step that goes on as soon as its first part does. -/
theorem Steps.bind {rule : Rule (Option α)} {rule' : Rule (Option β)}
    {next : Option α → Rule (Option γ)} {next' : Option β → Rule (Option δ)}
    (hrule : Steps block results limit rule rule' stream inner)
    (hgoes : ∀ value value' rest rest', results value value' → Mirrors block rest rest' →
      rest.upcoming.length < limit →
      Agrees block (BothSome results') limit (next (some value)) (next' (some value')) rest rest')
    (hnone : next none = pure none) (hnone' : next' none = pure none) :
    Steps block results' limit (rule >>= next) (rule' >>= next') stream inner := by
  refine hrule.steps_bind (fun value value' rest rest' hvalue hrest hlt =>
    (hgoes value value' rest rest' hvalue hrest hlt).steps) fun rest rest' hrest hle => ?_
  rw [hnone, hnone']
  exact steps_none hrest hle

/-- The streams themselves may be looked at if what is made of them agrees. -/
theorem agrees_get_bind {next : TokenStream → Rule γ} {next' : TokenStream → Rule δ}
    (hnext : Agrees block results' limit' (next stream) (next' inner) stream inner) :
    Agrees block results' limit' (get >>= next) (get >>= next') stream inner :=
  hnext

theorem agrees_current_bind {next : Token → Rule γ} {next' : Token → Rule δ}
    (hnext : Agrees block results' limit' (next stream.current) (next' inner.current)
      stream inner) :
    Agrees block results' limit' (current >>= next) (current >>= next') stream inner :=
  hnext

/-- The rule fails on every stream. -/
def Fails (rule : Rule α) : Prop :=
  ∀ stream, ∃ error rest, rule.runOn stream = (.error error, rest)

theorem fails_failAt {token : Token} {fault : SyntaxFault} :
    Fails (failAt token fault : Rule α) :=
  fun _ => ⟨_, _, rfl⟩

theorem fails_failHere {fault : Token → SyntaxFault} : Fails (failHere fault : Rule α) :=
  fun _ => ⟨_, _, rfl⟩

/-- Where nothing could be shorter than the limit, the second rule fails. -/
theorem Agrees.error_of_zero {rule : Rule α} {rule' : Rule β}
    (hrule : Agrees block results 0 rule rule' stream inner) :
    ∃ error rest, rule'.runOn inner = (.error error, rest) := by
  unfold Agrees at hrule
  generalize rule.runOn stream = outcome, rule'.runOn inner = outcome' at hrule ⊢
  cases hrule with
  | ok _ _ hlt => exact absurd hlt (Nat.not_lt_zero _)
  | error => exact ⟨_, _, rfl⟩

/-- Rules that fail agree, whatever their faults are. -/
theorem Fails.agrees {rule : Rule α} {rule' : Rule β} (hfails : rule.Fails)
    (hfails' : rule'.Fails) : Agrees block results limit rule rule' stream inner := by
  obtain ⟨error, rest, herror⟩ := hfails stream
  obtain ⟨error', rest', herror'⟩ := hfails' inner
  unfold Agrees
  rw [herror, herror']
  exact .error

/-- A kind that is refused where it stands makes the rule fail. -/
theorem fails_refuse {failure : Rule Unit} (hfails : failure.Fails)
    (hkind : stream.current.kind ∈ kinds) :
    ∃ error rest, (refuse kinds failure).runOn stream = (.error error, rest) := by
  rw [runOn_refuse hkind]
  exact hfails stream

theorem reads_expect_current {kind : Kind} {failure : Rule Unit}
    (hkind : stream.current.kind = kind) :
    Reads (expect kind failure) stream () stream.advance := by
  have htake : Reads (take? [kind]) stream (some stream.current) stream.advance :=
    reads_take?_of_mem (by simp [hkind])
  exact htake.bind (reads_pure.2 ⟨rfl, rfl⟩)

theorem fails_expect {kind : Kind} {failure : Rule Unit} (hfails : failure.Fails)
    (hkind : stream.current.kind ≠ kind) :
    ∃ error rest, (expect kind failure).runOn stream = (.error error, rest) := by
  have htake : Reads (take? [kind]) stream none stream := reads_take?_none (by simp [hkind])
  obtain ⟨error, rest, herror⟩ := hfails stream
  refine ⟨error, rest, ?_⟩
  rw [expect, runOn_bind, htake]
  exact herror

/-! ## Tokens -/

/-- Rules agree if each of them is known to read something. -/
theorem agrees_of_reads {rule : Rule α} {rule' : Rule β} {value : α} {value' : β}
    {rest rest' : TokenStream} (hreads : Reads rule stream value rest)
    (hreads' : Reads rule' inner value' rest') (hvalue : results value value')
    (hmirrors : Mirrors block rest rest') (hlimit : rest.upcoming.length < limit) :
    Agrees block results limit rule rule' stream inner := by
  unfold Agrees
  rw [hreads, hreads']
  exact .ok hvalue hmirrors hlimit

section

variable (hmirrors : Mirrors block stream inner)
include hmirrors

/-- A token of a kind that is no end is taken from both streams or from neither. -/
theorem steps_take? (hkinds : Kind.eof ∉ kinds ∧ Kind.variableEnd ∉ kinds) :
    Steps block (fun token token' => token' = block.change token ∧ token.kind ∈ kinds)
      stream.upcoming.length (take? kinds) (take? kinds) stream inner := by
  have hiff : inner.current.kind ∈ kinds ↔ stream.current.kind ∈ kinds :=
    hmirrors.kind_mem_iff (iff_of_false hkinds.1 hkinds.2)
  unfold Steps
  by_cases hkind : stream.current.kind ∈ kinds
  · have htake : Reads (take? kinds) stream (some stream.current) stream.advance :=
      reads_take?_of_mem hkind
    have htake' : Reads (take? kinds) inner (some inner.current) inner.advance :=
      reads_take?_of_mem (hiff.2 hkind)
    obtain ⟨hsame, hadvance, hshorter⟩ := hmirrors.advance fun heof => hkinds.1 (heof ▸ hkind)
    rw [htake, htake']
    exact .goes ⟨hsame, hkind⟩ hadvance hshorter
  · rw [reads_take?_none hkind, reads_take?_none (mt hiff.1 hkind)]
    exact .declines hmirrors le_rfl

/-- Words are no ends, so a word is taken from both streams or from neither. -/
theorem steps_takeName? :
    Steps block (fun token token' => token' = block.change token ∧ token.isName words)
      stream.upcoming.length (takeName? words) (takeName? words) stream inner := by
  have hsame : inner.current.isName words = stream.current.isName words := hmirrors.isName_iff
  unfold Steps
  by_cases hword : stream.current.isName words
  · have htake : Reads (takeName? words) stream (some stream.current) stream.advance :=
      reads_takeName?.2 (by simp [hword])
    have htake' : Reads (takeName? words) inner (some inner.current) inner.advance :=
      reads_takeName?.2 (by simp [hsame, hword])
    have hkind : stream.current.kind ≠ .eof := by
      intro heof
      simp [Token.isName, heof] at hword
    obtain ⟨hcurrent, hadvance, hshorter⟩ := hmirrors.advance hkind
    rw [htake, htake']
    exact .goes ⟨hcurrent, hword⟩ hadvance hshorter
  · rw [reads_takeName?_none hword, reads_takeName?_none (by rwa [hsame])]
    exact .declines hmirrors le_rfl

/-- What is taken differs in its place at most. -/
theorem agrees_takeName? :
    Agrees block (fun found found' => found' = found.map block.change) (stream.upcoming.length + 1)
      (takeName? words) (takeName? words) stream inner :=
  (steps_takeName? hmirrors).agrees (fun _ _ hvalue => congrArg some hvalue.1) rfl

/-- Away from the end both streams lose a token. -/
theorem agrees_pop_bind {next : Token → Rule γ} {next' : Token → Rule δ}
    (hkind : stream.current.kind ≠ .eof)
    (hnext : ∀ rest rest', Mirrors block rest rest' →
      rest.upcoming.length < stream.upcoming.length →
      Agrees block results' limit' (next stream.current) (next' (block.change stream.current))
        rest rest') :
    Agrees block results' limit' (pop >>= next) (pop >>= next') stream inner := by
  obtain ⟨hcurrent, hadvance, hshorter⟩ := hmirrors.advance hkind
  have hpop : Agrees block
      (fun token token' => token = stream.current ∧ token' = block.change token)
      stream.upcoming.length pop pop stream inner :=
    agrees_of_reads (reads_pop.2 ⟨rfl, rfl⟩) (reads_pop.2 ⟨rfl, rfl⟩) ⟨rfl, hcurrent⟩ hadvance
      hshorter
  refine hpop.bind ?_
  rintro _ _ rest rest' ⟨rfl, rfl⟩ hrest hlt
  exact hnext rest rest' hrest hlt

/-- Looking ahead for kinds that include both ends or neither gives the same answer. -/
theorem agrees_sees_bind {next : Bool → Rule γ} {next' : Bool → Rule δ}
    (hkinds : Kind.eof ∈ kinds ↔ Kind.variableEnd ∈ kinds)
    (hnext : Agrees block results' limit' (next (decide (stream.current.kind ∈ kinds)))
      (next' (decide (stream.current.kind ∈ kinds))) stream inner) :
    Agrees block results' limit' (sees kinds >>= next) (sees kinds >>= next') stream inner := by
  have hsees : Reads (sees kinds) stream (decide (stream.current.kind ∈ kinds)) stream :=
    reads_sees.2 ⟨rfl, rfl⟩
  have hsees' : Reads (sees kinds) inner (decide (stream.current.kind ∈ kinds)) inner :=
    reads_sees.2 ⟨by simp only [hmirrors.kind_mem_iff hkinds], rfl⟩
  unfold Agrees
  rw [runOn_bind, runOn_bind, hsees, hsees']
  exact hnext

theorem agrees_refuse_bind {failure failure' : Rule Unit} {next : Unit → Rule γ}
    {next' : Unit → Rule δ} (hkinds : Kind.eof ∈ kinds ↔ Kind.variableEnd ∈ kinds)
    (hfails : failure.Fails) (hfails' : failure'.Fails)
    (hnext : stream.current.kind ∉ kinds →
      Agrees block results' limit' (next ()) (next' ()) stream inner) :
    Agrees block results' limit' (refuse kinds failure >>= next) (refuse kinds failure' >>= next')
      stream inner := by
  have hiff := hmirrors.kind_mem_iff hkinds
  unfold Agrees
  by_cases hkind : stream.current.kind ∈ kinds
  · obtain ⟨error, rest, herror⟩ := fails_refuse hfails hkind
    obtain ⟨error', rest', herror'⟩ := fails_refuse hfails' (hiff.2 hkind)
    rw [runOn_bind, runOn_bind, herror, herror']
    exact .error
  · rw [runOn_bind, runOn_bind, reads_refuse hkind, reads_refuse (mt hiff.1 hkind)]
    exact hnext hkind

/-- A kind that is no end is expected on both streams alike. -/
theorem agrees_expect {kind : Kind} {failure failure' : Rule Unit}
    (hkind : kind ≠ .eof ∧ kind ≠ .variableEnd) (hfails : failure.Fails)
    (hfails' : failure'.Fails) :
    Agrees block (fun _ _ => True) stream.upcoming.length (expect kind failure)
      (expect kind failure') stream inner := by
  have hkinds : Kind.eof ∉ [kind] ∧ Kind.variableEnd ∉ [kind] := by
    simpa using ⟨hkind.1.symm, hkind.2.symm⟩
  exact (steps_take? hmirrors hkinds).agrees_bind
    (fun _ _ rest rest' _ hrest hlt => agrees_pure trivial hrest hlt)
    (fun _ _ _ _ => hfails.agrees hfails')

/-- The tokens that are taken all at once. -/
theorem mirrors_takeWhile (isWanted : Token → Bool)
    (hwanted : ∀ token, isWanted (block.change token) = isWanted token)
    (hclosing : ∀ token : Token, token.kind = .variableEnd → isWanted token = false) :
    inner.upcoming.takeWhile isWanted = (stream.upcoming.takeWhile isWanted).map block.change ∧
      Mirrors block { stream with upcoming := stream.upcoming.dropWhile isWanted }
        { inner with upcoming := inner.upcoming.dropWhile isWanted } := by
  obtain ⟨⟨closing, hkind, rfl⟩, hplain, hends⟩ := hmirrors
  have hsplit (tokens : List Token) :
      (tokens.map block.change ++ [closing] ++ block.behind.upcoming).takeWhile isWanted =
          (tokens.takeWhile isWanted).map block.change ∧
        (tokens.map block.change ++ [closing] ++ block.behind.upcoming).dropWhile isWanted =
          (tokens.dropWhile isWanted).map block.change ++ [closing] ++ block.behind.upcoming := by
    induction tokens with
    | nil => simp [hclosing closing hkind]
    | cons token tokens ih =>
      by_cases htoken : isWanted token
      · simpa [hwanted, htoken] using ih
      · simp [hwanted, htoken]
  exact ⟨(hsplit _).1,
    ⟨closing, hkind, congrArg (TokenStream.mk · block.behind.final) (hsplit _).2⟩,
    fun token hmem => hplain token (List.dropWhile_subset _ hmem), hends⟩

/-- A run of tokens that are no ends is the same on both streams but for the places. -/
theorem agrees_takeAll (hkinds : Kind.variableEnd ∉ kinds) :
    Agrees block (fun tokens tokens' => tokens' = tokens.map block.change)
      (stream.upcoming.length + 1) (takeAll kinds) (takeAll kinds) stream inner := by
  obtain ⟨htaken, hrest⟩ := mirrors_takeWhile hmirrors (fun token => decide (token.kind ∈ kinds))
    (fun token => by rw [block.kind_change]) (fun token hkind => by simpa [hkind] using hkinds)
  exact agrees_of_reads (reads_takeAll.2 ⟨rfl, rfl⟩) (reads_takeAll.2 ⟨rfl, rfl⟩) htaken hrest
    (Nat.lt_succ_of_le (List.length_dropWhile_le _ _))

theorem agrees_takeAllNames :
    Agrees block (fun tokens tokens' => tokens' = tokens.map block.change)
      (stream.upcoming.length + 1) (takeAllNames words) (takeAllNames words) stream inner := by
  obtain ⟨htaken, hrest⟩ := mirrors_takeWhile hmirrors (Token.isName words)
    (fun token => block.isName_change token words)
    (fun token hkind => by simp [Token.isName, hkind])
  exact agrees_of_reads (reads_takeAllNames.2 ⟨rfl, rfl⟩) (reads_takeAllNames.2 ⟨rfl, rfl⟩) htaken
    hrest (Nat.lt_succ_of_le (List.length_dropWhile_le _ _))

end

/-! ## Repetition -/

/-- The step declines where the stream has ended. -/
def Stops (step : Rule (Option α)) : Prop :=
  ∀ ⦃stream⦄, stream.Ends → stream.upcoming = [] → Reads step stream none stream

theorem stops_take? (heof : Kind.eof ∉ kinds) : Stops (take? kinds) := by
  intro stream hends hnil
  refine reads_take?_none fun hmem => heof ?_
  rwa [hends.current_kind hnil] at hmem

theorem stops_takeName? : Stops (takeName? words) := by
  intro stream hends hnil
  refine reads_takeName?_none fun hword => ?_
  simp [Token.isName, hends.current_kind hnil] at hword

theorem stops_none : Stops (pure none : Rule (Option α)) :=
  fun _ _ _ => reads_pure.2 ⟨rfl, rfl⟩

/-- A step declines at the end if its first part does and what then comes behind it. -/
theorem Stops.bind {step : Rule (Option α)} {next : Option α → Rule (Option γ)}
    (hstops : step.Stops) (hnone : (next none).Stops) : Stops (step >>= next) :=
  fun _ hends hnil => (hstops hends hnil).bind (hnone hends hnil)

/-- One round of a loop, for runs that may fail. -/
theorem runOn_repeatOver_cons {step : α → Rule (Option α)} {token : Token} {tokens : List Token}
    {value : α} : (repeatOver step (token :: tokens) value).runOn stream =
      match (step value).runOn stream with
      | (.ok (some next), rest) => (repeatOver step tokens next).runOn rest
      | (.ok none, rest) => (.ok value, rest)
      | (.error error, rest) => (.error error, rest) := by
  rw [repeatOver, runOn_bind]
  rcases (step value).runOn stream with ⟨_ | _ | next, rest⟩ <;> rfl

section

variable {step : α → Rule (Option α)} {step' : β → Rule (Option β)} {value : α} {value' : β}
  (hstep : ∀ value value' stream inner, results value value' → Mirrors block stream inner →
    stream.upcoming.length < limit →
    Steps block results stream.upcoming.length (step value) (step' value') stream inner)
  (hstops : ∀ value, Stops (step value))
include hstep hstops

/-- A repeated step runs beside another one as the step does; the bounds on the rounds, of which one
is greater than the other, end neither. -/
theorem agrees_repeatOver {tokens tokens' : List Token} (hvalue : results value value')
    (hmirrors : Mirrors block stream inner) (hlimit : stream.upcoming.length < limit)
    (hbound : stream.upcoming.length ≤ tokens.length)
    (hbound' : stream.upcoming.length < tokens'.length) :
    Agrees block results (stream.upcoming.length + 1) (repeatOver step tokens value)
      (repeatOver step' tokens' value') stream inner := by
  induction tokens generalizing tokens' value value' stream inner with
  | nil =>
    have hnil : stream.upcoming = [] := List.length_eq_zero_iff.1 (Nat.le_zero.1 hbound)
    obtain ⟨token', tokens', rfl⟩ := List.exists_cons_of_length_pos (Nat.zero_lt_of_lt hbound')
    have hsteps := hstep value value' stream inner hvalue hmirrors hlimit
    unfold Steps at hsteps
    unfold Agrees
    rw [hstops value hmirrors.ends hnil] at hsteps
    rw [runOn_repeatOver_cons]
    generalize (step' value').runOn inner = outcome at hsteps
    cases hsteps with
    | declines hrest _ => exact .ok hvalue hrest (Nat.lt_succ_self _)
  | cons token tokens ih =>
    obtain ⟨token', tokens', rfl⟩ := List.exists_cons_of_length_pos (Nat.zero_lt_of_lt hbound')
    rw [List.length_cons] at hbound hbound'
    have hsteps := hstep value value' stream inner hvalue hmirrors hlimit
    unfold Steps at hsteps
    unfold Agrees
    rw [runOn_repeatOver_cons, runOn_repeatOver_cons]
    generalize (step value).runOn stream = outcome, (step' value').runOn inner = outcome' at hsteps
    cases hsteps with
    | goes hnext hrest hshorter =>
      exact (ih hnext hrest (hshorter.trans hlimit) (by omega) (by omega)).mono (by omega)
    | declines hrest hle => exact .ok hvalue hrest (Nat.lt_succ_of_le hle)
    | error => exact .error

/-- The bounds of the two loops differ, but both are long enough. -/
theorem agrees_repeatWhile (hvalue : results value value') (hmirrors : Mirrors block stream inner)
    (hlimit : stream.upcoming.length < limit) :
    Agrees block results (stream.upcoming.length + 1) (repeatWhile value step)
      (repeatWhile value' step') stream inner := by
  exact agrees_get_bind
    (agrees_repeatOver hstep hstops hvalue hmirrors hlimit le_rfl hmirrors.length_lt)

end

end Rule

end Stencil
