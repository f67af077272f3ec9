import Stencil.Proofs.Reading

/-!
# Looking one token ahead

What a rule reads depends on the tokens that it moves past and on the one that is current behind them,
and on nothing else.  A bound on the depth or on the rounds of a rule may be another one too, as long
as it is no less than the number of these tokens, so the predicate below compares two rules.
-/

namespace Stencil

namespace TokenStream

variable {stream stream' : TokenStream}

/-- What stands at the front of a stream depends on what is behind it only as far as its first
token. -/
theorem current_prepend_congr (hcurrent : stream'.current = stream.current) (tokens : List Token) :
    (stream'.prepend tokens).current = (stream.prepend tokens).current := by
  cases tokens with
  | nil => exact hcurrent
  | cons token tokens => rfl

/-- The tokens before a stream are determined by the whole. -/
theorem prepend_injective {first second : List Token}
    (hsame : stream.prepend first = stream.prepend second) : first = second :=
  List.append_cancel_right (congrArg upcoming hsame)

/-- The stream behind some tokens is determined by the whole. -/
theorem prepend_cancel {tokens : List Token}
    (hsame : stream.prepend tokens = stream'.prepend tokens) : stream = stream' := by
  cases stream
  cases stream'
  simpa [prepend] using hsame

end TokenStream

namespace Rule

variable {α β : Type} {Start Start' : Token → Prop} {limit : ℕ} {rule rule' : Rule α}
  {next next' : α → Rule β}

/-- A rule moves past a token whenever it succeeds. -/
def Consumes (rule : Rule α) : Prop :=
  ∀ ⦃stream value rest⦄, Reads rule stream value rest → stream.Ends →
    ∃ token tokens, stream = rest.prepend (token :: tokens)

/-- What the first rule reads where the current token is as required, the second one reads off every
stream that starts with the same tokens and goes on with the same one, if they are no more than
`limit`. -/
def CarriesFrom (Start : Token → Prop) (limit : ℕ) (rule rule' : Rule α) : Prop :=
  ∀ ⦃stream value rest⦄, Reads rule stream value rest → stream.Ends → Start stream.current →
    ∃ tokens, stream = rest.prepend tokens ∧
      (tokens.length ≤ limit → ∀ rest' : TokenStream, rest'.current = rest.current →
        Reads rule' (rest'.prepend tokens) value rest')

abbrev Carries (limit : ℕ) (rule rule' : Rule α) : Prop :=
  CarriesFrom (fun _ => True) limit rule rule'

namespace CarriesFrom

/-- What is read within a bound is read within a smaller one. -/
theorem mono {limit' : ℕ} (hcarries : CarriesFrom Start limit' rule rule')
    (hlimit : limit ≤ limit') : CarriesFrom Start limit rule rule' := by
  intro stream value rest hreads hends hstart
  obtain ⟨tokens, hstream, hsame⟩ := hcarries hreads hends hstart
  exact ⟨tokens, hstream, fun hlength => hsame (hlength.trans hlimit)⟩

/-- A token that has been moved past counts no longer. -/
theorem pred (hcarries : CarriesFrom Start limit rule rule') :
    CarriesFrom Start (limit - 1) rule rule' :=
  hcarries.mono (Nat.sub_le limit 1)

/-- The tokens at which a rule starts can be restricted further. -/
theorem imp (hcarries : CarriesFrom Start' limit rule rule')
    (hstart : ∀ token, Start token → Start' token) : CarriesFrom Start limit rule rule' :=
  fun _ _ _ hreads hends hcurrent => hcarries hreads hends (hstart _ hcurrent)

theorem of_carries (hcarries : Carries limit rule rule') : CarriesFrom Start limit rule rule' :=
  hcarries.imp fun _ _ => trivial

/-- Where the first rule never succeeds, nothing is required of the second one. -/
theorem of_not_reads (hfails : ∀ {stream value rest}, ¬ Reads rule stream value rest) :
    CarriesFrom Start limit rule rule' :=
  fun _ _ _ hreads => absurd hreads hfails

/-- The tokens that a rule moves past stand at the front of the stream. -/
theorem moves (hcarries : Carries 0 rule rule') {stream rest : TokenStream} {value : α}
    (hreads : Reads rule stream value rest) (hends : stream.Ends) :
    ∃ tokens, stream = rest.prepend tokens := by
  obtain ⟨tokens, hstream, -⟩ := hcarries hreads hends trivial
  exact ⟨tokens, hstream⟩

/-- Where no token may be moved past, a rule that moves past one has nothing to carry over. -/
theorem of_consumes (hconsumes : Consumes rule) : CarriesFrom Start 0 rule rule' := by
  intro stream value rest hreads hends _
  obtain ⟨token, tokens, hstream⟩ := hconsumes hreads hends
  exact ⟨token :: tokens, hstream, nofun⟩

/-- One rule after the other, within the bound that both of them have. -/
theorem bind (hrule : CarriesFrom Start limit rule rule')
    (hnext : ∀ value, Carries limit (next value) (next' value)) :
    CarriesFrom Start limit (rule >>= next) (rule' >>= next') := by
  intro stream result rest hreads hends hstart
  obtain ⟨value, between, hfirst, hsecond⟩ := reads_bind.1 hreads
  obtain ⟨tokens, rfl, hcarries⟩ := hrule hfirst hends hstart
  obtain ⟨more, rfl, hmore⟩ := hnext value hsecond hends trivial
  refine ⟨tokens ++ more, by simp, fun hlength rest' hcurrent => ?_⟩
  rw [List.length_append] at hlength
  rw [← TokenStream.prepend_prepend]
  refine (hcarries (by omega) _ ?_).bind (hmore (by omega) rest' hcurrent)
  exact TokenStream.current_prepend_congr hcurrent more

/-- Behind a rule that moves past a token there is one token less to come. -/
theorem bind_of_consumes (hconsumes : Consumes rule) (hrule : CarriesFrom Start limit rule rule')
    (hnext : ∀ value, Carries (limit - 1) (next value) (next' value)) :
    CarriesFrom Start limit (rule >>= next) (rule' >>= next') := by
  intro stream result rest hreads hends hstart
  obtain ⟨value, between, hfirst, hsecond⟩ := reads_bind.1 hreads
  obtain ⟨tokens, rfl, hcarries⟩ := hrule hfirst hends hstart
  obtain ⟨token, moved, hmoved⟩ := hconsumes hfirst hends
  obtain rfl := TokenStream.prepend_injective hmoved
  obtain ⟨more, rfl, hmore⟩ := hnext value hsecond hends trivial
  refine ⟨token :: moved ++ more, by simp, fun hlength rest' hcurrent => ?_⟩
  rw [List.length_append, List.length_cons] at hlength
  rw [← TokenStream.prepend_prepend]
  refine (hcarries (by rw [List.length_cons]; omega) _ ?_).bind (hmore (by omega) rest' hcurrent)
  exact TokenStream.current_prepend_congr hcurrent more

end CarriesFrom

/-! ## Primitive rules -/

theorem carries_pure (value : α) : Carries limit (pure value) (pure value) := by
  intro stream result rest hreads _ _
  obtain ⟨rfl, rfl⟩ := reads_pure.1 hreads
  exact ⟨[], rfl, fun _ rest' _ => reads_pure.2 ⟨rfl, rfl⟩⟩

theorem carries_failAt {token token' : Token} {fault fault' : SyntaxFault} :
    CarriesFrom Start limit (failAt token fault : Rule α) (failAt token' fault') :=
  .of_not_reads not_reads_failAt

theorem carries_failHere {fault fault' : Token → SyntaxFault} :
    CarriesFrom Start limit (failHere fault : Rule α) (failHere fault') :=
  .of_not_reads not_reads_failHere

/-- What a rule reads off the whole stream may differ in a bound that is taken from it. -/
theorem carries_get_bind {next next' : TokenStream → Rule β}
    (hnext : ∀ state state' : TokenStream,
      Carries (min limit state'.upcoming.length) (next state) (next' state')) :
    Carries limit (get >>= next) (get >>= next') := by
  intro stream value rest hreads hends _
  obtain ⟨_, _, hget, hrest⟩ := reads_bind.1 hreads
  obtain ⟨rfl, rfl⟩ := reads_get.1 hget
  obtain ⟨tokens, hstream, -⟩ := hnext _ rest hrest hends trivial
  refine ⟨tokens, hstream, fun hlength rest' hcurrent => ?_⟩
  obtain ⟨tokens', hstream', hcarries⟩ := hnext _ (rest'.prepend tokens) hrest hends trivial
  obtain rfl := TokenStream.prepend_injective (hstream.symm.trans hstream')
  refine (reads_get.2 ⟨rfl, rfl⟩).bind (hcarries ?_ rest' hcurrent)
  simp only [TokenStream.upcoming_prepend, List.length_append]
  omega

/-- Looking at the current token shows the same one on both streams. -/
theorem carries_current_bind {next next' : Token → Rule β}
    (hnext : ∀ token, CarriesFrom (· = token) limit (next token) (next' token)) :
    Carries limit (current >>= next) (current >>= next') := by
  intro stream value rest hreads hends _
  obtain ⟨_, _, hcurrent, hrest⟩ := reads_bind.1 hreads
  obtain ⟨rfl, rfl⟩ := reads_current.1 hcurrent
  obtain ⟨tokens, rfl, hcarries⟩ := hnext _ hrest hends rfl
  refine ⟨tokens, rfl, fun hlength rest' hsame => ?_⟩
  refine Reads.bind (reads_current.2 ⟨?_, rfl⟩) (hcarries hlength rest' hsame)
  exact (TokenStream.current_prepend_congr hsame tokens).symm

theorem carries_sees (kinds : List Kind) : Carries limit (sees kinds) (sees kinds) := by
  intro stream answer rest hreads _ _
  obtain ⟨rfl, rfl⟩ := reads_sees.1 hreads
  refine ⟨[], rfl, fun _ rest' hcurrent => reads_sees.2 ⟨?_, rfl⟩⟩
  rw [TokenStream.prepend_nil, hcurrent]

/-- What comes behind a refusal starts at a token of another kind. -/
theorem carries_refuse_bind {kinds : List Kind} {failure failure' : Rule Unit}
    {next next' : Unit → Rule β}
    (hfails : ∀ {stream value rest}, ¬ Reads failure stream value rest)
    (hnext : CarriesFrom (fun token => token.kind ∉ kinds) limit (next ()) (next' ())) :
    Carries limit (refuse kinds failure >>= next) (refuse kinds failure' >>= next') := by
  intro stream value rest hreads hends _
  obtain ⟨hkind, hrest⟩ := hreads.refuse_bind hfails
  obtain ⟨tokens, rfl, hcarries⟩ := hnext hrest hends hkind
  refine ⟨tokens, rfl, fun hlength rest' hsame => ?_⟩
  refine Reads.bind (reads_refuse ?_) (hcarries hlength rest' hsame)
  rwa [TokenStream.current_prepend_congr hsame]

/-! ## Taking tokens -/

section Taking

variable {kinds : List Kind} {words : List String}

/-- Behind a popped token there is one token less to come.  An end token would not be moved past. -/
theorem carries_pop_bind {next next' : Token → Rule β}
    (hstart : ∀ token, Start token → token.kind ≠ .eof)
    (hnext : ∀ token, Carries (limit - 1) (next token) (next' token)) :
    CarriesFrom Start limit (pop >>= next) (pop >>= next') := by
  intro stream value rest hreads hends hcurrent
  obtain ⟨between, hstream, hrest⟩ := hreads.pop_bind hends (hstart _ hcurrent)
  generalize stream.current = token at hstream hrest
  subst hstream
  obtain ⟨tokens, rfl, hcarries⟩ := hnext token hrest hends trivial
  refine ⟨token :: tokens, by simp, fun hlength rest' hsame => ?_⟩
  exact (reads_pop_prepend token tokens rest').bind
    (hcarries (Nat.le_sub_one_of_lt hlength) rest' hsame)

variable {next next' : Option Token → Rule β}

/-- A token is taken off both streams or off neither, since both start with the same one. -/
theorem carries_take?_bind (heof : Kind.eof ∉ kinds)
    (hsome : ∀ token, Carries (limit - 1) (next (some token)) (next' (some token)))
    (hnone : Carries limit (next none) (next' none)) :
    Carries limit (take? kinds >>= next) (take? kinds >>= next') := by
  intro stream value rest hreads hends _
  rcases hreads.take?_bind hends heof with ⟨token, between, hkind, rfl, hrest⟩ | ⟨hkind, hrest⟩
  · obtain ⟨tokens, rfl, hcarries⟩ := hsome token hrest hends trivial
    refine ⟨token :: tokens, by simp, fun hlength rest' hsame => ?_⟩
    exact (reads_take?_some hkind).bind (hcarries (Nat.le_sub_one_of_lt hlength) rest' hsame)
  · obtain ⟨tokens, rfl, hcarries⟩ := hnone hrest hends trivial
    refine ⟨tokens, rfl, fun hlength rest' hsame => ?_⟩
    refine (reads_take?_none ?_).bind (hcarries hlength rest' hsame)
    rwa [TokenStream.current_prepend_congr hsame]

theorem carries_takeName?_bind
    (hsome : ∀ token, Carries (limit - 1) (next (some token)) (next' (some token)))
    (hnone : Carries limit (next none) (next' none)) :
    Carries limit (takeName? words >>= next) (takeName? words >>= next') := by
  intro stream value rest hreads hends _
  rcases hreads.takeName?_bind hends with ⟨token, between, hword, rfl, hrest⟩ | ⟨hword, hrest⟩
  · obtain ⟨tokens, rfl, hcarries⟩ := hsome token hrest hends trivial
    refine ⟨token :: tokens, by simp, fun hlength rest' hsame => ?_⟩
    exact (reads_takeName?_some hword).bind (hcarries (Nat.le_sub_one_of_lt hlength) rest' hsame)
  · obtain ⟨tokens, rfl, hcarries⟩ := hnone hrest hends trivial
    refine ⟨tokens, rfl, fun hlength rest' hsame => ?_⟩
    refine (reads_takeName?_none ?_).bind (hcarries hlength rest' hsame)
    rwa [TokenStream.current_prepend_congr hsame]

theorem carries_take? (heof : Kind.eof ∉ kinds) : Carries limit (take? kinds) (take? kinds) := by
  rw [← bind_pure (take? kinds)]
  exact carries_take?_bind heof (fun token => carries_pure (some token)) (carries_pure none)

theorem carries_takeName? : Carries limit (takeName? words) (takeName? words) := by
  rw [← bind_pure (takeName? words)]
  exact carries_takeName?_bind (fun token => carries_pure (some token)) (carries_pure none)

/-- An expected token is taken off both streams; the failure for another one reads nothing. -/
theorem carries_expect {kind : Kind} {failure failure' : Rule Unit} (heof : kind ≠ .eof)
    (hfails : ∀ {stream value rest}, ¬ Reads failure stream value rest) :
    Carries limit (expect kind failure) (expect kind failure') :=
  carries_take?_bind (by simpa using heof.symm) (fun _ => carries_pure ()) (.of_not_reads hfails)

/-- Some tokens are taken up to the first one that is not wanted, and the end token never is. -/
theorem carries_takeWhile {wanted : Token → Bool}
    (heof : ∀ token : Token, token.kind = .eof → wanted token = false) :
    let take : Rule (List Token) := modifyGet fun stream =>
      (stream.upcoming.takeWhile wanted,
        { stream with upcoming := stream.upcoming.dropWhile wanted })
    Carries limit take take := by
  intro take stream tokens rest hreads hends _
  obtain ⟨rfl, rfl⟩ := reads_modifyGet.1 hreads
  refine ⟨stream.upcoming.takeWhile wanted, by simp [TokenStream.prepend], fun _ rest' hsame => ?_⟩
  have hcurrent : wanted rest'.current = false := by
    rw [hsame]
    unfold TokenStream.current
    cases hbehind : stream.upcoming.dropWhile wanted with
    | nil => exact heof _ hends
    | cons first behind =>
      have hfirst := List.head?_dropWhile_not wanted stream.upcoming
      rw [hbehind] at hfirst
      simpa using hfirst
  have hbehind : rest'.upcoming.takeWhile wanted = [] ∧
      rest'.upcoming.dropWhile wanted = rest'.upcoming := by
    rcases rest' with ⟨_ | ⟨first, behind⟩, final⟩
    · exact ⟨rfl, rfl⟩
    · have hfirst : wanted first = false := hcurrent
      simp [hfirst]
  have htaken : ∀ token ∈ stream.upcoming.takeWhile wanted, wanted token :=
    fun token hmem => List.mem_takeWhile_imp hmem
  refine reads_modifyGet.2 ⟨?_, ?_⟩
  · rw [TokenStream.upcoming_prepend, List.takeWhile_append_of_pos htaken, hbehind.1, List.append_nil]
  · rw [TokenStream.upcoming_prepend, List.dropWhile_append_of_pos htaken, hbehind.2]
    rfl

/-- A run ends at the first token of another kind, which is the current one behind both. -/
theorem carries_takeAll (heof : Kind.eof ∉ kinds) : Carries limit (takeAll kinds) (takeAll kinds) :=
  carries_takeWhile fun token hkind => by simpa [hkind] using heof

theorem carries_takeAllNames : Carries limit (takeAllNames words) (takeAllNames words) :=
  carries_takeWhile fun token hkind => by simp [Token.isName, hkind]

end Taking

/-! ## Repetition -/

/-- A repetition carries over with its step, since its rounds are the same. -/
theorem carries_repeatWhile {step step' : α → Rule (Option α)} (hsteady : Steady step)
    (hstep : ∀ value, Carries limit (step value) (step' value)) (value : α) :
    Carries limit (repeatWhile value step) (repeatWhile value step') := by
  intro stream result rest hreads hends _
  suffices hrounds : ∃ tokens, stream = rest.prepend tokens ∧
      (tokens.length ≤ limit → ∀ rest' : TokenStream, rest'.current = rest.current →
        Repeats step' value (rest'.prepend tokens) result rest') by
    obtain ⟨tokens, hstream, hrepeats⟩ := hrounds
    exact ⟨tokens, hstream, fun hlength rest' hsame => (hrepeats hlength rest' hsame).reads⟩
  have hrepeats := hsteady.repeats hreads hends
  clear hreads
  induction hrepeats with
  | stop hstop =>
    obtain ⟨tokens, hstream, hcarries⟩ := hstep _ hstop hends trivial
    obtain rfl : tokens = [] := by simpa using congrArg TokenStream.upcoming hstream
    exact ⟨[], rfl, fun hlength rest' hsame => .stop (hcarries hlength rest' hsame)⟩
  | next hround hshorter _ ih =>
    obtain ⟨tokens, rfl, hcarries⟩ := hstep _ hround hends trivial
    obtain ⟨more, rfl, hmore⟩ := ih hends
    refine ⟨tokens ++ more, by simp, fun hlength rest' hsame => ?_⟩
    rw [List.length_append] at hlength
    rw [← TokenStream.prepend_prepend]
    refine .next (hcarries (by omega) _ (TokenStream.current_prepend_congr hsame more)) ?_
      (hmore (by omega) rest' hsame)
    simpa using hshorter

end Rule

end Stencil
