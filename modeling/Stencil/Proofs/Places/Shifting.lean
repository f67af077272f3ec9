import Stencil.Proofs.Reading
import Stencil.Proofs.Tree
import Stencil.Proofs.Words

/-!
# Rules and the places of tokens

No rule asks where a token stands.  On tokens that stand elsewhere a rule does the same: it takes as
many of them, and it fails with the same fault or yields the same value, up to the tokens that the
value keeps.
-/

namespace Stencil

open Rule

/-- The tokens stand elsewhere, but are the same words. -/
structure Token.Keeps (change : Token → Token) : Prop where
  word : ∀ token, (change token).word = token.word

namespace Token.Keeps

variable {change : Token → Token} (hchange : Token.Keeps change)
include hchange

theorem kind (token : Token) : (change token).kind = token.kind :=
  congrArg Word.kind (hchange.word token)

theorem text (token : Token) : (change token).text = token.text :=
  congrArg Word.text (hchange.word token)

/-- Whether a token is one of some words is not a matter of its place. -/
theorem isName (words : List String) (token : Token) :
    (change token).isName words = token.isName words := by
  rw [Token.isName, hchange.kind, hchange.text, Token.isName]

end Token.Keeps

namespace Token

/-- The same token without its place. -/
def placeless (token : Token) : Token :=
  { token with span := ⟨0, 0, 0, 0⟩ }

/-- Tokens without places keep what they are. -/
theorem keeps_placeless : Keeps placeless :=
  ⟨fun _ => rfl⟩

end Token

/-- The word as a token without a place. -/
def Word.token (word : Word) : Token :=
  ⟨word.kind, word.text, ⟨0, 0, 0, 0⟩⟩

namespace TokenStream

variable {change : Token → Token} {stream : TokenStream}

/-- The stream of the changed tokens. -/
def map (change : Token → Token) (stream : TokenStream) : TokenStream :=
  ⟨stream.upcoming.map change, change stream.final⟩

/-- The current token of a moved stream is the moved one. -/
@[simp]
theorem current_map : (stream.map change).current = change stream.current := by
  obtain ⟨upcoming, final⟩ := stream
  cases upcoming <;> rfl

/-- Moving on and moving elsewhere can be done in either order. -/
@[simp]
theorem advance_map : (stream.map change).advance = stream.advance.map change := by
  simp [map, advance]

theorem peek?_map (hchange : Token.Keeps change) (kinds : List Kind) :
    (stream.map change).peek? kinds = (stream.peek? kinds).map change := by
  rw [peek?, peek?, current_map, hchange.kind]
  split <;> rfl

/-- A token is taken elsewhere exactly if it is taken here. -/
theorem take?_map (hchange : Token.Keeps change) (kinds : List Kind) :
    (stream.map change).take? kinds = (stream.take? kinds).map (Prod.map change (map change)) := by
  rw [take?, take?, peek?_map hchange, advance_map, Option.map_map, Option.map_map]
  rfl

theorem takeName?_map (hchange : Token.Keeps change) (words : List String) :
    (stream.map change).takeName? words =
      (stream.takeName? words).map (Prod.map change (map change)) := by
  rw [takeName?, takeName?, peekName?, peekName?, current_map, advance_map, hchange.isName]
  split <;> rfl

theorem takeAll_map (hchange : Token.Keeps change) (kinds : List Kind) :
    (stream.map change).takeAll kinds =
      Prod.map (List.map change) (map change) (stream.takeAll kinds) := by
  have hwanted : (fun token => decide (token.kind ∈ kinds)) ∘ change =
      fun token => decide (token.kind ∈ kinds) :=
    funext fun token => congrArg (fun kind => decide (kind ∈ kinds)) (hchange.kind token)
  simp [takeAll, map, List.takeWhile_map, List.dropWhile_map, hwanted]

theorem takeAllNames_map (hchange : Token.Keeps change) (words : List String) :
    (stream.map change).takeAllNames words =
      Prod.map (List.map change) (map change) (stream.takeAllNames words) := by
  have hwanted : Token.isName words ∘ change = Token.isName words :=
    funext (hchange.isName words)
  simp [takeAllNames, map, List.takeWhile_map, List.dropWhile_map, hwanted]

/-- A list of tokens with an end is read in the same way elsewhere. -/
theorem ofTokens_map (hchange : Token.Keeps change) {tokens : List Token}
    (hend : ∃ token ∈ tokens, token.kind = .eof) :
    ofTokens (tokens.map change) = (ofTokens tokens).map change := by
  obtain ⟨final, hfinal⟩ := exists_find?_eof hend
  have hplain : (fun token : Token => token.kind != .eof) ∘ change =
      fun token => token.kind != .eof :=
    funext fun token => congrArg (fun kind => kind != Kind.eof) (hchange.kind token)
  simp [ofTokens, map, List.takeWhile_map, List.find?_map, hplain, hchange.kind, hfinal]

end TokenStream

namespace Rule

variable {α β γ δ : Type} {change : Token → Token} {move : α → β} {move' : γ → δ}
  {rule : Rule α} {rule' : Rule β}

/-- What a rule yields with the rest of the stream, or its fault. -/
def outcome (rule : Rule α) (stream : TokenStream) : Except SyntaxFault (α × TokenStream) :=
  match rule.runOn stream with
  | (.ok value, rest) => .ok (value, rest)
  | (.error error, _) => .error error.fault

/-- The outcome without the stream is the result of the run with its fault alone. -/
theorem outcome_map_fst (rule : Rule α) (stream : TokenStream) :
    (rule.outcome stream).map Prod.fst = (rule.runOn stream).1.mapError SyntaxError.fault := by
  unfold outcome
  rcases rule.runOn stream with ⟨_ | value, rest⟩ <;> rfl

theorem outcome_bind (rule : Rule α) (next : α → Rule γ) (stream : TokenStream) :
    (rule >>= next).outcome stream =
      (rule.outcome stream).bind fun (value, rest) => (next value).outcome rest := by
  rw [outcome, outcome, runOn_bind]
  rcases rule.runOn stream with ⟨_ | value, rest⟩ <;> rfl

/-- The second rule does on changed tokens what the first one does on the tokens themselves. -/
def Shifts (change : Token → Token) (move : α → β) (rule : Rule α) (rule' : Rule β) : Prop :=
  ∀ stream, rule'.outcome (stream.map change) =
    (rule.outcome stream).map (Prod.map move (TokenStream.map change))

theorem shifts_pure (value : α) : Shifts change move (pure value) (pure (move value)) :=
  fun _ => rfl

theorem shifts_value {value : α} {value' : β} (hvalue : move value = value') :
    Shifts change move (pure value) (pure value') :=
  hvalue ▸ shifts_pure value

/-- One rule after the other: the second one is moved at the moved value of the first. -/
theorem Shifts.bind {next : α → Rule γ} {next' : β → Rule δ}
    (hrule : Shifts change move rule rule')
    (hnext : ∀ value, Shifts change move' (next value) (next' (move value))) :
    Shifts change move' (rule >>= next) (rule' >>= next') := by
  intro stream
  rw [outcome_bind, outcome_bind, hrule]
  cases rule.outcome stream with
  | error fault => rfl
  | ok result => exact hnext result.1 result.2

theorem shifts_ite {condition condition' : Prop} [Decidable condition] [Decidable condition']
    {yes no : Rule α} {yes' no' : Rule β} (hiff : condition' ↔ condition)
    (hyes : Shifts change move yes yes') (hno : Shifts change move no no') :
    Shifts change move (if condition then yes else no) (if condition' then yes' else no') := by
  by_cases hcondition : condition
  · rwa [if_pos hcondition, if_pos (hiff.2 hcondition)]
  · rwa [if_neg hcondition, if_neg (mt hiff.1 hcondition)]

/-- A change of the stream that can be made before the move or after it. -/
theorem shifts_modifyGet {step : TokenStream → α × TokenStream}
    {step' : TokenStream → β × TokenStream} (hstep : ∀ stream, step' (stream.map change) =
      Prod.map move (TokenStream.map change) (step stream)) :
    Shifts change move (modifyGet step) (modifyGet step') :=
  fun stream => congrArg Except.ok (hstep stream)

theorem shifts_get : Shifts change (TokenStream.map change) get get :=
  fun _ => rfl

theorem shifts_current : Shifts change change current current :=
  fun stream => congrArg (fun token => Except.ok (token, stream.map change))
    TokenStream.current_map

theorem shifts_pop : Shifts change change pop pop :=
  shifts_modifyGet fun _ => Prod.ext TokenStream.current_map TokenStream.advance_map

/-- Failures are compared by their faults, so they may be at any tokens. -/
theorem shifts_failAt {token token' : Token} {fault : SyntaxFault} :
    Shifts change move (failAt token fault) (failAt token' fault) :=
  fun _ => rfl

theorem shifts_failure {token token' : Token} {fault fault' : SyntaxFault}
    (hfault : fault' = fault) : Shifts change move (failAt token fault) (failAt token' fault') :=
  hfault ▸ shifts_failAt

/-- A fault that names the current token must name the moved one in the same way. -/
theorem shifts_failHere {fault : Token → SyntaxFault}
    (hfault : ∀ token, fault (change token) = fault token) :
    Shifts change move (failHere fault) (failHere fault) := by
  refine shifts_current.bind fun token => ?_
  rw [hfault]
  exact shifts_failAt

/-! ## Tokens -/

section

variable {kinds : List Kind} {words : List String} (hchange : Token.Keeps change)
include hchange

/-- Kinds decide what is taken. -/
theorem shifts_take? : Shifts change (Option.map change) (take? kinds) (take? kinds) := by
  refine shifts_modifyGet fun stream => ?_
  rw [TokenStream.take?_map hchange]
  cases stream.take? kinds <;> rfl

theorem shifts_takeName? :
    Shifts change (Option.map change) (takeName? words) (takeName? words) := by
  refine shifts_modifyGet fun stream => ?_
  rw [TokenStream.takeName?_map hchange]
  cases stream.takeName? words <;> rfl

theorem shifts_takeAll : Shifts change (List.map change) (takeAll kinds) (takeAll kinds) :=
  shifts_modifyGet fun _ => TokenStream.takeAll_map hchange kinds

theorem shifts_takeAllNames :
    Shifts change (List.map change) (takeAllNames words) (takeAllNames words) :=
  shifts_modifyGet fun _ => TokenStream.takeAllNames_map hchange words

theorem shifts_peek? : Shifts change (Option.map change) (peek? kinds) (peek? kinds) := by
  refine shifts_get.bind fun stream => ?_
  rw [TokenStream.peek?_map hchange]
  exact shifts_pure _

theorem shifts_sees : Shifts change id (sees kinds) (sees kinds) := by
  refine (shifts_peek? hchange).bind fun found => ?_
  rw [Option.isSome_map]
  exact shifts_pure _

theorem shifts_expect {kind : Kind} {failure failure' : Rule Unit}
    (hfailure : Shifts change id failure failure') :
    Shifts change id (expect kind failure) (expect kind failure') := by
  refine (shifts_take? hchange).bind fun found => ?_
  cases found with
  | some token => exact shifts_pure ()
  | none => exact hfailure

theorem shifts_refuse {failure failure' : Rule Unit}
    (hfailure : Shifts change id failure failure') :
    Shifts change id (refuse kinds failure) (refuse kinds failure') := by
  refine (shifts_peek? hchange).bind fun found => ?_
  cases found with
  | some token => exact hfailure
  | none => exact shifts_pure ()

end

/-! ## Repetition -/

section

variable {step : α → Rule (Option α)} {step' : β → Rule (Option β)}
  (hstep : ∀ value, Shifts change (Option.map move) (step value) (step' (move value)))
include hstep

/-- A loop, by the bound on its rounds, which has as many tokens elsewhere. -/
theorem shifts_repeatOver (tokens : List Token) (value : α) :
    Shifts change move (repeatOver step tokens value)
      (repeatOver step' (tokens.map change) (move value)) := by
  induction tokens generalizing value with
  | nil => exact shifts_pure value
  | cons token tokens ih =>
    refine (hstep value).bind fun next => ?_
    cases next with
    | some next => exact ih next
    | none => exact shifts_pure value

/-- A loop whose rounds can be moved can be moved as a whole. -/
theorem shifts_repeatWhile (value : α) :
    Shifts change move (repeatWhile value step) (repeatWhile (move value) step') :=
  shifts_get.bind fun stream => shifts_repeatOver hstep stream.upcoming value

end

end Rule

end Stencil
