import Stencil.Token

/-!
# Token streams

A list of tokens is read from its start up to the first end token.  A stream has the tokens that are
still to come; the end token is kept apart, so there is always a current token.  A cursor has the
whole list and a place in it, which moves on token by token and stays at the first end token,
wherever that stands.  A stream is what a cursor has still to come.
-/

namespace Stencil

structure TokenStream where
  upcoming : List Token
  final : Token
  deriving DecidableEq, Repr

namespace TokenStream

/-- The end token of a list that has none: empty, right behind the last token. -/
def endAfter : Option Token → Token
  | some last => ⟨.eof, "", ⟨last.span.stop, last.span.stop, last.span.line, last.span.column⟩⟩
  | none => ⟨.eof, "", ⟨0, 0, 1, 1⟩⟩

/-- The tokens with an end token behind them, if the last one is none. -/
def closed (tokens : List Token) : List Token :=
  if tokens.getLast?.any fun token => token.kind == .eof then tokens
  else tokens ++ [endAfter tokens.getLast?]

def ofTokens (tokens : List Token) : TokenStream where
  upcoming := tokens.takeWhile fun token => token.kind != .eof
  final := (tokens.find? fun token => token.kind == .eof).getD (endAfter tokens.getLast?)

def current (stream : TokenStream) : Token :=
  stream.upcoming.headD stream.final

def isAtEnd (stream : TokenStream) : Bool :=
  stream.upcoming.isEmpty

def advance (stream : TokenStream) : TokenStream :=
  { stream with upcoming := stream.upcoming.tail }

/-- The current token if its kind is among the given ones. -/
def peek? (kinds : List Kind) (stream : TokenStream) : Option Token :=
  if stream.current.kind ∈ kinds then some stream.current else none

/-- The current token if it is one of the given words. -/
def peekName? (words : List String) (stream : TokenStream) : Option Token :=
  if stream.current.isName words then some stream.current else none

def pop (stream : TokenStream) : Token × TokenStream :=
  (stream.current, stream.advance)

/-- The current token, moved past, if its kind is among the given ones. -/
def take? (kinds : List Kind) (stream : TokenStream) : Option (Token × TokenStream) :=
  (stream.peek? kinds).map fun token => (token, stream.advance)

/-- The current token, moved past, if it is one of the given words. -/
def takeName? (words : List String) (stream : TokenStream) : Option (Token × TokenStream) :=
  (stream.peekName? words).map fun token => (token, stream.advance)

/-- The tokens up to the first one of another kind, moved past. -/
def takeAll (kinds : List Kind) (stream : TokenStream) : List Token × TokenStream :=
  let isWanted (token : Token) : Bool := decide (token.kind ∈ kinds)
  (stream.upcoming.takeWhile isWanted,
    { stream with upcoming := stream.upcoming.dropWhile isWanted })

/-- The tokens up to the first one that is none of the given words, moved past. -/
def takeAllNames (words : List String) (stream : TokenStream) : List Token × TokenStream :=
  (stream.upcoming.takeWhile (Token.isName words),
    { stream with upcoming := stream.upcoming.dropWhile (Token.isName words) })

end TokenStream

/-- A list of tokens with a place in it. -/
structure TokenCursor where
  tokens : List Token
  position : Nat
  deriving DecidableEq, Repr

namespace TokenCursor

/-- What is done with a cursor.  It has no result where a token outside of the list is read. -/
abbrev Action := StateT TokenCursor Option

/-- A cursor at the first token of a list, which is closed by an end token if it is not yet. -/
def ofTokens (tokens : List Token) : TokenCursor where
  tokens := TokenStream.closed tokens
  position := 0

/-- The token at the place, or the last one for a place behind it. -/
def current? (cursor : TokenCursor) : Option Token :=
  cursor.tokens[min cursor.position (cursor.tokens.length - 1)]?

def current : Action Token := do
  (← get).current?

/-- The current token if its kind is among the given ones. -/
def peek? (kinds : List Kind) : Action (Option Token) := do
  let token ← current
  return if token.kind ∈ kinds then some token else none

/-- The current token if it is one of the given words. -/
def peekName? (words : List String) : Action (Option Token) := do
  let token ← current
  return if token.isName words then some token else none

/-- The current token, moved past unless it is an end token. -/
def pop : Action Token := do
  let token ← current
  if token.kind ≠ .eof then
    modify fun cursor => { cursor with position := cursor.position + 1 }
  return token

/-- The current token, popped, if its kind is among the given ones. -/
def take? (kinds : List Kind) : Action (Option Token) := do
  match ← peek? kinds with
  | some _ => return some (← pop)
  | none => return none

/-- The current token, popped, if it is one of the given words. -/
def takeName? (words : List String) : Action (Option Token) := do
  match ← peekName? words with
  | some _ => return some (← pop)
  | none => return none

def isAtEnd : Action Bool := do
  return (← current).kind == .eof

/-- The stream of the tokens that are still to come. -/
def rest (cursor : TokenCursor) : TokenStream :=
  .ofTokens (cursor.tokens.drop cursor.position)

end TokenCursor

end Stencil
