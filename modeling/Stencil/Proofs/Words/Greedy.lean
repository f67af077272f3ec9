import Stencil.Proofs.Words.Longest

/-!
# Greedy scanning

A bare expression is scanned by taking the longest word at every place that is not blank, from left
to right.  The scan ends with the text, or at the first place where no word starts.
-/

namespace Stencil

namespace Token

open Lexeme (IsLongest NoneStarts isQuote)

/-- The last one of the tokens is a dot. -/
def endsWithDot (tokens : List Token) : Bool :=
  tokens.getLast?.map Token.kind == some .dot

/-- The longest words of a text, taken one after the other from its start until `consumed` is
behind them, and the tokens that they make. -/
inductive Lexes (source : List Char) : List Char → List Token → Prop where
  | start : Lexes source [] []
  | blank {consumed tokens char rest} : Lexes source consumed tokens →
      source = consumed ++ char :: rest → Text.isBlank char →
      Lexes source (consumed ++ [char]) tokens
  | word {consumed tokens char rest lexeme} : Lexes source consumed tokens →
      source = consumed ++ char :: rest → ¬ Text.isBlank char →
      IsLongest (endsWithDot tokens) (char :: rest) lexeme →
      Lexes source (consumed ++ lexeme.source) (tokens ++
        [covering lexeme.kind lexeme.text (Position.start.afterAll consumed) lexeme.source])

variable {source consumed rest : List Char} {tokens : List Token}

@[simp]
theorem endsWithDot_append_singleton (tokens : List Token) (token : Token) :
    endsWithDot (tokens ++ [token]) = (token.kind == .dot) := by
  simp [endsWithDot]

theorem scanFrom_fault {afterDot : Bool} {position : Position} {char : Char} {fault : ScanFault}
    (hblank : ¬ Text.isBlank char) (hread : Lexeme.read afterDot char rest = .error fault) :
    scanFrom .expression afterDot position (char :: rest) = .error (.ofFault fault position) := by
  rw [scanFrom]
  · rw [if_neg hblank, if_neg (by simp [ScanMode.closesWith]), hread]
  · exact ScanMode.noConfusion

theorem scanFrom_nil {afterDot : Bool} {position : Position} :
    scanFrom .expression afterDot position [] = .ok [covering .eof "" position []] := by
  rw [scanFrom]
  simp

theorem map_append_nil (scanned : Except ScanError (List Token)) :
    (scanned.map fun more => [] ++ more) = scanned := by
  cases scanned <;> rfl

theorem map_append_cons (token : Token) (scanned : Except ScanError (List Token)) :
    ((scanned.map fun more => token :: more).map fun more => tokens ++ more) =
      scanned.map fun more => (tokens ++ [token]) ++ more := by
  cases scanned with
  | error error => rfl
  | ok more => exact congrArg Except.ok (List.append_cons tokens token more)

/-- The scanner goes on behind the words that have been taken. -/
theorem Lexes.scanFrom_eq (hlexes : Lexes source consumed tokens)
    (hsource : source = consumed ++ rest) :
    scanFrom .expression false .start source =
      (scanFrom .expression (endsWithDot tokens) (Position.start.afterAll consumed) rest).map
        fun more => tokens ++ more := by
  have hmode : ScanMode.expression ≠ .literal := ScanMode.noConfusion
  induction hlexes generalizing rest with
  | start =>
    rw [hsource]
    exact (map_append_nil _).symm
  | @blank consumed tokens char rest' _ hsplit hblank ih =>
    obtain rfl : rest' = rest := by simpa using hsplit.symm.trans hsource
    calc scanFrom .expression false .start source
        = (scanFrom .expression (endsWithDot tokens) (Position.start.afterAll consumed)
            (char :: rest')).map fun more => tokens ++ more := ih hsplit
      _ = (scanFrom .expression (endsWithDot tokens)
            (Position.start.afterAll (consumed ++ [char])) rest').map
              fun more => tokens ++ more := by
        rw [scanFrom_blank hmode hblank, Position.afterAll_append]
        rfl
  | @word consumed tokens char rest' lexeme _ hsplit hblank hlongest ih =>
    have hread := Lexeme.read_eq_ok_iff.2 hlongest
    obtain ⟨kind, _⟩ := lexeme
    obtain ⟨tail, rfl, -⟩ := Lexeme.source_of_read hread
    obtain rfl : rest' = tail ++ rest := by simpa using hsplit.symm.trans hsource
    rw [ih hsplit, scanFrom_word hmode hblank rfl hread, endsWithDot_append_singleton,
      Position.afterAll_append, map_append_cons]
    rfl

/-- Words can be taken up to the end of the text or up to a place where none starts. -/
theorem Lexes.exists_maximal (hlexes : Lexes source consumed tokens)
    (hsource : source = consumed ++ rest) :
    ∃ consumed tokens rest, Lexes source consumed tokens ∧ source = consumed ++ rest ∧
      (rest = [] ∨ ∃ char behind fault, rest = char :: behind ∧ ¬ Text.isBlank char ∧
        Lexeme.read (endsWithDot tokens) char behind = .error fault) := by
  -- Every step takes at least one character of the rest.
  induction hlength : rest.length using Nat.strong_induction_on generalizing consumed tokens rest
    with
  | _ length ih =>
    cases rest with
    | nil => exact ⟨consumed, tokens, [], hlexes, hsource, .inl rfl⟩
    | cons char behind =>
      by_cases hblank : Text.isBlank char
      · refine ih behind.length ?_ (hlexes.blank hsource hblank) ?_ rfl
        · rw [← hlength]
          exact Nat.lt_succ_self _
        · rw [hsource, List.append_assoc]
          rfl
      · cases hread : Lexeme.read (endsWithDot tokens) char behind with
        | error fault =>
          exact ⟨consumed, tokens, _, hlexes, hsource,
            .inr ⟨char, behind, fault, rfl, hblank, hread⟩⟩
        | ok lexeme =>
          have hword := hlexes.word hsource hblank (Lexeme.read_eq_ok_iff.1 hread)
          obtain ⟨tail, hchars, more, rfl⟩ := Lexeme.source_of_read hread
          refine ih more.length ?_ hword ?_ rfl
          · rw [← hlength, List.length_cons, List.length_append]
            omega
          · rw [hsource, hchars]
            simp

/-- The scan succeeds behind words that end with the text. -/
theorem Lexes.scanExpression_eq_ok {source : String} {words : List Token}
    (hlexes : Lexes source.toList source.toList words) :
    scanExpression source =
      .ok (words ++ [covering .eof "" (Position.start.afterAll source.toList) []]) := by
  rw [scanExpression, hlexes.scanFrom_eq (List.append_nil _).symm, scanFrom_nil]
  rfl

/-- The scan fails behind words where no other word starts. -/
theorem Lexes.scanExpression_eq_error {source : String} {words : List Token} {char : Char}
    {fault : ScanFault} (hlexes : Lexes source.toList consumed words)
    (hsource : source.toList = consumed ++ char :: rest) (hblank : ¬ Text.isBlank char)
    (hread : Lexeme.read (endsWithDot words) char rest = .error fault) :
    scanExpression source = .error (.ofFault fault (Position.start.afterAll consumed)) := by
  rw [scanExpression, hlexes.scanFrom_eq hsource, scanFrom_fault hblank hread]
  rfl

end Token

end Stencil
