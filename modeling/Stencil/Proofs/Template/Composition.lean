import Stencil.Proofs.Block.Nodes
import Stencil.Proofs.Places.Grammar
import Stencil.Proofs.Template.Scanning

/-!
# Templates put together

A template is put together from single characters, comments and blocks, each of which is read
without regard to what stands before or behind it.  So two templates one after the other are read as
their parts are, unless a block opens where they meet.
-/

namespace Stencil

namespace Node

/-- A text of one character. -/
def ofChar (char : Char) : Node Token :=
  .text (String.singleton char)

/-- The least nodes that a node consists of, without the places of their tokens. -/
def pieces : Node Token → List (Node Token)
  | .text content => content.toList.map ofChar
  | .output expr => [.output (expr.mapMarks Token.placeless)]

end Node

/-- The characters make up the pieces of a template. -/
inductive Composed (dialect : Dialect) : List Char → List (Node Token) → Prop where
  | nil : Composed dialect [] []
  | char {first rest nodes} : opensBlock (first :: rest) = false → Composed dialect rest nodes →
      Composed dialect (first :: rest) (.ofChar first :: nodes)
  | comment {tail rest nodes} : commentTail? (tail ++ rest) = some tail →
      Composed dialect rest nodes → Composed dialect ('{' :: '#' :: (tail ++ rest)) nodes
  | block {inner words rest expr nodes} : Encloses 0 false inner words rest →
      parseTokens (Grammar.wholeExpression dialect) ((words ++ [Word.eof]).map Word.token) =
        .ok expr →
      Composed dialect rest nodes → Composed dialect ('{' :: '{' :: inner) (.output expr :: nodes)

variable {dialect : Dialect} {chars rest : List Char} {nodes : List (Node Token)}

/-! ## Templates one after the other -/

/-- No block opens with the last character of a text and the first one of another. -/
def MeetsPlainly (chars more : List Char) : Prop :=
  chars.getLast? = some '{' → ∀ second ∈ more.head?, second ∉ openingMarks

theorem MeetsPlainly.of_isSuffix {more : List Char} (hmeets : MeetsPlainly chars more)
    (hsuffix : rest <:+ chars) :
    MeetsPlainly rest more := by
  obtain ⟨front, rfl⟩ := hsuffix
  intro hlast
  exact hmeets (by rw [List.getLast?_append, hlast]; rfl)

namespace Composed

theorem append {more : List Char} {nodes' : List (Node Token)}
    (hfirst : Composed dialect chars nodes)
    (hsecond : Composed dialect more nodes') (hmeets : MeetsPlainly chars more) :
    Composed dialect (chars ++ more) (nodes ++ nodes') := by
  induction hfirst with
  | nil => exact hsecond
  | @char first rest nodes hopens _ ih =>
    have hopens' : opensBlock (first :: (rest ++ more)) = false := by
      rw [opensBlock_eq_false_iff] at hopens ⊢
      rintro rfl
      cases rest with
      | nil => exact hmeets rfl
      | cons second rest => exact hopens rfl
    exact .char hopens' (ih (hmeets.of_isSuffix (List.suffix_cons first rest)))
  | @comment tail rest nodes htail _ ih =>
    have hlonger := commentTail?_append htail more
    rw [List.append_assoc] at hlonger
    have happend := Composed.comment hlonger (ih (hmeets.of_isSuffix ⟨'{' :: '#' :: tail, by simp⟩))
    simpa using happend
  | @block inner words rest expr nodes hencloses hparse _ ih =>
    obtain ⟨front, rfl⟩ := hencloses.exists_inner
    have hsuffix : rest <:+ '{' :: '{' :: (front ++ '}' :: '}' :: rest) :=
      ⟨'{' :: '{' :: (front ++ ['}', '}']), by simp⟩
    exact .block (hencloses.append more) hparse (ih (hmeets.of_isSuffix hsuffix))

/-- A text in which nothing opens is made up of its characters. -/
theorem of_plain (hplain : ∀ second ∈ openingMarks, ¬ ['{', second] <:+: chars) :
    Composed dialect chars (chars.map Node.ofChar) := by
  induction chars with
  | nil => exact .nil
  | cons first rest ih =>
    have hopens : opensBlock (first :: rest) = false := by
      rw [opensBlock_eq_false_iff]
      rintro rfl second hsecond hmark
      obtain ⟨behind, rfl⟩ := List.head?_eq_some_iff.1 hsecond
      exact hplain second hmark ⟨[], behind, rfl⟩
    exact .char hopens (ih fun second hmem hinside =>
      hplain second hmem (hinside.trans (List.suffix_cons first rest).isInfix))

theorem of_comment {comment : List Char} (hcomment : ¬ ['#', '}'] <:+: comment)
    (hrest : Composed dialect rest nodes) :
    Composed dialect ('{' :: '#' :: (comment ++ ['#', '}'] ++ rest)) nodes :=
  .comment (commentTail?_append (commentTail?_closed hcomment) rest) hrest

end Composed

/-! ## Reading -/

open Grammar Rule

/-- From a place on, the characters are read as nodes that consist of the given pieces. -/
def Parsed (dialect : Dialect) (position : Position) (chars : List Char)
    (nodes : List (Node Token)) :
    Prop :=
  ∃ tokens body, Token.scanFrom .literal false position chars = .ok tokens ∧
    Collects (node? dialect) (.ofTokens tokens) body ∧ nodes = body.flatMap Node.pieces

variable {position position' : Position}

theorem parsed_nil_iff : Parsed dialect position [] nodes ↔ nodes = [] := by
  unfold Parsed
  rw [Token.scanFrom_literal_nil]
  have hends : (TokenStream.ofTokens [Token.covering .eof "" position []]).Ends := rfl
  constructor
  · rintro ⟨tokens, body, htokens, hcollects, rfl⟩
    cases htokens
    rw [(collects_end_iff hends rfl).1 hcollects]
    rfl
  · rintro rfl
    exact ⟨_, [], rfl, (collects_end_iff hends rfl).2 rfl, rfl⟩

/-- The tokens in front are read first. -/
theorem parsed_iff_of_scanFrom {front : List Token}
    (hscan : Token.scanFrom .literal false position chars =
      (Token.scanFrom .literal false position' rest).map fun tokens => front ++ tokens)
    (hfront : ∀ token ∈ front, token.kind ≠ .eof) :
    Parsed dialect position chars nodes ↔
      ∃ tokens body, Token.scanFrom .literal false position' rest = .ok tokens ∧
        Collects (node? dialect) ((TokenStream.ofTokens tokens).prepend front) body ∧
        nodes = body.flatMap Node.pieces := by
  unfold Parsed
  rw [hscan]
  cases hrest : Token.scanFrom .literal false position' rest with
  | error error => simp [Except.map]
  | ok tokens =>
    obtain ⟨last, hlast, -⟩ := Token.exists_eof_of_scanFrom hrest
    have hstream := TokenStream.ofTokens_append hfront (List.ne_nil_of_mem hlast)
    constructor
    · rintro ⟨_, body, ⟨⟩, hcollects, hnodes⟩
      exact ⟨tokens, body, rfl, hstream ▸ hcollects, hnodes⟩
    · rintro ⟨_, body, ⟨⟩, hcollects, hnodes⟩
      exact ⟨front ++ tokens, body, rfl, hstream ▸ hcollects, hnodes⟩

theorem parsed_text_iff {first : Char} (hopens : opensBlock (first :: rest) = false) :
    Parsed dialect position (first :: rest) nodes ↔
      ∃ more, nodes = (literalText (first :: rest)).map Node.ofChar ++ more ∧
        Parsed dialect (position.afterAll (literalText (first :: rest)))
          ((first :: rest).drop (literalText (first :: rest)).length) more := by
  have hscan : Token.scanFrom .literal false position (first :: rest) = _ :=
    Token.scanFrom_literal_text hopens
  generalize literalText (first :: rest) = text at hscan ⊢
  rw [parsed_iff_of_scanFrom hscan (List.forall_mem_singleton.2 Kind.noConfusion)]
  have hpieces : (Node.text (String.ofList text) : Node Token).pieces = text.map Node.ofChar := by
    rw [Node.pieces, String.toList_ofList]
  constructor
  · rintro ⟨tokens, body, htokens, hcollects, rfl⟩
    obtain ⟨more, rfl, hmore⟩ := (collects_data_iff rfl).1 hcollects
    exact ⟨more.flatMap Node.pieces, congrArg (· ++ _) hpieces, tokens, more, htokens, hmore, rfl⟩
  · rintro ⟨_, rfl, tokens, more, htokens, hmore, rfl⟩
    exact ⟨tokens, _, htokens, (collects_data_iff rfl).2 ⟨more, rfl, hmore⟩,
      congrArg (· ++ _) hpieces.symm⟩

theorem parsed_comment_iff {tail : List Char} (htail : commentTail? (tail ++ rest) = some tail) :
    Parsed dialect position ('{' :: '#' :: (tail ++ rest)) nodes ↔
      Parsed dialect (position.afterAll ('{' :: '#' :: tail)) rest nodes := by
  unfold Parsed
  rw [Token.scanFrom_literal_comment htail]

theorem parseTokens_placeless {tokens : List Token} {expr : Expr Token}
    (hend : ∃ token ∈ tokens, token.kind = .eof) :
    parseTokens (wholeExpression dialect) (tokens.map Token.placeless) = .ok expr ↔
      ∃ placed, parseTokens (wholeExpression dialect) tokens = .ok placed ∧
        expr = placed.mapMarks Token.placeless := by
  have hsame := parseTokens_map Token.keeps_placeless
    (shifts_wholeExpression Token.keeps_placeless dialect) hend
  generalize parseTokens (wholeExpression dialect) (tokens.map Token.placeless) = result',
    parseTokens (wholeExpression dialect) tokens = result at hsame ⊢
  cases result <;> cases result' <;> simp_all [Except.mapError, Except.map, eq_comm]

theorem parsed_block_iff {inner : List Char} {words : List Word}
    (hencloses : Encloses 0 false inner words rest) (position : Position) :
    ∃ position', ∀ nodes, Parsed dialect position ('{' :: '{' :: inner) nodes ↔
      ∃ expr more, parseTokens (wholeExpression dialect) ((words ++ [Word.eof]).map Word.token) =
          .ok expr ∧
        nodes = .output expr :: more ∧ Parsed dialect position' rest more := by
  obtain ⟨inside, closing, position', rfl, hclosing, hkinds, hinner⟩ :=
    Token.scanFrom_of_encloses hencloses (position.afterAll ['{', '{'])
  refine ⟨position', fun nodes => ?_⟩
  let opening := Token.covering .variableBegin "\x7b\x7b" position ['{', '{']
  have hscan : Token.scanFrom .literal false position ('{' :: '{' :: inner) =
      (Token.scanFrom .literal false position' rest).map fun tokens =>
        opening :: (inside ++ [closing]) ++ tokens := by
    rw [Token.scanFrom_literal_block, hinner]
    cases Token.scanFrom .literal false position' rest <;> simp [Except.map, opening]
  have hplain : ∀ token ∈ inside, token.kind ∉ endKinds := by
    intro token hmem hkind
    have hends : endKinds ⊆ [Kind.eof, .data, .variableBegin, .variableEnd] := by decide
    exact hkinds token hmem (hends hkind)
  have hfront : ∀ token ∈ opening :: (inside ++ [closing]), token.kind ≠ .eof := by
    simp only [List.mem_cons, List.mem_append, List.not_mem_nil, or_false]
    rintro token (rfl | hmem | rfl)
    · exact Kind.noConfusion
    · exact fun hkind => hplain token hmem (by simp [endKinds, hkind])
    · simp [hclosing]
  have hwords : (inside.map Token.word ++ [Word.eof]).map Word.token =
      (inside ++ [Word.eof.token]).map Token.placeless := by
    simp [Token.placeless, Word.token, Token.word]
  have hend : ∃ token ∈ inside ++ [Word.eof.token], token.kind = .eof :=
    ⟨Word.eof.token, by simp, rfl⟩
  have hcollects (tokens : List Token) (body : List (Node Token)) :
      Collects (node? dialect)
          ((TokenStream.ofTokens tokens).prepend (opening :: (inside ++ [closing]))) body ↔
        ∃ expr more, parseTokens (wholeExpression dialect) (inside ++ [Word.eof.token]) = .ok expr ∧
          body = .output expr :: more ∧ Collects (node? dialect) (.ofTokens tokens) more :=
    collects_output_iff (TokenStream.ofTokens_ends tokens) rfl hclosing rfl hplain
  rw [parsed_iff_of_scanFrom hscan hfront, hwords]
  simp only [hcollects, parseTokens_placeless hend]
  constructor
  · rintro ⟨tokens, _, htokens, ⟨expr, more, hparse, rfl, hmore⟩, rfl⟩
    exact ⟨_, _, ⟨expr, hparse, rfl⟩, rfl, tokens, more, htokens, hmore, rfl⟩
  · rintro ⟨_, _, ⟨expr, hparse, rfl⟩, rfl, tokens, more, htokens, hmore, rfl⟩
    exact ⟨tokens, _, htokens, ⟨expr, more, hparse, rfl, hmore⟩, rfl⟩

/-! ## Reading what is put together -/

theorem composed_char_iff {first : Char} (hopens : opensBlock (first :: rest) = false) :
    Composed dialect (first :: rest) nodes ↔
      ∃ more, nodes = .ofChar first :: more ∧ Composed dialect rest more := by
  constructor
  · intro hcomposed
    cases hcomposed with
    | char _ hmore => exact ⟨_, rfl, hmore⟩
    | comment => cases hopens
    | block => cases hopens
  · rintro ⟨more, rfl, hmore⟩
    exact .char hopens hmore

/-- A run of literal text is put together from its characters. -/
theorem composed_literal_iff :
    Composed dialect chars nodes ↔
      ∃ more, nodes = (literalText chars).map Node.ofChar ++ more ∧
        Composed dialect (chars.drop (literalText chars).length) more := by
  induction chars generalizing nodes with
  | nil => simp [literalText]
  | cons first rest ih =>
    by_cases hopens : opensBlock (first :: rest)
    · simp [literalText, hopens]
    · have hopens' := Bool.eq_false_iff.2 hopens
      rw [composed_char_iff hopens', literalText_cons hopens']
      simp only [ih, List.map_cons, List.cons_append, List.length_cons, List.drop_succ_cons]
      constructor
      · rintro ⟨_, rfl, more, rfl, hmore⟩
        exact ⟨more, rfl, hmore⟩
      · rintro ⟨more, rfl, hmore⟩
        exact ⟨_, rfl, more, rfl, hmore⟩

theorem length_drop_literalText_lt {first : Char} (hopens : opensBlock (first :: rest) = false) :
    ((first :: rest).drop (literalText (first :: rest)).length).length <
      (first :: rest).length := by
  rw [literalText_cons hopens, List.length_cons, List.drop_succ_cons, List.length_drop,
    List.length_cons]
  omega

theorem Composed.parsed (hcomposed : Composed dialect chars nodes) (position : Position) :
    Parsed dialect position chars nodes := by
  induction hlength : chars.length using Nat.strong_induction_on
    generalizing chars nodes position with
  | h length ih =>
  subst hlength
  cases hcomposed with
  | nil => exact parsed_nil_iff.2 rfl
  | char hopens hrest =>
    obtain ⟨more, hnodes, hmore⟩ := composed_literal_iff.1 (.char hopens hrest)
    refine (parsed_text_iff hopens).2 ⟨more, hnodes, ?_⟩
    exact ih _ (length_drop_literalText_lt hopens) hmore _ rfl
  | comment htail hmore => exact (parsed_comment_iff htail).2 (ih _ (by simp; omega) hmore _ rfl)
  | block hencloses hparse hmore =>
    obtain ⟨position', hparsed⟩ := parsed_block_iff hencloses position
    have hshorter := hencloses.length_lt.trans_le (Nat.le_add_right _ 2)
    exact (hparsed _).2 ⟨_, _, hparse, rfl, ih _ hshorter hmore _ rfl⟩

theorem Parsed.composed (hparsed : Parsed dialect position chars nodes) :
    Composed dialect chars nodes := by
  induction hlength : chars.length using Nat.strong_induction_on
    generalizing chars nodes position with
  | h length ih =>
  subst hlength
  obtain ⟨tokens, body, hscan, -⟩ := id hparsed
  rcases Token.scanFrom_literal_cases hscan with rfl | ⟨first, rest, rfl, hopens⟩ |
    ⟨tail, rest, rfl, htail⟩ | ⟨inner, words, rest, rfl, hencloses⟩
  · rw [parsed_nil_iff.1 hparsed]
    exact .nil
  · obtain ⟨more, hnodes, hmore⟩ := (parsed_text_iff hopens).1 hparsed
    exact composed_literal_iff.2 ⟨more, hnodes, ih _ (length_drop_literalText_lt hopens) hmore rfl⟩
  · exact .comment htail (ih _ (by simp; omega) ((parsed_comment_iff htail).1 hparsed) rfl)
  · obtain ⟨position', hiff⟩ := parsed_block_iff hencloses position
    obtain ⟨expr, more, hparse, rfl, hmore⟩ := (hiff _).1 hparsed
    have hshorter := hencloses.length_lt.trans_le (Nat.le_add_right _ 2)
    exact .block hencloses hparse (ih _ hshorter hmore rfl)

/-- What a template is parsed to consists of the pieces that its text is put together from. -/
theorem composed_iff_parseTemplate {source : String} :
    Composed dialect source.toList nodes ↔
      ∃ body, parseTemplate dialect source = .ok body ∧ nodes = body.flatMap Node.pieces := by
  have hparsed : Composed dialect source.toList nodes ↔
      Parsed dialect .start source.toList nodes :=
    ⟨fun hcomposed => hcomposed.parsed .start, Parsed.composed⟩
  rw [hparsed, Parsed, parseTemplate, Token.scanTemplate]
  simp only [← parseTokens_body_iff]
  cases Token.scanFrom .literal false .start source.toList <;> simp

end Stencil
