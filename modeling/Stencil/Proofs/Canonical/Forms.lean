import Stencil.Proofs.Canonical.Reading

/-!
# Every form of expression is read back
-/

namespace Stencil.Expr

open Grammar Writer

/-! ## Single words -/

section Words

variable {Mark : Type}

/-- Behind no postfix form nothing but the parts of the expression matters. -/
theorem everywhere_plainSubject_iff {expr : Expr Mark} (hsubject : expr.subject? = none) :
    expr.Everywhere PlainSubject ↔ ∀ child ∈ expr.children, child.Everywhere PlainSubject := by
  rw [Everywhere.iff_node]
  simp [PlainSubject, hsubject]

/-- A tree that is written as one word is read back if the word is. -/
theorem rereads_word {expr : Expr Mark} {kind : Kind} {text : String}
    (hwriter : ∀ more, (expr.core.isInteger → Apart more) → expr.writer more = ⟨kind, text⟩ :: more)
    (hreading : ∀ token : Token, token.kind = kind → token.text = text →
      ∃ reading, Marked .required .standard reading [token] ∧
        (reading.core.isBool → expr.core.isBool) ∧ reading.unmarked = expr.unmarked)
    (hsubject : expr.subject? = none) (hchildren : expr.children = []) : Rereads expr := by
  intro tokens more htokens happart
  rw [hwriter more happart] at htokens
  obtain ⟨token, back, rfl, hkind, htext, hback⟩ := exists_token_of_map htokens
  obtain ⟨reading, hmarked, hbool, hsame⟩ := hreading token hkind htext
  have hplain : expr.Everywhere PlainSubject :=
    (everywhere_plainSubject_iff hsubject).2 (by simp [hchildren])
  exact ⟨[token], back, reading, rfl, hback, hmarked, hbool, iff_of_true hsame hplain⟩

variable {mark : Mark}

/-- Only integers that are not negative are words; a sign is an operator. -/
theorem rereads_integer {value : Int64} (hsign : 0 ≤ value.toInt) :
    Rereads (integer mark value) := by
  refine rereads_word (fun more happart => happart rfl _) (fun token hkind htext => ?_) rfl rfl
  have hread : Decimal.readInteger token.text = .ok value := by
    rw [htext]
    exact Decimal.readInteger_integerText hsign
  exact ⟨_, .subject rfl (.integer hkind hread), id, rfl⟩

theorem rereads_float {value : Float} (hfinite : value.isFinite)
    (hsign : Decimal.isNegative value = false) : Rereads (float mark value) := by
  refine rereads_word (fun more _ => rfl) (fun token hkind htext => ?_) rfl rfl
  have hread : Decimal.readFloat token.text = .ok value := by
    rw [htext]
    exact Decimal.readFloat_floatText hfinite hsign
  exact ⟨_, .subject rfl (.float hkind hread hfinite), id, rfl⟩

theorem rereads_string {value : String} (hvalue : Quotable value) :
    Rereads (string mark value) := by
  refine rereads_word (fun more _ => rfl) (fun token hkind htext => ?_) rfl rfl
  have hunescape : unescape token.text = value := by
    rw [htext, unescape_flatMap_escapeChar hvalue.no_escape, String.ofList_toList]
  refine ⟨_, .subject rfl (.string hkind), id, ?_⟩
  rw [unmarked, hunescape, unmarked]

theorem rereads_bool {value : Bool} : Rereads (bool mark value) := by
  refine rereads_word (fun more _ => rfl) (fun token hkind htext => ?_) rfl rfl
  have hvalue : booleanValue? token.text = some value := by
    rw [htext]
    cases value <;> rfl
  exact ⟨_, .bool hkind hvalue, id, rfl⟩

theorem rereads_name {ident : String} (hident : IsPlainName ident) :
    Rereads (name mark ident) := by
  refine rereads_word (fun more _ => rfl) (fun token hkind htext => ?_) rfl rfl
  subst htext
  exact ⟨_, .subject rfl (.name hkind hident.not_boolean hident.not_reserved), id, rfl⟩

end Words

/-! ## Postfix forms -/

section Postfix

variable {Mark : Type} {mark : Mark}

/-- A selector is written behind the dot; an integer before it stands in parentheses. -/
theorem rereads_member {subject : Expr Mark} {selector : Selector} (hsubject : Rereads subject)
    (hintact : (member mark subject selector).Intact) :
    Rereads (member mark subject selector) := by
  intro tokens more htokens _
  have hapart : subject.core.isInteger → subject.isInteger ∨
      Apart (Word.symbol .dot :: selectorWord selector :: more) := by
    intro hcore
    cases selector with
    | index index => exact .inl (hintact.2 hcore)
    | name ident => exact .inr fun text => rfl
  obtain ⟨front, back, reading, rfl, hback, hmarked, hbool, hsame⟩ :=
    rereads_subject hsubject (hintact.1 subject rfl) hapart htokens
  obtain ⟨dot, back, rfl, hdot, -, hback⟩ := exists_token_of_map hback
  obtain ⟨name, back, rfl, hname, hmore⟩ := List.map_eq_cons_iff.1 hback
  have hwrap (subject : Expr Token) (tokens : List Token)
      (hspells : Spells .required .standard (.expr .subject subject) tokens) :
      Spells .required .standard (.expr .subject (.member dot subject selector))
        (tokens ++ [dot, name]) := by
    have hkind := congrArg Word.kind hname
    have htext : name.text = (selectorWord selector).text := congrArg Word.text hname
    cases selector with
    | name ident =>
      obtain rfl : name.text = ident := htext
      exact .member hdot hkind hspells
    | index index =>
      exact .position hdot hkind (htext ▸ Decimal.readIndex_toString index) hspells
  have hsplit : front ++ dot :: name :: back = front ++ ([dot, name] ++ back) := rfl
  rw [hsplit]
  refine rereads_of_wrap hmore hmarked hbool (fun _ => ⟨rfl, rfl⟩) hwrap rfl ?_
  rw [Everywhere.iff_node]
  simp only [unmarked, member.injEq, true_and, and_true, plainSubject_iff hsame]
  simp [PlainSubject, subject?, children]

theorem rereads_subscript {subject key : Expr Mark} (hsubject : Rereads subject)
    (hkey : Rereads key) (hintact : (subscript mark subject key).Intact) :
    Rereads (subscript mark subject key) := by
  intro tokens more htokens _
  obtain ⟨front, back, reading, rfl, hback, hmarked, hbool, hsame⟩ :=
    rereads_subject hsubject (hintact.1 subject rfl) (fun _ => .inr (apart_of_kind (by decide)))
      htokens
  obtain ⟨bracket, rest, rfl, hbracket, -, hrest⟩ := exists_token_of_map hback
  obtain ⟨inner, closing, back, key', rfl, hclosing, -, hmore, hspells', hsame'⟩ :=
    hkey.apart hrest (by decide)
  have hwrap (subject : Expr Token) (tokens : List Token)
      (hspells : Spells .required .standard (.expr .subject subject) tokens) :
      Spells .required .standard (.expr .subject (.subscript bracket subject key'))
        (tokens ++ bracket :: (inner ++ [closing])) :=
    .subscript hbracket hclosing hspells (hspells'.loosen (by decide))
  have hsplit : front ++ bracket :: (inner ++ closing :: back) =
      front ++ (bracket :: (inner ++ [closing]) ++ back) := by simp
  rw [hsplit]
  refine rereads_of_wrap hmore hmarked hbool (fun _ => ⟨rfl, rfl⟩) hwrap rfl ?_
  rw [Everywhere.iff_node]
  simp only [unmarked, subscript.injEq, true_and, ← and_assoc, plainSubject_iff hsame, hsame']
  simp [PlainSubject, subject?, children, and_assoc]

/-- The tokens of a bound of a slice and the token behind it. -/
theorem rereads_bound {bound : Option (Expr Mark)} (hbound : ∀ expr ∈ bound, Rereads expr)
    {tokens : List Token} {kind : Kind} {text : String} {more : List Word}
    (htokens : tokens.map Token.word = optionWriter id bound (⟨kind, text⟩ :: more))
    (hkind : kind ≠ .dot) :
    ∃ front token back reading, tokens = front ++ token :: back ∧ token.kind = kind ∧
      back.map Token.word = more ∧ Spells .required .standard (.bound reading) front ∧
      (unmarkedOption reading = unmarkedOption bound ↔
        ∀ expr ∈ bound, expr.Everywhere PlainSubject) := by
  cases bound with
  | none =>
    obtain ⟨token, back, rfl, hkind', -, hmore⟩ := exists_token_of_map htokens
    exact ⟨[], token, back, none, rfl, hkind', hmore, .noBound, by simp [unmarkedOption]⟩
  | some expr =>
    obtain ⟨front, token, back, reading, rfl, hkind', -, hmore, hspells, hsame⟩ :=
      (hbound expr rfl).apart htokens hkind
    exact ⟨front, token, back, some reading, rfl, hkind', hmore,
      .oneBound (hspells.loosen (by decide)), by simpa [unmarkedOption] using hsame⟩

theorem rereads_slice {subject : Expr Mark} {start stop : Option (Expr Mark)}
    (hsubject : Rereads subject) (hstart : ∀ expr ∈ start, Rereads expr)
    (hstop : ∀ expr ∈ stop, Rereads expr) (hintact : (slice mark subject start stop).Intact) :
    Rereads (slice mark subject start stop) := by
  intro tokens more htokens _
  obtain ⟨front, back, reading, rfl, hback, hmarked, hbool, hsame⟩ :=
    rereads_subject hsubject (hintact.1 subject rfl) (fun _ => .inr (apart_of_kind (by decide)))
      htokens
  obtain ⟨bracket, rest, rfl, hbracket, -, hrest⟩ := exists_token_of_map hback
  obtain ⟨first, colon, rest, start', rfl, hcolon, hrest, hfirst, hstartSame⟩ :=
    rereads_bound hstart hrest (by decide)
  obtain ⟨second, closing, back, stop', rfl, hclosing, hmore, hsecond, hstopSame⟩ :=
    rereads_bound hstop hrest (by decide)
  have hwrap (subject : Expr Token) (tokens : List Token)
      (hspells : Spells .required .standard (.expr .subject subject) tokens) :
      Spells .required .standard (.expr .subject (.slice bracket subject start' stop'))
        (tokens ++ bracket :: (first ++ colon :: (second ++ [closing]))) :=
    .slice hbracket hcolon hclosing hspells hfirst hsecond
  have hsplit : front ++ bracket :: (first ++ colon :: (second ++ closing :: back)) =
      front ++ (bracket :: (first ++ colon :: (second ++ [closing])) ++ back) := by simp
  rw [hsplit]
  refine rereads_of_wrap hmore hmarked hbool (fun _ => ⟨rfl, rfl⟩) hwrap rfl ?_
  rw [Everywhere.iff_node]
  simp only [unmarked, slice.injEq, true_and, ← and_assoc, plainSubject_iff hsame, hstartSame,
    hstopSame]
  simp [PlainSubject, subject?, children, and_assoc, or_imp, forall_and]

/-- The keywords of a call are written behind all other arguments. -/
theorem rereads_call {callee : Expr Mark} {positional : List (Expr Mark)}
    {named : List (String × Expr Mark)} (hcallee : Rereads callee)
    (hbelow : ∀ value ∈ positional ++ named.map Prod.snd, Rereads value)
    (hwritable : (call mark callee positional named).Writable)
    (hintact : (call mark callee positional named).Intact) :
    Rereads (call mark callee positional named) := by
  intro tokens more htokens _
  obtain ⟨front, back, reading, rfl, hback, hmarked, hbool, hsame⟩ :=
    rereads_subject hcallee (hintact.1 callee rfl) (fun _ => .inr (apart_of_kind (by decide)))
      htokens
  obtain ⟨opening, rest, rfl, hopening, -, hrest⟩ := exists_token_of_map hback
  obtain ⟨inner, back, values, rfl, hmore, hspells', hsames⟩ :=
    rereads_argumentList hbelow hwritable.2 hwritable.1 hrest
  have hwrap (subject : Expr Token) (tokens : List Token)
      (hspells : Spells .required .standard (.expr .subject subject) tokens) :
      Spells .required .standard
        (.expr .subject (.call opening subject values.positional values.named))
        (tokens ++ opening :: inner) :=
    .call hopening hspells hspells'
  have hsplit : front ++ opening :: (inner ++ back) = front ++ (opening :: inner ++ back) := by
    simp
  rw [hsplit]
  refine rereads_of_wrap hmore hmarked hbool (fun _ => ⟨rfl, rfl⟩) hwrap rfl ?_
  rw [Everywhere.iff_node]
  simp only [unmarked, call.injEq, true_and, ← and_assoc, plainSubject_iff hsame]
  rw [and_assoc, hsames]
  simp [PlainSubject, subject?, children, and_assoc]

end Postfix

/-! ## Collections -/

section Collections

variable {Mark : Type} {mark : Mark}

theorem rereads_list {items : List (Expr Mark)} (hitems : ∀ item ∈ items, Rereads item) :
    Rereads (list mark items) := by
  intro tokens more htokens _
  obtain ⟨opening, rest, rfl, hopening, -, hrest⟩ := exists_token_of_map htokens
  by_cases hne : items = []
  · subst hne
    obtain ⟨closing, back, rfl, hclosing, -, hback⟩ := exists_token_of_map hrest
    exact ⟨[opening, closing], back, _, rfl, hback, .subject rfl (.emptyList hopening hclosing), id,
      iff_of_true rfl ((everywhere_plainSubject_iff rfl).2 (by simp [children]))⟩
  · obtain ⟨front, closing, back, readings, rfl, hclosing, hback, hspells, -, hsames⟩ :=
      rereads_items hitems hne hrest (by decide)
    refine ⟨opening :: (front ++ ([] ++ [closing])), back, _, by simp, hback,
      .subject rfl (.list hopening hclosing .none hspells), id, ?_⟩
    rw [everywhere_plainSubject_iff rfl, unmarked, unmarked, list.injEq]
    simpa [children] using hsames

/-- A tuple of one item is written with a comma, and otherwise without one at its end. -/
theorem rereads_tuple {items : List (Expr Mark)} (hitems : ∀ item ∈ items, Rereads item) :
    Rereads (tuple mark items) := by
  intro tokens more htokens _
  obtain ⟨opening, rest, rfl, hopening, -, hrest⟩ := exists_token_of_map htokens
  by_cases hne : items = []
  · subst hne
    obtain ⟨closing, back, rfl, hclosing, -, hback⟩ := exists_token_of_map hrest
    exact ⟨[opening, closing], back, _, rfl, hback, .subject rfl (.emptyTuple hopening hclosing),
      id, iff_of_true rfl ((everywhere_plainSubject_iff rfl).2 (by simp [children]))⟩
  · by_cases hone : items.length = 1
    · simp only [hone, if_true] at hrest
      obtain ⟨front, comma, rest, readings, rfl, hcomma, hrest, hspells, -, hsames⟩ :=
        rereads_items hitems hne hrest (by decide)
      obtain ⟨closing, back, rfl, hclosing, -, hback⟩ := exists_token_of_map hrest
      refine ⟨opening :: (front ++ ([comma] ++ [closing])), back, _, by simp, hback,
        .subject rfl (.tuple hopening hclosing (.comma hcomma) (by simp) hspells), id, ?_⟩
      rw [everywhere_plainSubject_iff rfl, unmarked, unmarked, tuple.injEq]
      simpa [children] using hsames
    · simp only [hone, if_false] at hrest
      obtain ⟨front, closing, back, readings, rfl, hclosing, hback, hspells, hlength, hsames⟩ :=
        rereads_items hitems hne hrest (by decide)
      refine ⟨opening :: (front ++ ([] ++ [closing])), back, _, by simp, hback,
        .subject rfl (.tuple hopening hclosing .none (by simp [hlength, hone]) hspells), id, ?_⟩
      rw [everywhere_plainSubject_iff rfl, unmarked, unmarked, tuple.injEq]
      simpa [children] using hsames

theorem rereads_dict {pairs : List (Expr Mark × Expr Mark)}
    (hpairs : ∀ pair ∈ pairs, Rereads pair.1 ∧ Rereads pair.2) : Rereads (dict mark pairs) := by
  intro tokens more htokens _
  obtain ⟨opening, rest, rfl, hopening, -, hrest⟩ := exists_token_of_map htokens
  by_cases hne : pairs = []
  · subst hne
    obtain ⟨closing, back, rfl, hclosing, -, hback⟩ := exists_token_of_map hrest
    exact ⟨[opening, closing], back, _, rfl, hback, .subject rfl (.emptyDict hopening hclosing), id,
      iff_of_true rfl ((everywhere_plainSubject_iff rfl).2 (by simp [children]))⟩
  · obtain ⟨front, closing, back, readings, rfl, hclosing, hback, hspells, hsames⟩ :=
      rereads_pairs hpairs hne hrest (by decide)
    refine ⟨opening :: (front ++ ([] ++ [closing])), back, _, by simp, hback,
      .subject rfl (.dict hopening hclosing .none hspells), id, ?_⟩
    rw [everywhere_plainSubject_iff rfl, unmarked, unmarked, dict.injEq]
    simp only [true_and, hsames, children, List.mem_flatMap, List.mem_cons, List.not_mem_nil,
      or_false]
    constructor
    · rintro hbelow child ⟨pair, hpair, rfl | rfl⟩
      · exact (hbelow pair hpair).1
      · exact (hbelow pair hpair).2
    · exact fun hbelow pair hpair =>
        ⟨hbelow _ ⟨pair, hpair, .inl rfl⟩, hbelow _ ⟨pair, hpair, .inr rfl⟩⟩

end Collections

/-! ## Operations in parentheses -/

section Groups

variable {Mark : Type} {mark : Mark}

/-- Tokens that start with the words of an operation and a closing parenthesis spell it there. -/
def RereadsInside (expr : Expr Mark) (inner : Writer) : Prop :=
  ∀ ⦃tokens more⦄, tokens.map Token.word = inner (Word.symbol .rightParen :: more) →
    ∃ front closing back reading, tokens = front ++ closing :: back ∧ closing.kind = .rightParen ∧
      back.map Token.word = more ∧
      Spells .required .standard (.expr .conditional reading) front ∧
      reading.isSpread = false ∧ reading.isBool = false ∧
      (reading.unmarked = expr.unmarked ↔ ∀ child ∈ expr.children, child.Everywhere PlainSubject)

theorem core_of_not_isSpread {expr : Expr Mark} (hspread : expr.isSpread = false) :
    expr.core = expr := by
  cases expr with
  | spread | namedSpread => cases hspread
  | _ => rfl

/-- What is written in parentheses is read back if what stands between them is. -/
theorem rereads_group {expr : Expr Mark} (inner : Writer)
    (hwriter : expr.writer = all [symbol .leftParen, inner, symbol .rightParen])
    (hinner : RereadsInside expr inner) (hsubject : expr.subject? = none) : Rereads expr := by
  intro tokens more htokens _
  rw [hwriter] at htokens
  obtain ⟨opening, rest, rfl, hopening, -, hrest⟩ := exists_token_of_map htokens
  obtain ⟨front, closing, back, reading, rfl, hclosing, hback, hspells, hspread, hbool, hsame⟩ :=
    hinner hrest
  refine ⟨opening :: (front ++ [closing]), back, reading, by simp, hback,
    .subject hspread (.group hopening hclosing hspells), ?_, ?_⟩
  · rw [core_of_not_isSpread hspread, hbool]
    exact fun hcontra => absurd hcontra (by simp)
  · rwa [everywhere_plainSubject_iff hsubject]

/-- Every operation is written in parentheses, so nothing binds its operands more tightly. -/
theorem rereads_binary {op : BinaryOp} {left right : Expr Mark} (hleft : Rereads left)
    (hright : Rereads right) : Rereads (binary mark op left right) := by
  refine rereads_group (all [left.writer, word op.kind op.symbol, right.writer]) rfl ?_ rfl
  intro tokens more htokens
  obtain ⟨first, token, rest, left', rfl, hkind, htext, hrest, hfirst, hleftSame⟩ :=
    hleft.apart htokens (by cases op <;> decide)
  obtain ⟨second, closing, back, right', rfl, hclosing, -, hback, hsecond, hrightSame⟩ :=
    hright.apart hrest (by decide)
  have hspells : Spells .required .standard (.expr op.level (.binary token op left' right'))
      (first ++ token :: second) :=
    .binary ⟨hkind, fun _ => htext⟩ (hfirst.loosen (by cases op <;> decide))
      (hsecond.loosen (by cases op <;> decide))
  refine ⟨first ++ token :: second, closing, back, _, by simp, hclosing, hback,
    hspells.loosen (by cases op <;> decide), rfl, rfl, ?_⟩
  simp [unmarked, children, hleftSame, hrightSame]

theorem rereads_negation {operand : Expr Mark} (hoperand : Rereads operand) :
    Rereads (negation mark operand) := by
  refine rereads_group (all [word .name "not", operand.writer]) rfl ?_ rfl
  intro tokens more htokens
  obtain ⟨word, rest, rfl, hkind, htext, hrest⟩ := exists_token_of_map htokens
  obtain ⟨front, closing, back, reading, rfl, hclosing, -, hback, hfront, hsame⟩ :=
    hoperand.apart hrest (by decide)
  have hspells : Spells .required .standard (.expr .negation (.negation word reading))
      (word :: front) :=
    .negation (Token.isName_iff.2 ⟨hkind, by simp [htext]⟩) (hfront.loosen (by decide))
  refine ⟨word :: front, closing, back, _, rfl, hclosing, hback, hspells.loosen (by decide), rfl,
    rfl, ?_⟩
  simp [unmarked, children, hsame]

theorem rereads_signed {sign : Sign} {operand : Expr Mark} (hoperand : Rereads operand) :
    Rereads (signed mark sign operand) := by
  refine rereads_group (all [symbol sign.kind, operand.writer]) rfl ?_ rfl
  intro tokens more htokens
  obtain ⟨token, rest, rfl, hkind, -, hrest⟩ := exists_token_of_map htokens
  obtain ⟨front, closing, back, reading, rfl, hclosing, -, hback, hfront, hsame⟩ :=
    hoperand.apart hrest (by decide)
  have hspells : Spells .required .standard (.expr .sign (.signed token sign reading))
      (token :: front) :=
    .signed hkind (hfront.loosen (by decide))
  refine ⟨token :: front, closing, back, _, rfl, hclosing, hback, hspells.loosen (by decide), rfl,
    rfl, ?_⟩
  simp [unmarked, children, hsame]

/-- A label is a token that may name a test. -/
theorem IsLabel.kind_notMem {label : String} (hlabel : IsLabel label) :
    labelKind label ∉ [Kind.eof, .data, .variableBegin, .variableEnd] := by
  obtain ⟨first, tail, -, -, hread⟩ := hlabel.word
  exact Lexeme.kind_of_read hread

/-- A test is written with its label, which must be a single word, and with its argument if it has
one. -/
theorem rereads_test {subject : Expr Mark} {label : String} {argument : Option (Expr Mark)}
    (hsubject : Rereads subject) (hargument : ∀ expr ∈ argument, Rereads expr)
    (hwritable : (test mark subject label argument).Writable) (hlabel : label ≠ "not") :
    Rereads (test mark subject label argument) := by
  refine rereads_group
    (all [subject.writer, word .name "is", word (labelKind label) label, optionWriter id argument])
    rfl ?_ rfl
  intro tokens more htokens
  obtain ⟨first, is, named, subject', rfl, hisKind, hisText, hnamed, hfirst, hsubjectSame⟩ :=
    hsubject.apart htokens (by decide)
  obtain ⟨name, rest, rfl, hkind, rfl, hrest⟩ := exists_token_of_map hnamed
  have his : is.isName ["is"] := Token.isName_iff.2 ⟨hisKind, by simp [hisText]⟩
  have hnot : ¬ name.isName ["not"] := by
    rw [Token.isName_iff]
    simp [hlabel]
  have hkinds := IsLabel.kind_notMem hwritable.1
  simp only [← hkind, List.mem_cons, List.not_mem_nil, or_false, not_or] at hkinds
  obtain ⟨second, closing, back, argument', rfl, hclosing, hback, hsecond, hargumentSame⟩ :
      ∃ second closing back argument', rest = second ++ closing :: back ∧
        closing.kind = .rightParen ∧ back.map Token.word = more ∧
        Spells .required .standard (.testArgument name.text argument') second ∧
        (unmarkedOption argument' = unmarkedOption argument ↔
          ∀ expr ∈ argument, expr.Everywhere PlainSubject) := by
    cases argument with
    | none =>
      obtain ⟨closing, back, rfl, hclosing, -, hback⟩ := exists_token_of_map hrest
      exact ⟨[], closing, back, none, rfl, hclosing, hback, .noArgument hwritable.2.symm,
        by simp [unmarkedOption]⟩
    | some argument =>
      obtain ⟨second, closing, back, reading, rfl, hclosing, -, hback, hsecond, hsame⟩ :=
        (hargument argument rfl).apart hrest (by decide)
      exact ⟨second, closing, back, some reading, rfl, hclosing, hback,
        .oneArgument hwritable.2.symm hsecond, by simpa [unmarkedOption] using hsame⟩
  have hspells : Spells .required .standard (.expr .test (.test name subject' name.text argument'))
      (first ++ is :: name :: second) :=
    .test his hkinds.1 hkinds.2.2.2 hnot (hfirst.loosen (by decide)) hsecond
  refine ⟨first ++ is :: name :: second, closing, back, _, by simp, hclosing, hback,
    hspells.loosen (by decide), rfl, rfl, ?_⟩
  simp [unmarked, children, hsubjectSame, hargumentSame]

theorem rereads_filter {subject : Expr Mark} {label : String} {positional : List (Expr Mark)}
    {named : List (String × Expr Mark)} (hsubject : Rereads subject)
    (hbelow : ∀ value ∈ positional ++ named.map Prod.snd, Rereads value)
    (hwritable : (filter mark subject label positional named).Writable) :
    Rereads (filter mark subject label positional named) := by
  refine rereads_group
    (all [subject.writer, symbol .pipe, word .name label,
      if positional.isEmpty && named.isEmpty then id
      else all [symbol .leftParen, separated (itemWriters positional ++ namedWriters named),
        symbol .rightParen]]) rfl ?_ rfl
  intro tokens more htokens
  obtain ⟨first, pipe, labelled, subject', rfl, hpipe, -, hlabelled, hfirst, hsubjectSame⟩ :=
    hsubject.apart htokens (by decide)
  obtain ⟨name, rest, rfl, hname, rfl, hrest⟩ := exists_token_of_map hlabelled
  obtain ⟨second, closing, back, values, rfl, hclosing, hback, hsecond, hsames⟩ :
      ∃ second closing back values, rest = second ++ closing :: back ∧
        closing.kind = .rightParen ∧ back.map Token.word = more ∧
        Spells .required .standard (.filterArguments values) second ∧
        (unmarkedItems values.positional = unmarkedItems positional ∧
          unmarkedNamed values.named = unmarkedNamed named ↔
          ∀ value ∈ positional ++ named.map Prod.snd, value.Everywhere PlainSubject) := by
    by_cases hempty : positional.isEmpty && named.isEmpty
    · rw [if_pos hempty] at hrest
      obtain ⟨closing, back, rfl, hclosing, -, hback⟩ := exists_token_of_map hrest
      obtain ⟨rfl, rfl⟩ : positional = [] ∧ named = [] := by simpa using hempty
      exact ⟨[], closing, back, {}, rfl, hclosing, hback, .bareFilter,
        by simp [unmarkedItems, unmarkedNamed]⟩
    · rw [if_neg hempty] at hrest
      obtain ⟨opening, rest, rfl, hopening, -, hrest⟩ := exists_token_of_map hrest
      obtain ⟨inner, rest, values, rfl, hrest, hinner, hsames⟩ :=
        rereads_argumentList hbelow hwritable.2.2 hwritable.2.1 hrest
      obtain ⟨closing, back, rfl, hclosing, -, hback⟩ := exists_token_of_map hrest
      exact ⟨opening :: inner, closing, back, values, rfl, hclosing, hback,
        .filterCall hopening hinner, hsames⟩
  have hspells : Spells .required .standard
      (.expr .filter (.filter name subject' name.text values.positional values.named))
      (first ++ pipe :: name :: second) :=
    .filter hpipe hname (hfirst.loosen (by decide)) hsecond
  refine ⟨first ++ pipe :: name :: second, closing, back, _, by simp, hclosing, hback,
    hspells.loosen (by decide), rfl, rfl, ?_⟩
  rw [unmarked, unmarked, filter.injEq, hsubjectSame, children, List.forall_mem_cons, ← hsames]
  simp

/-- A condition without an alternative is written without one. -/
theorem rereads_conditional {condition consequent : Expr Mark} {alternative : Option (Expr Mark)}
    (hcondition : Rereads condition) (hconsequent : Rereads consequent)
    (halternative : ∀ expr ∈ alternative, Rereads expr) :
    Rereads (conditional mark condition consequent alternative) := by
  refine rereads_group
    (all [consequent.writer, word .name "if", condition.writer,
      optionWriter (word .name "else") alternative]) rfl ?_ rfl
  intro tokens more htokens
  obtain ⟨first, token, rest, consequent', rfl, hkind, htext, hrest, hfirst, hfirstSame⟩ :=
    hconsequent.apart htokens (by decide)
  have htoken : token.isName ["if"] := Token.isName_iff.2 ⟨hkind, by simp [htext]⟩
  cases alternative with
  | none =>
    obtain ⟨second, closing, back, condition', rfl, hclosing, -, hback, hsecond, hsecondSame⟩ :=
      hcondition.apart hrest (by decide)
    refine ⟨first ++ token :: second, closing, back, _, by simp, hclosing, hback,
      .conditional htoken (hfirst.loosen (by decide)) (hsecond.loosen (by decide)), rfl, rfl, ?_⟩
    simp [unmarked, unmarkedOption, children, hfirstSame, hsecondSame, and_comm]
  | some alternative =>
    obtain ⟨second, other, rest, condition', rfl, hkind', htext', hrest, hsecond, hsecondSame⟩ :=
      hcondition.apart hrest (by decide)
    have hother : other.isName ["else"] := Token.isName_iff.2 ⟨hkind', by simp [htext']⟩
    obtain ⟨third, closing, back, alternative', rfl, hclosing, -, hback, hthird, hthirdSame⟩ :=
      (halternative alternative rfl).apart hrest (by decide)
    refine ⟨first ++ token :: (second ++ other :: third), closing, back, _, by simp, hclosing,
      hback, .alternative htoken hother (hfirst.loosen (by decide)) (hsecond.loosen (by decide))
        (hthird.loosen (by decide)), rfl, rfl, ?_⟩
    simp [unmarked, unmarkedOption, children, hfirstSame, hsecondSame, hthirdSame, and_left_comm]

end Groups

/-! ## Spread markers -/

section Spreads

variable {Mark : Type} {mark : Mark}

theorem subjectWriter_head {subject : Expr Mark} {more : List Word}
    (hsubject : ∃ word words, subject.writer more = word :: words ∧
      word.kind ≠ .mul ∧ word.kind ≠ .pow) :
    ∃ word words, subjectWriter subject subject.writer more = word :: words ∧
      word.kind ≠ .mul ∧ word.kind ≠ .pow := by
  cases subject with
  | integer => exact ⟨_, _, rfl, nofun, nofun⟩
  | _ => exact hsubject

/-- The first word of an expression without markers in front is no star. -/
theorem writer_head {expr : Expr Mark} (hstar : expr.startsWithStar = false) (more : List Word) :
    ∃ word words, expr.writer more = word :: words ∧ word.kind ≠ .mul ∧ word.kind ≠ .pow := by
  induction expr using startsWithStar.induct generalizing more with
  | case1 | case2 => cases hstar
  | case3 _ subject _ ih | case4 _ subject _ ih | case5 _ subject _ _ ih
  | case6 _ subject _ _ ih => exact subjectWriter_head (ih hstar _)
  | case7 expr hspread hnamedSpread hmember hsubscript hslice hcall =>
    cases expr with
    | integer _ value =>
      rw [writer]
      fun_cases numeralBefore (Decimal.integerText value) more with
      | case1 | case2 | case3 => exact ⟨_, _, rfl, nofun, nofun⟩
    | spread | namedSpread => cases hstar
    | member => exact absurd rfl (hmember _ _ _)
    | subscript => exact absurd rfl (hsubscript _ _ _)
    | slice => exact absurd rfl (hslice _ _ _ _)
    | call => exact absurd rfl (hcall _ _ _ _)
    | _ => exact ⟨_, _, rfl, nofun, nofun⟩

/-- A spread marker must not meet another star. -/
theorem rereads_spread {operand : Expr Mark} (hoperand : Rereads operand)
    (hstar : operand.startsWithStar = false) : Rereads (spread mark operand) := by
  intro tokens more htokens happart
  obtain ⟨word, words, hwords, hkind⟩ := writer_head hstar more
  have hplain : (spread mark operand).writer more = Word.symbol .mul :: operand.writer more := by
    rw [writer, Function.comp_apply, hwords, starBefore]
    split
    · next hmul => exact absurd hmul hkind.1
    · next hpow => exact absurd hpow hkind.2
    · rfl
  rw [hplain] at htokens
  obtain ⟨marker, rest, rfl, hmarker, -, hrest⟩ := exists_token_of_map htokens
  obtain ⟨front, back, reading, rfl, hback, hmarked, hbool, hsame⟩ := hoperand hrest happart
  refine ⟨marker :: front, back, _, rfl, hback, .spread hmarker hmarked, hbool, ?_⟩
  rw [everywhere_plainSubject_iff rfl]
  simp [unmarked, children, hsame]

theorem rereads_namedSpread {operand : Expr Mark} (hoperand : Rereads operand) :
    Rereads (namedSpread mark operand) := by
  intro tokens more htokens happart
  obtain ⟨marker, rest, rfl, hmarker, -, hrest⟩ := exists_token_of_map htokens
  obtain ⟨front, back, reading, rfl, hback, hmarked, hbool, hsame⟩ := hoperand hrest happart
  refine ⟨marker :: front, back, _, rfl, hback, .namedSpread hmarker hmarked, hbool, ?_⟩
  rw [everywhere_plainSubject_iff rfl]
  simp [unmarked, children, hsame]

end Spreads

/-! ## Whole expressions -/

/-- Tokens with the words of an expression are a spelling of it, up to the postfix forms behind
spreads. -/
theorem rereads {Mark : Type} {expr : Expr Mark} (hwritable : expr.Everywhere Writable)
    (hintact : expr.Everywhere Intact) : Rereads expr := by
  induction hwritable with
  | @node expr hnode _ ih =>
  have hbelow (child : Expr Mark) (hchild : child ∈ expr.children) : Rereads child :=
    ih child hchild (hintact.child hchild)
  have hroot := hintact.root
  cases expr with
  | integer => exact rereads_integer hnode
  | float => exact rereads_float hnode.1 hnode.2
  | string => exact rereads_string hnode
  | bool => exact rereads_bool
  | name => exact rereads_name hnode
  | list => exact rereads_list hbelow
  | tuple => exact rereads_tuple hbelow
  | dict =>
    exact rereads_dict fun pair hpair =>
      ⟨hbelow _ (mem_children_dict hpair).1, hbelow _ (mem_children_dict hpair).2⟩
  | member => exact rereads_member (hbelow _ (by simp [children])) hroot
  | subscript =>
    exact rereads_subscript (hbelow _ (by simp [children])) (hbelow _ (by simp [children])) hroot
  | slice =>
    refine rereads_slice (hbelow _ (by simp [children])) ?_ ?_ hroot
    · exact fun expr hexpr => hbelow expr (by simp [children, Option.mem_def.1 hexpr])
    · exact fun expr hexpr => hbelow expr (by simp [children, Option.mem_def.1 hexpr])
  | call =>
    exact rereads_call (hbelow _ (by simp [children]))
      (fun value hvalue => hbelow value (List.mem_cons_of_mem _ hvalue)) hnode hroot
  | binary => exact rereads_binary (hbelow _ (by simp [children])) (hbelow _ (by simp [children]))
  | negation => exact rereads_negation (hbelow _ (by simp [children]))
  | signed => exact rereads_signed (hbelow _ (by simp [children]))
  | test =>
    refine rereads_test (hbelow _ (by simp [children])) ?_ hnode hroot.2
    exact fun expr hexpr => hbelow expr (by simp [children, Option.mem_def.1 hexpr])
  | filter =>
    exact rereads_filter (hbelow _ (by simp [children]))
      (fun value hvalue => hbelow value (List.mem_cons_of_mem _ hvalue)) hnode
  | conditional =>
    refine rereads_conditional (hbelow _ (by simp [children])) (hbelow _ (by simp [children])) ?_
    exact fun expr hexpr => hbelow expr (by simp [children, Option.mem_def.1 hexpr])
  | spread => exact rereads_spread (hbelow _ (by simp [children])) hroot.2
  | namedSpread => exact rereads_namedSpread (hbelow _ (by simp [children]))

end Stencil.Expr
