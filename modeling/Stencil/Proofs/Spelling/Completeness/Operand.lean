import Stencil.Grammar.Document
import Stencil.Proofs.Spelling.Levels

/-!
# Operands are read back

Literals, brackets, arguments, postfix forms, markers and filters, each by its own rule, if the rule
for the nested expressions reads what stands inside.  No rule may take a token that belongs to what
comes behind it, which is why the rest of the stream has to stop the loops.
-/

namespace Stencil.Grammar

open Rule

variable {dialect : Dialect} {expression : ExprRule} {rest after : TokenStream}
variable {value : Expr Token} {token : Token} {tokens more : List Token}

/-- Which kinds join something to what stands before them can be decided kind by kind. -/
theorem joins?_eq_none_of_kind {stream : TokenStream} {kinds : List Kind}
    (hkind : stream.current.kind ∈ kinds)
    (hkinds : ∀ kind ∈ kinds, kind ≠ .name ∧ kind.joins? = none) :
    stream.current.joins? = none := by
  obtain ⟨hname, hjoins⟩ := hkinds _ hkind
  rw [Token.joins?_of_kind hname, hjoins]

/-- Closing brackets and punctuation join nothing. -/
theorem stops_of_kind {level : Level}
    (hkind : rest.current.kind ∈
      [Kind.comma, .colon, .assign, .rightParen, .rightBracket, .rightBrace, .eof]) :
    rest.Stops level :=
  TokenStream.stops_of_joins?_eq_none (joins?_eq_none_of_kind hkind (by decide))

/-! ## Literals and names -/

section Literals

/-- A subject is read together with the forms behind it, since each of them may go on with another.
-/
theorem readsAt_subject
    (hreads : ∀ ⦃after result rest⦄, Repeats (postfixForm? expression) value after result rest →
      Reads (plainOperand expression) (after.prepend tokens) result rest) :
    ReadsAt dialect expression .subject value tokens :=
  fun _ _ _ _ hrepeats => hreads hrepeats

theorem ReadsAt.plainOperand {result : Expr Token}
    (hreads : ReadsAt dialect expression .subject value tokens)
    (hrepeats : Repeats (postfixForm? expression) value after result rest) :
    Reads (plainOperand expression) (after.prepend tokens) result rest := by
  refine hreads ?_ hrepeats
  intro joined _
  cases joined <;> decide

/-- The rule for the operands, postfix forms apart, that start with a token of the kind. -/
def literalOf? (expression : ExprRule) : Kind → Option ExprRule
  | .integer | .float => some number
  | .string => some string
  | .leftParen => some (group expression)
  | .leftBracket => some (list expression)
  | .leftBrace => some (dict expression)
  | _ => none

/-- Every operand but a name has a rule of its own, which is chosen by its first token. -/
theorem readsAt_literal {literal : ExprRule}
    (hliteral : literalOf? expression token.kind = some literal)
    (hreads : ∀ rest, Reads literal (rest.prepend (token :: tokens)) value rest) :
    ReadsAt dialect expression .subject value (token :: tokens) := by
  refine readsAt_subject fun after result rest hrepeats => ?_
  refine Reads.bind (reads_current.2 ⟨rfl, rfl⟩) ?_
  have hpostfix : Reads (withPostfix expression literal) (after.prepend (token :: tokens)) result
      rest := (hreads after).bind hrepeats.reads
  rw [TokenStream.current_prepend_cons]
  cases hkind : token.kind <;> rw [hkind] at hliteral <;> cases hliteral <;> exact hpostfix

theorem readsAt_integer {number : Int64} (hkind : token.kind = .integer)
    (hnumber : Decimal.readInteger token.text = .ok number) :
    ReadsAt dialect expression .subject (.integer token number) [token] := by
  refine readsAt_literal (by rw [hkind]; rfl) fun rest => (reads_pop_prepend token [] rest).bind ?_
  simp only [hkind, hnumber, if_true]
  exact reads_pure.2 ⟨rfl, rfl⟩

/-- A float token is read back if its value is finite. -/
theorem readsAt_float {number : Float} (hkind : token.kind = .float)
    (hnumber : Decimal.readFloat token.text = .ok number) (hfinite : number.isFinite) :
    ReadsAt dialect expression .subject (.float token number) [token] := by
  refine readsAt_literal (by rw [hkind]; rfl) fun rest => (reads_pop_prepend token [] rest).bind ?_
  simp only [hkind, reduceCtorEq, hnumber, hfinite, if_true, if_false]
  exact reads_pure.2 ⟨rfl, rfl⟩

theorem readsAt_string (hkind : token.kind = .string) :
    ReadsAt dialect expression .subject (.string token (unescape token.text)) [token] :=
  readsAt_literal (by rw [hkind]; rfl) fun rest =>
    (reads_pop_prepend token [] rest).bind (reads_pure.2 ⟨rfl, rfl⟩)

/-- A name is read back unless it is a boolean value or a reserved word. -/
theorem readsAt_name (hkind : token.kind = .name) (hboolean : booleanValue? token.text = none)
    (hreserved : token.text ∉ reservedNames) :
    ReadsAt dialect expression .subject (.name token token.text) [token] := by
  refine readsAt_subject fun after result rest hrepeats => ?_
  refine Reads.bind (reads_current.2 ⟨rfl, rfl⟩) ?_
  simp only [TokenStream.current_prepend_cons, hkind]
  refine (reads_pop_prepend token [] after).bind ?_
  simp only [hboolean, hreserved, if_false]
  exact hrepeats.reads

/-- A boolean value is read back without any form behind it. -/
theorem reads_plainOperand_bool {answer : Bool} (hkind : token.kind = .name)
    (hboolean : booleanValue? token.text = some answer) :
    Reads (plainOperand expression) (rest.prepend [token]) (.bool token answer) rest := by
  refine Reads.bind (reads_current.2 ⟨rfl, rfl⟩) ?_
  simp only [TokenStream.current_prepend_cons, hkind]
  refine (reads_pop_prepend token [] rest).bind ?_
  simp only [hboolean]
  exact reads_pure.2 ⟨rfl, rfl⟩

end Literals

/-! ## Markers in front -/

section Markers

/-- Without markers in front, an operand is read as it is. -/
theorem reads_operand (hkind : (rest.prepend tokens).current.kind ∉ [Kind.mul, .pow])
    (hreads : Reads (plainOperand expression) (rest.prepend tokens) value rest) :
    Reads (operand expression) (rest.prepend tokens) value rest :=
  (reads_takeAll_nil hkind).bind (hreads.bind (reads_pure.2 ⟨rfl, rfl⟩))

/-- A marker in front of an operand is read before the other ones. -/
theorem reads_operand_marker {stream : TokenStream} (hkind : token.kind ∈ [Kind.mul, .pow])
    (hreads : Reads (operand expression) stream value rest) :
    Reads (operand expression) (stream.prepend [token]) (spreadBy token value) rest := by
  obtain ⟨markers, between, hmarkers, hnext⟩ := reads_bind.1 hreads
  obtain ⟨subject, last, hsubject, hdone⟩ := reads_bind.1 hnext
  obtain ⟨rfl, rfl⟩ := reads_pure.1 hdone
  exact (reads_takeAll_cons hkind hmarkers).bind (hsubject.bind (reads_pure.2 ⟨rfl, rfl⟩))

theorem reads_signed (hkind : (rest.prepend tokens).current.kind ∉ [Kind.sub, .add])
    (hreads : Reads (ruleAt dialect expression .filter) (rest.prepend tokens) value rest) :
    Reads (signed expression) (rest.prepend tokens) value rest := by
  obtain ⟨subject, between, hsubject, hfilters⟩ := reads_bind.1 hreads
  exact (reads_takeAll_nil hkind).bind
    (hsubject.bind (hfilters.bind (reads_pure.2 ⟨rfl, rfl⟩)))

theorem reads_signed_sign {stream : TokenStream} (hkind : token.kind ∈ [Kind.sub, .add])
    (hreads : Reads (signed expression) stream value rest) :
    Reads (signed expression) (stream.prepend [token]) (signedBy token value) rest := by
  obtain ⟨signs, between, hsigns, hnext⟩ := reads_bind.1 hreads
  obtain ⟨subject, after, hsubject, hrest⟩ := reads_bind.1 hnext
  obtain ⟨filtered, last, hfilters, hdone⟩ := reads_bind.1 hrest
  obtain ⟨rfl, rfl⟩ := reads_pure.1 hdone
  exact (reads_takeAll_cons hkind hsigns).bind
    (hsubject.bind (hfilters.bind (reads_pure.2 ⟨rfl, rfl⟩)))

theorem reads_negation (hword : ¬ (rest.prepend tokens).current.isName ["not"])
    (hreads : Reads (comparison dialect expression) (rest.prepend tokens) value rest) :
    Reads (negation dialect expression) (rest.prepend tokens) value rest :=
  (reads_takeAllNames_nil hword).bind (hreads.bind (reads_pure.2 ⟨rfl, rfl⟩))

/-- A negating word in front of a negation is read before the other ones. -/
theorem reads_negation_word {stream : TokenStream} (hword : token.isName ["not"])
    (hreads : Reads (negation dialect expression) stream value rest) :
    Reads (negation dialect expression) (stream.prepend [token]) (.negation token value) rest := by
  obtain ⟨words, between, hwords, hnext⟩ := reads_bind.1 hreads
  obtain ⟨subject, last, hsubject, hdone⟩ := reads_bind.1 hnext
  obtain ⟨rfl, rfl⟩ := reads_pure.1 hdone
  exact (reads_takeAllNames_cons hword hwords).bind (hsubject.bind (reads_pure.2 ⟨rfl, rfl⟩))

end Markers

/-! ## Brackets -/

section Brackets

variable {opening closing : Token} {comma : List Token} {kind : Kind}
variable {values : List (Expr Token)} {pairs : List (Expr Token × Expr Token)}

/-- What follows the last item is a closing token, perhaps behind a comma. -/
theorem stops_of_optionalComma {level : Level} (hcomma : OptionalComma comma)
    (hclosing : closing.kind ∈ [Kind.rightParen, .rightBracket, .rightBrace]) :
    (rest.prepend (comma ++ [closing])).Stops level := by
  apply stops_of_kind
  cases hcomma with
  | none =>
    simp only [List.nil_append, TokenStream.current_prepend_cons]
    revert hclosing
    generalize closing.kind = kind
    revert kind
    decide
  | comma hkind => simp [hkind]

/-- The loop over the items ends at the closing bracket, whether or not a comma stands before it. -/
theorem repeats_nextItem (hcomma : OptionalComma comma) (hclosing : closing.kind = kind)
    (hkind : kind ≠ .comma) :
    Repeats (nextItem expression kind) (values, false) (rest.prepend (comma ++ [closing]))
      (values, !comma.isEmpty) (rest.prepend [closing]) := by
  have hstop : ∀ found, Reads (nextItem expression kind found) (rest.prepend [closing]) none
      (rest.prepend [closing]) := fun found =>
    (reads_take?_none (by simp [hclosing, hkind])).bind (reads_pure.2 ⟨rfl, rfl⟩)
  cases hcomma with
  | none => exact .stop (hstop _)
  | @comma token htoken =>
    have hnext : Reads (nextItem expression kind (values, false)) (rest.prepend [token, closing])
        (some (values, true)) (rest.prepend [closing]) := by
      refine (reads_take?_some (by simp [htoken])).bind ((reads_sees.2 ⟨rfl, rfl⟩).bind ?_)
      simp only [TokenStream.current_prepend_cons, hclosing, List.mem_singleton, decide_true,
        if_true]
      exact reads_pure.2 ⟨rfl, rfl⟩
    exact .next hnext (by simp) (.stop (hstop _))

theorem repeats_nextPair (hcomma : OptionalComma comma) (hclosing : closing.kind = .rightBrace) :
    Repeats (nextPair expression) pairs (rest.prepend (comma ++ [closing])) pairs
      (rest.prepend [closing]) := by
  have hstop : Reads (nextPair expression pairs) (rest.prepend [closing]) none
      (rest.prepend [closing]) :=
    (reads_take?_none (by simp [hclosing])).bind (reads_pure.2 ⟨rfl, rfl⟩)
  cases hcomma with
  | none => exact .stop hstop
  | @comma token htoken =>
    have hnext : Reads (nextPair expression pairs) (rest.prepend [token, closing]) (some pairs)
        (rest.prepend [closing]) := by
      refine (reads_take?_some (by simp [htoken])).bind ((reads_sees.2 ⟨rfl, rfl⟩).bind ?_)
      simp only [TokenStream.current_prepend_cons, hclosing, List.mem_singleton, decide_true,
        if_true]
      exact reads_pure.2 ⟨rfl, rfl⟩
    exact .next hnext (by simp) (.stop hstop)

theorem reads_take?_none_of_starts {level : Level} {kinds : List Kind}
    (hstarts : token.Starts level) (hkinds : ∀ kind ∈ kinds, kind ∉ startKinds) :
    Reads (take? kinds) (rest.prepend (token :: tokens)) none (rest.prepend (token :: tokens)) :=
  reads_take?_none (hstarts.kind_notMem hkinds)

/-- What stands between parentheses is read back as the subject that it is, without a node for them.
-/
theorem readsAt_group (hopening : opening.kind = .leftParen) (hclosing : closing.kind = .rightParen)
    {level : Level} (hstarts : ∃ token rest, tokens = token :: rest ∧ token.Starts level)
    (hreads : ∀ rest : TokenStream, rest.Stops .conditional →
      Reads expression (rest.prepend tokens) value rest) :
    ReadsAt dialect expression .subject value (opening :: (tokens ++ [closing])) := by
  obtain ⟨first, more, rfl, hstarts⟩ := hstarts
  refine readsAt_literal (by rw [hopening]; rfl) fun rest => (reads_pop_prepend _ _ rest).bind ?_
  refine (reads_take?_none_of_starts hstarts (by decide)).bind ?_
  have hitems : Reads (items expression .rightParen)
      (rest.prepend (first :: (more ++ [closing]))) ([value], false) (rest.prepend [closing]) := by
    have hfirst := hreads (rest.prepend [closing]) (stops_of_kind (by simp [hclosing]))
    simp only [TokenStream.prepend_prepend, List.cons_append] at hfirst
    exact hfirst.bind (repeats_nextItem .none hclosing (by decide)).reads
  exact hitems.bind ((reads_expect hclosing).bind (reads_pure.2 ⟨rfl, rfl⟩))

theorem readsAt_emptyTuple (hopening : opening.kind = .leftParen)
    (hclosing : closing.kind = .rightParen) :
    ReadsAt dialect expression .subject (.tuple opening []) [opening, closing] := by
  refine readsAt_literal (by rw [hopening]; rfl) fun rest => (reads_pop_prepend _ _ rest).bind ?_
  refine (reads_take?_some (List.mem_singleton.2 hclosing)).bind ?_
  exact reads_pure.2 ⟨rfl, rfl⟩

theorem readsAt_emptyList (hopening : opening.kind = .leftBracket)
    (hclosing : closing.kind = .rightBracket) :
    ReadsAt dialect expression .subject (.list opening []) [opening, closing] := by
  refine readsAt_literal (by rw [hopening]; rfl) fun rest => (reads_pop_prepend _ _ rest).bind ?_
  refine (reads_take?_some (List.mem_singleton.2 hclosing)).bind ?_
  exact reads_pure.2 ⟨rfl, rfl⟩

/-- The loop over the items starts with some of them read. -/
def ReadsItems (expression : ExprRule) (values : List (Expr Token)) (tokens : List Token) : Prop :=
  ∀ ⦃kind after result rest⦄, kind ∈ [Kind.rightParen, .rightBracket] → after.Stops .conditional →
    Repeats (nextItem expression kind) (values, false) after result rest →
    Reads (items expression kind) (after.prepend tokens) result rest

theorem readsItems_one
    (hreads : ∀ rest : TokenStream, rest.Stops .conditional →
      Reads expression (rest.prepend tokens) value rest) :
    ReadsItems expression [value] tokens :=
  fun _ after _ _ _ hstops hrepeats => (hreads after hstops).bind hrepeats.reads

theorem readsItems_more {separator : Token} (hseparator : separator.kind = .comma)
    (hstarts : ∃ token rest, more = token :: rest ∧ token.Starts .conditional)
    (hitems : ReadsItems expression values tokens)
    (hreads : ∀ rest : TokenStream, rest.Stops .conditional →
      Reads expression (rest.prepend more) value rest) :
    ReadsItems expression (values ++ [value]) (tokens ++ separator :: more) := by
  intro kind after result rest hkind hstops hrepeats
  have hkinds : ∀ kind ∈ [Kind.rightParen, .rightBracket], ∀ seen ∈ [kind], seen ∉ startKinds := by
    decide
  have hvalue := hreads after hstops
  rw [← TokenStream.prepend_prepend]
  refine hitems hkind (stops_of_kind (by simp [hseparator])) (.next ?_ ?_ hrepeats)
  · refine (reads_take?_some (List.mem_singleton.2 hseparator)).bind ?_
    refine (reads_sees.2 ⟨rfl, rfl⟩).bind ?_
    obtain ⟨head, tail, rfl, hstarts⟩ := hstarts
    simp only [TokenStream.current_prepend_cons, hstarts.kind_notMem (hkinds kind hkind),
      decide_false, Bool.false_eq_true, if_false]
    exact hvalue.bind (reads_pure.2 ⟨rfl, rfl⟩)
  · simp only [TokenStream.upcoming_prepend, List.length_append, List.length_cons]
    omega

/-- Whether a comma stands behind the last item is read as well. -/
theorem ReadsItems.closed (hitems : ReadsItems expression values tokens)
    (hcomma : OptionalComma comma) (hclosing : closing.kind = kind)
    (hkind : kind ∈ [Kind.rightParen, .rightBracket]) (rest : TokenStream) :
    Reads (items expression kind) (rest.prepend (tokens ++ (comma ++ [closing])))
      (values, !comma.isEmpty) (rest.prepend [closing]) := by
  have hkinds : ∀ kind ∈ [Kind.rightParen, .rightBracket],
      kind ∈ [Kind.rightParen, .rightBracket, .rightBrace] ∧ kind ≠ .comma := by decide
  obtain ⟨hmem, hne⟩ := hkinds kind hkind
  rw [← TokenStream.prepend_prepend]
  exact hitems hkind (stops_of_optionalComma hcomma (hclosing ▸ hmem))
    (repeats_nextItem hcomma hclosing hne)

/-- A list is read back with a comma behind its last item or without one. -/
theorem readsAt_list (hopening : opening.kind = .leftBracket)
    (hclosing : closing.kind = .rightBracket) (hcomma : OptionalComma comma)
    {level : Level} (hstarts : ∃ token rest, tokens = token :: rest ∧ token.Starts level)
    (hitems : ReadsItems expression values tokens) :
    ReadsAt dialect expression .subject (.list opening values)
      (opening :: (tokens ++ (comma ++ [closing]))) := by
  refine readsAt_literal (by rw [hopening]; rfl) fun rest => (reads_pop_prepend _ _ rest).bind ?_
  have hclosed := hitems.closed hcomma hclosing (by decide) rest
  obtain ⟨first, more, rfl, hstarts⟩ := hstarts
  refine (reads_take?_none_of_starts hstarts (by decide)).bind ?_
  exact hclosed.bind ((reads_expect hclosing).bind (reads_pure.2 ⟨rfl, rfl⟩))

/-- A tuple of one item is read back only with a comma, since it would be a group without one. -/
theorem readsAt_tuple (hopening : opening.kind = .leftParen)
    (hclosing : closing.kind = .rightParen) (hcomma : OptionalComma comma)
    (hsingle : values.length = 1 → comma ≠ [])
    {level : Level} (hstarts : ∃ token rest, tokens = token :: rest ∧ token.Starts level)
    (hitems : ReadsItems expression values tokens) :
    ReadsAt dialect expression .subject (.tuple opening values)
      (opening :: (tokens ++ (comma ++ [closing]))) := by
  refine readsAt_literal (by rw [hopening]; rfl) fun rest => (reads_pop_prepend _ _ rest).bind ?_
  have hclosed := hitems.closed hcomma hclosing (by decide) rest
  obtain ⟨first, more, rfl, hstarts⟩ := hstarts
  refine (reads_take?_none_of_starts hstarts (by decide)).bind ?_
  refine hclosed.bind ((reads_expect hclosing).bind ?_)
  split
  · next item hvalues htrailing =>
    have hnil : comma = [] := by simpa using htrailing
    exact absurd hnil (hsingle rfl)
  · exact reads_pure.2 ⟨rfl, rfl⟩

/-- The loop over the pairs starts with some of them read. -/
def ReadsPairs (expression : ExprRule) (pairs : List (Expr Token × Expr Token))
    (tokens : List Token) : Prop :=
  ∀ ⦃after result rest⦄, after.Stops .conditional →
    Repeats (nextPair expression) pairs after result rest →
    ∃ first between, Reads (pair expression) (after.prepend tokens) first between ∧
      Repeats (nextPair expression) [first] between result rest

/-- The rule reads one pair where it stops. -/
def ReadsPair (expression : ExprRule) (entry : Expr Token × Expr Token) (tokens : List Token) :
    Prop :=
  ∀ ⦃rest : TokenStream⦄, rest.Stops .conditional →
    Reads (pair expression) (rest.prepend tokens) entry rest

/-- A key ends at the colon, and the value at what stops any expression. -/
theorem readsPair {key : Expr Token} {colon : Token} (hcolon : colon.kind = .colon)
    (hkey : ∀ rest : TokenStream, rest.Stops .conditional →
      Reads expression (rest.prepend tokens) key rest)
    (hvalue : ∀ rest : TokenStream, rest.Stops .conditional →
      Reads expression (rest.prepend more) value rest) :
    ReadsPair expression (key, value) (tokens ++ colon :: more) := by
  intro rest hstops
  rw [← TokenStream.prepend_prepend]
  exact (hkey _ (stops_of_kind (by simp [hcolon]))).bind
    ((reads_expect hcolon).bind ((hvalue rest hstops).bind (reads_pure.2 ⟨rfl, rfl⟩)))

theorem readsPairs_one {entry : Expr Token × Expr Token}
    (hpair : ReadsPair expression entry tokens) :
    ReadsPairs expression [entry] tokens :=
  fun after _ _ hstops hrepeats => ⟨entry, after, hpair hstops, hrepeats⟩

theorem readsPairs_more {separator : Token} {entry : Expr Token × Expr Token}
    (hseparator : separator.kind = .comma)
    (hstarts : ∃ token rest, more = token :: rest ∧ token.Starts .conditional)
    (hpairs : ReadsPairs expression pairs tokens) (hpair : ReadsPair expression entry more) :
    ReadsPairs expression (pairs ++ [entry]) (tokens ++ separator :: more) := by
  intro after result rest hstops hrepeats
  have hentry := hpair hstops
  rw [← TokenStream.prepend_prepend]
  refine hpairs (stops_of_kind (by simp [hseparator])) (.next ?_ ?_ hrepeats)
  · refine (reads_take?_some (List.mem_singleton.2 hseparator)).bind ?_
    refine (reads_sees.2 ⟨rfl, rfl⟩).bind ?_
    obtain ⟨head, tail, rfl, hstarts⟩ := hstarts
    have hbrace : head.kind ∉ [Kind.rightBrace] := hstarts.kind_notMem (by decide)
    simp only [TokenStream.current_prepend_cons, hbrace, decide_false, Bool.false_eq_true, if_false]
    exact hentry.bind (reads_pure.2 ⟨rfl, rfl⟩)
  · simp only [TokenStream.upcoming_prepend, List.length_append, List.length_cons]
    omega

theorem readsAt_emptyDict (hopening : opening.kind = .leftBrace)
    (hclosing : closing.kind = .rightBrace) :
    ReadsAt dialect expression .subject (.dict opening []) [opening, closing] := by
  refine readsAt_literal (by rw [hopening]; rfl) fun rest => (reads_pop_prepend _ _ rest).bind ?_
  refine (reads_sees.2 ⟨rfl, rfl⟩).bind ?_
  simp only [TokenStream.current_prepend_cons, hclosing, List.mem_singleton, decide_true, if_true]
  refine Reads.bind (reads_pure.2 ⟨rfl, rfl⟩) ?_
  exact (repeats_nextPair .none hclosing).reads.bind
    ((reads_expect hclosing).bind (reads_pure.2 ⟨rfl, rfl⟩))

theorem readsAt_dict (hopening : opening.kind = .leftBrace)
    (hclosing : closing.kind = .rightBrace) (hcomma : OptionalComma comma)
    {level : Level} (hstarts : ∃ token rest, tokens = token :: rest ∧ token.Starts level)
    (hpairs : ReadsPairs expression pairs tokens) :
    ReadsAt dialect expression .subject (.dict opening pairs)
      (opening :: (tokens ++ (comma ++ [closing]))) := by
  refine readsAt_literal (by rw [hopening]; rfl) fun rest => (reads_pop_prepend _ _ rest).bind ?_
  have hend : (rest.prepend (comma ++ [closing])).Stops .conditional :=
    stops_of_optionalComma hcomma (by simp [hclosing])
  obtain ⟨first, between, hfirst, hrepeats⟩ := hpairs hend (repeats_nextPair hcomma hclosing)
  rw [TokenStream.prepend_prepend] at hfirst
  obtain ⟨head, more, rfl, hstarts⟩ := hstarts
  have hbrace : head.kind ∉ [Kind.rightBrace] := hstarts.kind_notMem (by decide)
  refine (reads_sees.2 ⟨rfl, rfl⟩).bind ?_
  simp only [List.cons_append, TokenStream.current_prepend_cons, hbrace, decide_false,
    Bool.false_eq_true, if_false]
  refine Reads.bind hfirst (Reads.bind (reads_pure.2 ⟨rfl, rfl⟩) ?_)
  exact hrepeats.reads.bind ((reads_expect hclosing).bind (reads_pure.2 ⟨rfl, rfl⟩))

end Brackets

/-! ## Arguments and postfix forms -/

section Arguments

variable {values before between finished : ArgumentList} {opening closing : Token}
variable {gap : List Token}

/-- The rule reads the argument where a comma or the closing parenthesis comes next. -/
def ReadsArgument (expression : ExprRule) (before between : ArgumentList) (tokens : List Token) :
    Prop :=
  ∀ ⦃rest : TokenStream⦄, rest.current.kind ∈ [Kind.comma, .rightParen] →
    Reads (argument expression before) (rest.prepend tokens) between rest

/-- Nothing but the number of rounds bounds the arguments, and there is one for each token. -/
def ReadsArguments (expression : ExprRule) (before finished : ArgumentList) (tokens : List Token) :
    Prop :=
  ∀ (opening : Token) (bound : List Token) (rest : TokenStream), tokens.length ≤ bound.length →
    Reads (argumentsFrom expression opening bound before) (rest.prepend tokens) finished rest

def ReadsArgumentList (expression : ExprRule) (values : ArgumentList) (tokens : List Token) :
    Prop :=
  ∀ (opening : Token) (rest : TokenStream),
    Reads (arguments expression opening) (rest.prepend tokens) values rest

/-- An argument without an equals sign behind it is added to the positional ones. -/
theorem readsArgument_positional
    (hreads : ∀ rest : TokenStream, rest.Stops .conditional →
      Reads expression (rest.prepend tokens) value rest) :
    ReadsArgument expression before { before with positional := before.positional ++ [value] }
      tokens := by
  intro rest hkind
  have hkinds : ∀ kind ∈ [Kind.comma, .rightParen],
      kind ∈ [Kind.comma, .colon, .assign, .rightParen, .rightBracket, .rightBrace, .eof] ∧
        kind ∉ [Kind.assign] := by decide
  obtain ⟨hstops, hassign⟩ := hkinds _ hkind
  exact (hreads rest (stops_of_kind hstops)).bind
    ((reads_take?_none hassign).bind (reads_pure.2 ⟨rfl, rfl⟩))

theorem any_named_eq_false {key : String} (hfresh : key ∉ before.named.map Prod.fst) :
    (before.named.any fun (name, _) => name == key) = false := by
  rw [List.any_eq_false]
  rintro ⟨name, value⟩ hmem heq
  exact hfresh (List.mem_map.2 ⟨_, hmem, by simpa using heq⟩)

/-- A keyword that is not yet among the named arguments is added to them. -/
theorem readsArgument_named {assign : Token} {key : String} (hassign : assign.kind = .assign)
    (hfresh : key ∉ before.named.map Prod.fst)
    (hkey : ∀ rest : TokenStream, rest.Stops .conditional →
      Reads expression (rest.prepend tokens) (.name token key) rest)
    (hvalue : ∀ rest : TokenStream, rest.Stops .conditional →
      Reads expression (rest.prepend more) value rest) :
    ReadsArgument expression before { before with named := before.named ++ [(key, value)] }
      (tokens ++ assign :: more) := by
  intro rest hkind
  have hkinds : ∀ kind ∈ [Kind.comma, .rightParen],
      kind ∈ [Kind.comma, .colon, .assign, .rightParen, .rightBracket, .rightBrace, .eof] := by
    decide
  rw [← TokenStream.prepend_prepend]
  refine (hkey _ (stops_of_kind (by simp [hassign]))).bind ?_
  refine (reads_take?_some (List.mem_singleton.2 hassign)).bind ?_
  simp only [any_named_eq_false hfresh, Bool.false_eq_true, if_false]
  exact (hvalue rest (stops_of_kind (hkinds _ hkind))).bind (reads_pure.2 ⟨rfl, rfl⟩)

/-- One argument with the comma behind it; only a closing parenthesis makes up for the comma. -/
theorem reads_argumentsFrom {bound : List Token} {level : Level}
    (hstarts : ∃ token rest, tokens = token :: rest ∧ token.Starts level)
    (hargument : ReadsArgument expression before between tokens) (hgap : OptionalComma gap)
    (hnext : gap = [] → after.current.kind = .rightParen)
    (hrest : Reads (do
      match ← take? [.rightParen] with
      | some _ => return between
      | none => argumentsFrom expression opening bound between) after finished rest) :
    Reads (argumentsFrom expression opening (token :: bound) before)
      (after.prepend (tokens ++ gap)) finished rest := by
  have hfirst : Reads (argument expression before) (after.prepend (tokens ++ gap)) between
      (after.prepend gap) := by
    rw [← TokenStream.prepend_prepend]
    apply hargument
    cases hgap with
    | none => simp [hnext rfl]
    | comma hcomma => simp [hcomma]
  obtain ⟨head, tail, rfl, hstarts⟩ := hstarts
  refine (reads_refuse (hstarts.kind_notMem (by decide))).bind (hfirst.bind ?_)
  cases hgap with
  | none => exact (reads_take?_none (by simp [hnext rfl])).bind hrest
  | comma hcomma => exact (reads_take?_some (List.mem_singleton.2 hcomma)).bind hrest

/-- The arguments end with the parenthesis behind the last one, or behind its comma. -/
theorem readsArguments_last (hclosing : closing.kind = .rightParen) (hgap : OptionalComma gap)
    {level : Level} (hstarts : ∃ token rest, tokens = token :: rest ∧ token.Starts level)
    (hargument : ReadsArgument expression before between tokens) :
    ReadsArguments expression before between (tokens ++ (gap ++ [closing])) := by
  intro opening bound rest hlength
  obtain _ | ⟨_, bound⟩ := bound
  · simp at hlength
  rw [← List.append_assoc, ← TokenStream.prepend_prepend]
  refine reads_argumentsFrom hstarts hargument hgap (fun _ => hclosing) ?_
  exact (reads_take?_some (List.mem_singleton.2 hclosing)).bind (reads_pure.2 ⟨rfl, rfl⟩)

/-- Behind an argument and a comma the others are read with this one added. -/
theorem readsArguments_more {comma : Token} (hcomma : comma.kind = .comma) {level : Level}
    (hstarts : ∃ token rest, tokens = token :: rest ∧ token.Starts level)
    (hargument : ReadsArgument expression before between tokens)
    (hmore : ∃ token rest, more = token :: rest ∧ token.Starts level)
    (harguments : ReadsArguments expression between finished more) :
    ReadsArguments expression before finished (tokens ++ ([comma] ++ more)) := by
  intro opening bound rest hlength
  obtain _ | ⟨_, bound⟩ := bound
  · simp at hlength
  rw [← List.append_assoc, ← TokenStream.prepend_prepend]
  refine reads_argumentsFrom hstarts hargument (.comma hcomma) (by simp) ?_
  have hfinished := harguments opening bound rest (by
    simp only [List.length_append, List.length_cons, List.length_nil] at hlength
    omega)
  obtain ⟨head, tail, rfl, hmore⟩ := hmore
  exact (reads_take?_none_of_starts hmore (by decide)).bind hfinished

theorem readsArgumentList_empty (hclosing : closing.kind = .rightParen) :
    ReadsArgumentList expression {} [closing] := by
  intro opening rest
  refine (reads_take?_some (List.mem_singleton.2 hclosing)).bind ?_
  exact reads_pure.2 ⟨rfl, rfl⟩

theorem readsArgumentList_of_arguments {level : Level}
    (hstarts : ∃ token rest, tokens = token :: rest ∧ token.Starts level)
    (harguments : ReadsArguments expression {} values tokens) :
    ReadsArgumentList expression values tokens := by
  intro opening rest
  have hfrom := harguments opening (rest.prepend tokens).upcoming rest (by simp)
  obtain ⟨head, tail, rfl, hstarts⟩ := hstarts
  exact (reads_take?_none_of_starts hstarts (by decide)).bind
    (Reads.bind (reads_get.2 ⟨rfl, rfl⟩) hfrom)

end Arguments

section PostfixForms

variable {subject : Expr Token} {values : ArgumentList} {dot selector bracket opening : Token}

/-- A postfix form extends the spelling of its subject. -/
theorem ReadsAt.extend (hsubject : ReadsAt dialect expression .subject subject tokens)
    (hform : ∀ rest : TokenStream,
      Reads (postfixForm? expression subject) (rest.prepend (token :: more)) (some value) rest) :
    ReadsAt dialect expression .subject value (tokens ++ token :: more) := by
  refine readsAt_subject fun after result rest hrepeats => ?_
  rw [← TokenStream.prepend_prepend]
  refine hsubject.plainOperand (.next (hform after) ?_ hrepeats)
  simp only [TokenStream.upcoming_prepend, List.length_append, List.length_cons]
  omega

theorem reads_postfixForm?_member (hdot : dot.kind = .dot) (hselector : selector.kind = .name)
    (rest : TokenStream) :
    Reads (postfixForm? expression subject) (rest.prepend [dot, selector])
      (some (.member dot subject (.name selector.text))) rest := by
  refine (reads_take?_some (by simp [hdot])).bind ?_
  simp only [hdot]
  refine Reads.bind ((reads_take?_some (by simp [hselector])).bind ?_) (reads_pure.2 ⟨rfl, rfl⟩)
  simp only [hselector, if_true]
  exact reads_pure.2 ⟨rfl, rfl⟩

/-- A position behind a dot is read back by its digits. -/
theorem reads_postfixForm?_position {index : UInt64} (hdot : dot.kind = .dot)
    (hselector : selector.kind = .integer) (hindex : Decimal.readIndex selector.text = .ok index)
    (rest : TokenStream) :
    Reads (postfixForm? expression subject) (rest.prepend [dot, selector])
      (some (.member dot subject (.index index))) rest := by
  refine (reads_take?_some (by simp [hdot])).bind ?_
  simp only [hdot]
  refine Reads.bind ((reads_take?_some (by simp [hselector])).bind ?_) (reads_pure.2 ⟨rfl, rfl⟩)
  simp only [hselector, reduceCtorEq, if_false, hindex]
  exact reads_pure.2 ⟨rfl, rfl⟩

/-- The arguments of a call are read back as far as its closing parenthesis. -/
theorem reads_postfixForm?_call (hopening : opening.kind = .leftParen)
    (hvalues : ReadsArgumentList expression values more) (rest : TokenStream) :
    Reads (postfixForm? expression subject) (rest.prepend (opening :: more))
      (some (.call opening subject values.positional values.named)) rest := by
  refine (reads_take?_some (by simp [hopening])).bind ?_
  simp only [hopening]
  exact (hvalues opening rest).bind (reads_pure.2 ⟨rfl, rfl⟩)

/-- The bound of a slice is read up to the colon or the bracket behind it. -/
def ReadsBound (expression : ExprRule) (value : Option (Expr Token)) (tokens : List Token) : Prop :=
  (tokens = [] ∨ ∃ token rest, tokens = token :: rest ∧ token.Starts .conditional) ∧
    ∀ ⦃kind⦄ ⦃rest : TokenStream⦄, kind ∈ [Kind.colon, .rightBracket] → rest.current.kind = kind →
      Reads (unlessSeen expression kind) (rest.prepend tokens) value rest

/-- A bound that is left out has no tokens. -/
theorem readsBound_none : ReadsBound expression none [] := by
  refine ⟨.inl rfl, fun kind rest _ hkind => (reads_sees.2 ⟨rfl, rfl⟩).bind ?_⟩
  simp only [TokenStream.prepend_nil, hkind, List.mem_singleton, decide_true, if_true]
  exact reads_pure.2 ⟨rfl, rfl⟩

theorem readsBound_some
    (hstarts : ∃ token rest, tokens = token :: rest ∧ token.Starts .conditional)
    (hreads : ∀ rest : TokenStream, rest.Stops .conditional →
      Reads expression (rest.prepend tokens) value rest) :
    ReadsBound expression (some value) tokens := by
  refine ⟨.inr hstarts, fun kind rest hkinds hkind => (reads_sees.2 ⟨rfl, rfl⟩).bind ?_⟩
  have hboth : ∀ kind ∈ [Kind.colon, .rightBracket], (∀ seen ∈ [kind], seen ∉ startKinds) ∧
      kind ∈ [Kind.comma, .colon, .assign, .rightParen, .rightBracket, .rightBrace, .eof] := by
    decide
  obtain ⟨hclosing, hstops⟩ := hboth _ hkinds
  have hvalue := hreads rest (stops_of_kind (hkind ▸ hstops))
  obtain ⟨head, tail, rfl, hstarts⟩ := hstarts
  simp only [TokenStream.current_prepend_cons, hstarts.kind_notMem hclosing, decide_false,
    Bool.false_eq_true, if_false]
  exact hvalue.bind (reads_pure.2 ⟨rfl, rfl⟩)

/-- The part that subscripts and slices have in common: the brackets around them. -/
theorem reads_postfixForm?_bracket {node : Expr Token} {closing : Token}
    (hbracket : bracket.kind = .leftBracket) (hclosing : closing.kind = .rightBracket)
    (hnode : Reads (subscriptNode expression subject bracket) (rest.prepend (tokens ++ [closing]))
      node (rest.prepend [closing]))
    (hbefore : (rest.prepend (tokens ++ [closing])).current.kind ∉ [Kind.rightBracket]) :
    Reads (postfixForm? expression subject) (rest.prepend (bracket :: (tokens ++ [closing])))
      (some node) rest := by
  have hsubscript : Reads (subscript expression subject bracket)
      (rest.prepend (tokens ++ [closing])) node rest :=
    (reads_refuse hbefore).bind
      (hnode.bind ((reads_expect hclosing).bind (reads_pure.2 ⟨rfl, rfl⟩)))
  refine (reads_take?_some (by simp [hbracket])).bind ?_
  simp only [hbracket]
  exact hsubscript.bind (reads_pure.2 ⟨rfl, rfl⟩)

theorem reads_postfixForm?_subscript {key : Expr Token} {closing : Token}
    (hbracket : bracket.kind = .leftBracket) (hclosing : closing.kind = .rightBracket)
    (hstarts : ∃ token rest, tokens = token :: rest ∧ token.Starts .conditional)
    (hreads : ∀ rest : TokenStream, rest.Stops .conditional →
      Reads expression (rest.prepend tokens) key rest) (rest : TokenStream) :
    Reads (postfixForm? expression subject) (rest.prepend (bracket :: (tokens ++ [closing])))
      (some (.subscript bracket subject key)) rest := by
  have hvalue := hreads (rest.prepend [closing]) (stops_of_kind (by simp [hclosing]))
  rw [TokenStream.prepend_prepend] at hvalue
  obtain ⟨head, tail, rfl, hstarts⟩ := hstarts
  have hcolon : head.kind ∉ [Kind.colon] := hstarts.kind_notMem (by decide)
  refine reads_postfixForm?_bracket hbracket hclosing ?_ (hstarts.kind_notMem (by decide))
  have hstart : Reads (unlessSeen expression .colon)
      (rest.prepend (head :: tail ++ [closing])) (some key) (rest.prepend [closing]) := by
    refine (reads_sees.2 ⟨rfl, rfl⟩).bind ?_
    simp only [List.cons_append, TokenStream.current_prepend_cons, hcolon, decide_false,
      Bool.false_eq_true, if_false]
    exact hvalue.bind (reads_pure.2 ⟨rfl, rfl⟩)
  exact hstart.bind ((reads_take?_none (by simp [hclosing])).bind (reads_pure.2 ⟨rfl, rfl⟩))

theorem reads_postfixForm?_slice {start stop : Option (Expr Token)} {colon closing : Token}
    (hbracket : bracket.kind = .leftBracket) (hcolon : colon.kind = .colon)
    (hclosing : closing.kind = .rightBracket) (hstart : ReadsBound expression start tokens)
    (hstop : ReadsBound expression stop more) (rest : TokenStream) :
    Reads (postfixForm? expression subject)
      (rest.prepend (bracket :: (tokens ++ colon :: (more ++ [closing]))))
      (some (.slice bracket subject start stop)) rest := by
  have hfirst : Reads (unlessSeen expression .colon)
      ((rest.prepend (colon :: (more ++ [closing]))).prepend tokens) start
      (rest.prepend (colon :: (more ++ [closing]))) := hstart.2 (by decide) hcolon
  have hsecond : Reads (unlessSeen expression .rightBracket)
      ((rest.prepend [closing]).prepend more) stop (rest.prepend [closing]) :=
    hstop.2 (by decide) hclosing
  have hbefore : (rest.prepend (tokens ++ colon :: (more ++ [closing]))).current.kind ∉
      [Kind.rightBracket] := by
    obtain rfl | ⟨head, tail, rfl, hstarts⟩ := hstart.1
    · simp [hcolon]
    · exact hstarts.kind_notMem (by decide)
  have hassoc : tokens ++ colon :: (more ++ [closing]) =
      (tokens ++ colon :: more) ++ [closing] := by
    simp
  rw [TokenStream.prepend_prepend] at hfirst hsecond
  rw [hassoc] at hfirst hbefore ⊢
  exact reads_postfixForm?_bracket hbracket hclosing
    (hfirst.bind ((reads_take?_some (List.mem_singleton.2 hcolon)).bind
      (hsecond.bind (reads_pure.2 ⟨rfl, rfl⟩)))) hbefore

end PostfixForms

/-! ## Filters -/

section Filters

variable {subject : Expr Token} {values : ArgumentList} {pipe name : Token}

/-- What stands behind the name of a filter, if the parentheses are not left out. -/
inductive ReadsFilterArguments (expression : ExprRule) : ArgumentList → List Token → Prop where
  | bare : ReadsFilterArguments expression {} []
  | call {opening : Token} {values : ArgumentList} {tokens : List Token} :
      opening.kind = .leftParen → ReadsArgumentList expression values tokens →
      ReadsFilterArguments expression values (opening :: tokens)

theorem reads_filter? (hpipe : pipe.kind = .pipe) (hname : name.kind = .name)
    (hvalues : ReadsFilterArguments expression values more)
    (hstops : rest.Stops .subject) :
    Reads (filter? expression subject) (rest.prepend (pipe :: name :: more))
      (some (.filter name subject name.text values.positional values.named)) rest := by
  refine (reads_take?_some (List.mem_singleton.2 hpipe)).bind ?_
  refine (reads_take?_some (List.mem_singleton.2 hname)).bind ?_
  cases hvalues with
  | bare =>
    have hparen : rest.current.kind ∉ [Kind.leftParen] := kind_notMem_of_stops hstops (by decide)
    exact (reads_take?_none hparen).bind (Reads.bind (reads_pure.2 ⟨rfl, rfl⟩)
      (reads_pure.2 ⟨rfl, rfl⟩))
  | call hopening hlist =>
    refine (reads_take?_some (List.mem_singleton.2 hopening)).bind ?_
    exact (hlist _ rest).bind (reads_pure.2 ⟨rfl, rfl⟩)

theorem ReadsAt.filter (hpipe : pipe.kind = .pipe) (hname : name.kind = .name)
    (hsubject : ReadsAt dialect expression .filter subject tokens)
    (hvalues : ReadsFilterArguments expression values more) :
    ReadsAt dialect expression .filter
      (.filter name subject name.text values.positional values.named)
      (tokens ++ pipe :: name :: more) := by
  intro after result rest hstops hrepeats
  rw [← TokenStream.prepend_prepend]
  refine hsubject ?_
    (.next (reads_filter? hpipe hname hvalues (hstops.stops (by decide))) ?_ hrepeats)
  · exact TokenStream.stopsInside_of_kind hpipe rfl
  · simp only [TokenStream.upcoming_prepend, List.length_append, List.length_cons]
    omega

end Filters

end Stencil.Grammar
