import Stencil.Grammar.Document
import Stencil.Proofs.Canonical.Forms
import Stencil.Proofs.Canonical.Scanning
import Stencil.Proofs.Spelling.Completeness

/-!
# Canonical text is read back

An expression is printable if its texts and values can be spelled at all and no postfix form stands
behind a boolean or a spread.  The canonical text of such an expression is read as the expression.
-/

namespace Stencil

open Grammar

/-- The operators that can name a test. -/
def operatorLabels : List String :=
  ["==", "!=", ">", ">=", "<", "<="]

/-- The names of tests: the names of the scanner but `not`, and a few operators. -/
def IsTestName (label : String) : Prop :=
  IsName label ∧ label ≠ "not" ∨ label ∈ operatorLabels

theorem isLabel_of_isWord {kind : Kind} {label : String} (hword : IsWord false kind label)
    (hkind : kind ≠ .string) : IsLabel label := by
  have hlabel : labelKind label = kind := by
    obtain ⟨first, tail, htext, -, hread⟩ := hword
    rw [labelKind, htext]
    simp [hread]
  constructor
  · rwa [hlabel]
  · rwa [hlabel]

namespace IsTestName

variable {label : String}

theorem isLabel (hname : IsTestName label) : IsLabel label := by
  rcases hname with ⟨hname, -⟩ | hmem
  · exact isLabel_of_isWord hname.isWord (by decide)
  · obtain ⟨op, hkind, rfl⟩ : ∃ op : BinaryOp, op.kind ≠ .string ∧ op.symbol = label := by
      simp only [operatorLabels, List.mem_cons, List.not_mem_nil, or_false] at hmem
      rcases hmem with rfl | rfl | rfl | rfl | rfl | rfl
      · exact ⟨.eq, by decide, rfl⟩
      · exact ⟨.ne, by decide, rfl⟩
      · exact ⟨.gt, by decide, rfl⟩
      · exact ⟨.gteq, by decide, rfl⟩
      · exact ⟨.lt, by decide, rfl⟩
      · exact ⟨.lteq, by decide, rfl⟩
    exact isLabel_of_isWord (isWord_symbol op) hkind

theorem ne_not (hname : IsTestName label) : label ≠ "not" := by
  rcases hname with ⟨-, hne⟩ | hmem
  · exact hne
  · rintro rfl
    exact absurd hmem (by decide)

end IsTestName

namespace Expr

variable {Mark : Type} {expr : Expr Mark}

/-- The conditions on one node of an expression under which it can be printed and read back. -/
def Printable (expr : Expr Mark) : Prop :=
  (∀ subject ∈ expr.subject?, subject.isBool = false ∧ subject.isSpread = false) ∧
    match expr with
    | integer _ value => 0 ≤ value.toInt
    | float _ value => value.isFinite ∧ Decimal.isNegative value = false
    | string _ value => Quotable value
    | name _ ident => IsPlainName ident
    | member _ _ (.name ident) => IsName ident
    | call _ _ _ named => (named.map Prod.fst).Nodup ∧ ∀ key ∈ named.map Prod.fst, IsPlainName key
    | test _ _ label argument =>
      IsTestName label ∧ argument.isSome = Dialect.standard.takesArgument label
    | filter _ _ label _ named =>
      IsName label ∧ (named.map Prod.fst).Nodup ∧ ∀ key ∈ named.map Prod.fst, IsPlainName key
    | spread _ operand => operand.isSpread = false
    | _ => True

theorem Printable.writable (hprintable : expr.Printable) : expr.Writable := by
  obtain ⟨-, hnode⟩ := hprintable
  cases expr with
  | test => exact ⟨hnode.1.isLabel, hnode.2⟩
  | member _ _ selector =>
    cases selector with
    | name => exact hnode
    | index => trivial
  | integer | float | string | name | call | filter => exact hnode
  | _ => trivial

/-- The conditions under which no word of a node is taken for another one: postfix forms stand
behind neither booleans nor spreads, no spread is marked again, and tests have plain names. -/
def Reprintable (expr : Expr Mark) : Prop :=
  (∀ subject ∈ expr.subject?, subject.isBool = false ∧ subject.isSpread = false) ∧
    match expr with
    | test _ _ label _ => IsLabel label ∧ label ≠ "not"
    | spread _ operand => operand.isSpread = false
    | _ => True

theorem Printable.reprintable (hprintable : expr.Printable) : expr.Reprintable := by
  obtain ⟨hsubject, hnode⟩ := hprintable
  refine ⟨hsubject, ?_⟩
  cases expr with
  | test => exact ⟨hnode.1.isLabel, hnode.1.ne_not⟩
  | spread => exact hnode
  | _ => trivial

theorem Reprintable.plainSubject (hreprintable : expr.Reprintable) : expr.PlainSubject :=
  fun subject hsubject => (hreprintable.1 subject hsubject).2

/-- Only a spread itself starts with a star where no postfix form stands behind a spread. -/
theorem startsWithStar_eq_isSpread (hplain : expr.Everywhere PlainSubject) :
    expr.startsWithStar = expr.isSpread := by
  induction expr using startsWithStar.induct with
  | case1 | case2 => rfl
  | case3 _ subject _ ih | case4 _ subject _ ih | case5 _ subject _ _ ih
  | case6 _ subject _ _ ih =>
    rw [startsWithStar, ih (hplain.child (by simp [children])), hplain.root subject rfl]
    rfl
  | case7 expr hspread hnamedSpread hmember hsubscript hslice hcall =>
    cases expr with
    | spread => exact absurd rfl (hspread _ _)
    | namedSpread => exact absurd rfl (hnamedSpread _ _)
    | member => exact absurd rfl (hmember _ _ _)
    | subscript => exact absurd rfl (hsubscript _ _ _)
    | slice => exact absurd rfl (hslice _ _ _ _)
    | call => exact absurd rfl (hcall _ _ _ _)
    | _ => rfl

theorem Everywhere.intact (hreprintable : expr.Everywhere Reprintable) :
    expr.Everywhere Intact := by
  have hplain : expr.Everywhere PlainSubject := hreprintable.imp fun _ => Reprintable.plainSubject
  induction hreprintable with
  | @node expr hnode _ ih =>
  refine .node ⟨fun subject hsubject => ?_, ?_⟩ fun child hchild =>
    ih child hchild (hplain.child hchild)
  · obtain ⟨hbool, hspread⟩ := hnode.1 subject hsubject
    rw [core_of_not_isSpread hspread, hbool]
  · cases expr with
    | member _ subject selector =>
      cases selector with
      | name => trivial
      | index => exact fun hcore => core_of_not_isSpread (hnode.1 subject rfl).2 ▸ hcore
    | test => exact hnode.2.2
    | spread _ operand =>
      exact (startsWithStar_eq_isSpread (hplain.child (by simp [children]))).trans hnode.2
    | _ => trivial

/-- The canonical text of an expression in which no words run together is read as an expression, and
as the same one exactly if no postfix form stands behind a spread. -/
theorem parse_canonical (hwritable : expr.Everywhere Writable) (hintact : expr.Everywhere Intact) :
    ∃ reading, parseExpression .standard expr.canonical = .ok reading ∧
      (reading.unmarked = expr.unmarked ↔ expr.Everywhere PlainSubject) := by
  have hfollows : Follows [] [] := ⟨nofun, rfl, nofun, nofun⟩
  have hdivides : Divides false expr.canonical.toList (expr.writer []) := by
    simpa using writes_canonical hwritable hfollows .nil
  obtain ⟨tokens, hscan, hwords⟩ := hdivides.scanFrom .start
  have hupcoming : (TokenStream.ofTokens tokens).upcoming.map Token.word = expr.writer [] := by
    have htake : (TokenStream.ofTokens tokens).upcoming.map Token.word =
        (tokens.map Token.word).takeWhile fun word => word.kind != .eof := by
      rw [List.takeWhile_map]
      rfl
    rw [htake, hwords, List.takeWhile_append_of_pos]
    · exact List.append_nil _
    · simpa using hdivides.kind_ne_eof
  obtain ⟨front, back, reading, hsplit, hback, hmarked, -, hsame⟩ :=
    rereads hwritable hintact hupcoming fun _ _ => rfl
  rw [List.map_eq_nil_iff.1 hback, List.append_nil] at hsplit
  have hspells : Spells .required .standard (.expr .conditional reading)
      (TokenStream.ofTokens tokens).upcoming := by
    rw [hsplit]
    exact hmarked.spells.loosen (by decide)
  obtain ⟨rest, hreads⟩ := reads_wholeExpression (TokenStream.ofTokens_ends tokens) hspells
  refine ⟨reading, ?_, hsame⟩
  rw [parseExpression, Token.scanExpression, hscan]
  exact parseTokens_of_reads hreads

/-- The canonical text of a printable expression is read as the expression. -/
theorem parseExpression_canonical (hprintable : expr.Everywhere Printable) :
    ∃ reading, parseExpression .standard expr.canonical = .ok reading ∧
      reading.unmarked = expr.unmarked := by
  have hreprintable : expr.Everywhere Reprintable := hprintable.imp fun _ => Printable.reprintable
  obtain ⟨reading, hparse, hsame⟩ :=
    parse_canonical (hprintable.imp fun _ => Printable.writable) hreprintable.intact
  exact ⟨reading, hparse, hsame.2 (hreprintable.imp fun _ => Reprintable.plainSubject)⟩

/-- The text is `((1).0 is in "it's")`. -/
theorem parseExpression_canonical_membership :
    let expr : Expr Unit :=
      .test () (.member () (.integer () 1) (.index 0)) "in" (some (.string () "it's"))
    expr.Everywhere Printable ∧
      ∃ reading, parseExpression .standard expr.canonical = .ok reading ∧
        reading.unmarked = expr.unmarked := by
  intro expr
  have hone : Everywhere Printable (.integer () 1) :=
    .node ⟨by rintro subject ⟨⟩, by decide⟩ (by simp [children])
  have hmember : Everywhere Printable (.member () (.integer () 1) (.index 0)) :=
    .node ⟨by rintro subject ⟨⟩; exact ⟨rfl, rfl⟩, trivial⟩ (by simpa [children] using hone)
  have hquotes : QuotesEscaped '"' "it's".toList := quotesEscaped_iff.2 rfl
  have hescape : ∀ letter ∈ ['n', 't'], ¬ ['\\', letter] <:+: "it's".toList :=
    fun letter _ hsegment => absurd (hsegment.subset List.mem_cons_self) (by simp)
  have hstring : Everywhere Printable (.string () "it's") :=
    .node ⟨by rintro subject ⟨⟩, ⟨hescape, by decide, .inr hquotes⟩⟩ (by simp [children])
  have hname : IsTestName "in" := .inl ⟨isName_of_letters (by decide) rfl, by decide⟩
  have hprintable : expr.Everywhere Printable := by
    refine .node ⟨by rintro subject ⟨⟩, hname, rfl⟩ ?_
    simpa [expr, children] using And.intro hmember hstring
  exact ⟨hprintable, parseExpression_canonical hprintable⟩

end Expr

end Stencil
