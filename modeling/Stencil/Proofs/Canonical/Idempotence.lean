import Stencil.Proofs.Canonical.Guarantees
import Stencil.Proofs.Canonical.RoundTrip
import Stencil.Proofs.Spelling.Soundness

/-!
# Canonical text of what has been read

An expression that was read from a text meets all conditions for being written and read again but
two: a boolean or a spread loses the parentheses in which a postfix form or another marker needs it,
and a string token may name a test by a text that is no word.
-/

namespace Stencil

open Grammar

/-! ## What the tokens guarantee -/

namespace Expr

variable {Mark : Type}

/-- A test is named by a word. -/
def Labelled : Expr Mark → Prop
  | test _ _ label _ => IsLabel label
  | _ => True

theorem Reprintable.labelled {expr : Expr Mark} (hreprintable : expr.Reprintable) :
    expr.Labelled := by
  cases expr with
  | test => exact hreprintable.2.1
  | _ => trivial

/-- The node can be written, given that tests are named by words. -/
def Scannable (expr : Expr Mark) : Prop :=
  expr.Labelled → expr.Writable

end Expr

theorem Spells.isScannable {separation : Separation} {level : Level} {expr : Expr Token}
    {tokens : List Token} (hspells : Spells separation .standard (.expr level expr) tokens)
    (hscanned : ∀ token ∈ tokens, token.word.IsScanned) : expr.Everywhere Expr.Scannable := by
  have hguaranteed : expr.Everywhere Expr.Guaranteed := hspells.guaranteed hscanned
  refine hguaranteed.imp fun expr hnode hlabelled => ?_
  cases expr with
  | test => exact ⟨hlabelled, hnode⟩
  | _ => exact hnode

/-! ## Reading and writing again -/

namespace Expr

variable {Mark : Type}

theorem unmarkedItems_eq_map (items : List (Expr Mark)) :
    unmarkedItems items = items.map unmarked := by
  induction items with
  | nil => rfl
  | cons item items ih => rw [unmarkedItems, ih, List.map_cons]

theorem unmarkedNamed_eq_map (named : List (String × Expr Mark)) :
    unmarkedNamed named = named.map fun (key, value) => (key, value.unmarked) := by
  induction named with
  | nil => rfl
  | cons argument named ih => rw [unmarkedNamed, ih, List.map_cons]

theorem subjectText_unmarked (subject : Expr Mark) (text : String) :
    subject.unmarked.subjectText text = subject.subjectText text := by
  cases subject <;> simp only [unmarked, subjectText]

mutual

/-- Marks are not written. -/
@[simp]
theorem canonical_unmarked : ∀ expr : Expr Mark, expr.unmarked.canonical = expr.canonical
  | integer _ _ | float _ _ | string _ _ | bool _ _ | name _ _ => by simp only [unmarked, canonical]
  | list _ items => by simp only [unmarked, canonical, canonicalItems_unmarked items]
  | tuple _ items => by
    simp only [unmarked, canonical, canonicalItems_unmarked items]
    rw [unmarkedItems_eq_map, List.length_map]
  | dict _ pairs => by simp only [unmarked, canonical, canonicalPairs_unmarked pairs]
  | member _ subject _ => by
    simp only [unmarked, canonical, canonical_unmarked subject, subjectText_unmarked]
  | subscript _ subject key => by
    simp only [unmarked, canonical, canonical_unmarked subject, canonical_unmarked key,
      subjectText_unmarked]
  | slice _ subject start stop => by
    simp only [unmarked, canonical, canonical_unmarked subject, subjectText_unmarked,
      canonicalOption_unmarked _ start, canonicalOption_unmarked _ stop]
  | call _ callee positional named => by
    simp only [unmarked, canonical, canonical_unmarked callee, subjectText_unmarked,
      canonicalItems_unmarked positional, canonicalNamed_unmarked named]
  | binary _ _ left right => by
    simp only [unmarked, canonical, canonical_unmarked left, canonical_unmarked right]
  | negation _ operand | signed _ _ operand | spread _ operand | namedSpread _ operand => by
    simp only [unmarked, canonical, canonical_unmarked operand]
  | test _ subject _ argument => by
    simp only [unmarked, canonical, canonical_unmarked subject, canonicalOption_unmarked _ argument]
  | filter _ subject _ positional named => by
    simp only [unmarked, canonical, canonical_unmarked subject, canonicalItems_unmarked positional,
      canonicalNamed_unmarked named]
    rw [unmarkedItems_eq_map, unmarkedNamed_eq_map, List.isEmpty_map, List.isEmpty_map]
  | conditional _ condition consequent alternative => by
    simp only [unmarked, canonical, canonical_unmarked condition, canonical_unmarked consequent,
      canonicalOption_unmarked _ alternative]

theorem canonicalItems_unmarked : ∀ items : List (Expr Mark),
    canonicalItems (unmarkedItems items) = canonicalItems items
  | [] => rfl
  | item :: items => by
    simp only [unmarkedItems, canonicalItems, canonical_unmarked item,
      canonicalItems_unmarked items]

theorem canonicalPairs_unmarked : ∀ pairs : List (Expr Mark × Expr Mark),
    canonicalPairs (unmarkedPairs pairs) = canonicalPairs pairs
  | [] => rfl
  | (key, value) :: pairs => by
    simp only [unmarkedPairs, canonicalPairs, canonical_unmarked key, canonical_unmarked value,
      canonicalPairs_unmarked pairs]

theorem canonicalNamed_unmarked : ∀ named : List (String × Expr Mark),
    canonicalNamed (unmarkedNamed named) = canonicalNamed named
  | [] => rfl
  | (key, value) :: named => by
    simp only [unmarkedNamed, canonicalNamed, canonical_unmarked value,
      canonicalNamed_unmarked named]

theorem canonicalOption_unmarked (lead : String) : ∀ option : Option (Expr Mark),
    canonicalOption lead (unmarkedOption option) = canonicalOption lead option
  | none => rfl
  | some expr => by simp only [unmarkedOption, canonicalOption, canonical_unmarked expr]

end

end Expr

/-- What is read from a text, is written, and is read again is the same expression. -/
theorem parseExpression_canonical_of_parseExpression {source : String} {expr : Expr Token}
    (hparse : parseExpression .standard source = .ok expr)
    (hreprintable : expr.Everywhere Expr.Reprintable) :
    ∃ reading, parseExpression .standard expr.canonical = .ok reading ∧
      reading.unmarked = expr.unmarked ∧ reading.canonical = expr.canonical := by
  unfold parseExpression at hparse
  cases hscan : Token.scanExpression source with
  | error error =>
    rw [hscan] at hparse
    cases hparse
  | ok tokens =>
    rw [hscan] at hparse
    obtain ⟨words, hdivides, hwords⟩ := divides_of_scanFrom hscan
    have hscanned : ∀ token ∈ tokens.takeWhile (fun token => token.kind != .eof),
        token.word.IsScanned := by
      intro token hmem
      have hkind : token.kind ≠ .eof := by simpa using List.mem_takeWhile_imp hmem
      have hword : token.word ∈ words ++ [Word.eof] :=
        hwords ▸ List.mem_map_of_mem ((List.takeWhile_sublist _).mem hmem)
      rcases List.mem_append.1 hword with hword | hword
      · exact hdivides.isScanned _ hword
      · exact absurd (congrArg Word.kind (List.mem_singleton.1 hword)) hkind
    have hscannable : expr.Everywhere Expr.Scannable :=
      (spelled_of_parseTokens hparse).isScannable hscanned
    have hwritable : expr.Everywhere Expr.Writable :=
      (hscannable.and hreprintable).imp fun expr hnode => hnode.1 hnode.2.labelled
    obtain ⟨reading, hreading, hsame⟩ := Expr.parse_canonical hwritable hreprintable.intact
    have hunmarked := hsame.2 (hreprintable.imp fun _ => Expr.Reprintable.plainSubject)
    refine ⟨reading, hreading, hunmarked, ?_⟩
    rw [← Expr.canonical_unmarked reading, hunmarked, Expr.canonical_unmarked]

set_option maxRecDepth 100000 in
theorem parseExpression_canonical_of_negated_member :
    let expr : Expr Token := .negation ⟨.name, "not", ⟨0, 3, 1, 1⟩⟩
      (.member ⟨.dot, ".", ⟨5, 6, 1, 6⟩⟩ (.name ⟨.name, "a", ⟨4, 5, 1, 5⟩⟩ "a") (.name "b"))
    parseExpression .standard "not a.b" = .ok expr ∧ expr.Everywhere Expr.Reprintable ∧
      ∃ reading, parseExpression .standard expr.canonical = .ok reading ∧
        reading.unmarked = expr.unmarked ∧ reading.canonical = expr.canonical := by
  intro expr
  have hparse : parseExpression .standard "not a.b" = .ok expr := by cbv
  have hname : Expr.Everywhere Expr.Reprintable (.name (⟨.name, "a", ⟨4, 5, 1, 5⟩⟩ : Token) "a") :=
    .node ⟨by rintro subject ⟨⟩, trivial⟩ (by simp [Expr.children])
  have hmember : Expr.Everywhere Expr.Reprintable
      (.member (⟨.dot, ".", ⟨5, 6, 1, 6⟩⟩ : Token) (.name ⟨.name, "a", ⟨4, 5, 1, 5⟩⟩ "a")
        (.name "b")) :=
    .node ⟨by rintro subject ⟨⟩; exact ⟨rfl, rfl⟩, trivial⟩ (by simpa [Expr.children] using hname)
  have hreprintable : expr.Everywhere Expr.Reprintable :=
    .node ⟨by rintro subject ⟨⟩, trivial⟩ (by simpa [expr, Expr.children] using hmember)
  exact ⟨hparse, hreprintable, parseExpression_canonical_of_parseExpression hparse hreprintable⟩

set_option maxRecDepth 100000 in
/-- The parentheses of a boolean in front of a dot are not written, and without them the text is no
expression. -/
theorem not_parseExpression_canonical_boolean :
    ¬ ∀ (source : String) (expr : Expr Token), parseExpression .standard source = .ok expr →
      ∃ reading, parseExpression .standard expr.canonical = .ok reading ∧
        reading.unmarked = expr.unmarked ∧ reading.canonical = expr.canonical := by
  intro hall
  have hparse : parseExpression .standard "(true).a" =
      .ok (.member ⟨.dot, ".", ⟨6, 7, 1, 7⟩⟩ (.bool ⟨.name, "true", ⟨1, 5, 1, 2⟩⟩ true)
        (.name "a")) := by
    cbv
  have hreject : parseExpression .standard "true.a" = .error ⟨.unexpectedToken ".", 1, 5⟩ := by
    cbv
  obtain ⟨reading, hreading, -⟩ := hall _ _ hparse
  have hwrong := hreject.symm.trans hreading
  cases hwrong

end Stencil
