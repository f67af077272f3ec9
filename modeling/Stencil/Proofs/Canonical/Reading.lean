import Stencil.Proofs.Canonical.Words
import Stencil.Proofs.Decimal.Floats

/-!
# The words of canonical text spell an expression

Tokens whose words are those of an expression are a spelling, with the parentheses that canonical
text puts around each operation.  The expression which they spell is the same one if no postfix
form stands behind a spread; behind one, the form belongs to what the marker stands before.
-/

namespace Stencil

open Grammar

/-! ## Words that run together -/

namespace Expr

variable {Mark : Type}

/-- The text of the expression starts with a star. -/
def startsWithStar : Expr Mark → Bool
  | spread _ _ | namedSpread _ _ => true
  | member _ subject _ | subscript _ subject _ | slice _ subject _ _ | call _ subject _ _ =>
    subject.startsWithStar
  | _ => false

/-- No word of the node is read as a part of something else: a boolean carries no postfix form, no
star stands right before another one, the point of a look-up is no decimal point, and no test is
named by the word that denies it. -/
def Intact (expr : Expr Mark) : Prop :=
  (∀ subject ∈ expr.subject?, subject.core.isBool = false) ∧
    match expr with
    | member _ subject (.index _) => subject.core.isInteger → subject.isInteger
    | test _ _ label _ => label ≠ "not"
    | spread _ operand => operand.startsWithStar = false
    | _ => True

/-- No postfix form stands behind a spread. -/
def PlainSubject (expr : Expr Mark) : Prop :=
  ∀ subject ∈ expr.subject?, subject.isSpread = false

end Expr

/-- No whole number before the words takes a point of them. -/
def Apart (words : List Word) : Prop :=
  ∀ text, numeralBefore text words = ⟨.integer, text⟩ :: words

theorem apart_of_kind {kind : Kind} {text : String} {words : List Word} (hkind : kind ≠ .dot) :
    Apart (⟨kind, text⟩ :: words) := by
  intro number
  refine numeralBefore_of_head ?_
  rintro _ ⟨⟩
  exact hkind

/-! ## Spellings with markers in front -/

section

variable {separation : Separation} {dialect : Dialect}

/-- An operand of which only the part behind the spread markers may be in parentheses. -/
inductive Marked (separation : Separation) (dialect : Dialect) :
    Expr Token → List Token → Prop where
  | bool {token value} : token.kind = .name → booleanValue? token.text = some value →
      Marked separation dialect (.bool token value) [token]
  | subject {value tokens} : value.isSpread = false →
      Spells separation dialect (.expr .subject value) tokens →
      Marked separation dialect value tokens
  | spread {operand marker tokens} : marker.kind = .mul →
      Marked separation dialect operand tokens →
      Marked separation dialect (.spread marker operand) (marker :: tokens)
  | namedSpread {operand marker tokens} : marker.kind = .pow →
      Marked separation dialect operand tokens →
      Marked separation dialect (.namedSpread marker operand) (marker :: tokens)

theorem Marked.spells {value : Expr Token} {tokens : List Token}
    (hmarked : Marked separation dialect value tokens) :
    Spells separation dialect (.expr .operand value) tokens := by
  induction hmarked with
  | bool hkind hvalue => exact .bool hkind hvalue
  | subject _ hspells => exact hspells.loosen (by decide)
  | spread hmarker _ ih => exact .spread hmarker ih
  | namedSpread hmarker _ ih => exact .namedSpread hmarker ih

/-- A postfix form goes to what stands behind the markers. -/
theorem Marked.underSpreads {wrap : Expr Token → Expr Token} {value : Expr Token}
    {tokens more : List Token} (hmarked : Marked separation dialect value tokens)
    (hbool : value.core.isBool = false) (hspread : ∀ subject, (wrap subject).isSpread = false)
    (hwrap : ∀ subject tokens, Spells separation dialect (.expr .subject subject) tokens →
      Spells separation dialect (.expr .subject (wrap subject)) (tokens ++ more)) :
    Marked separation dialect (value.underSpreads wrap) (tokens ++ more) := by
  induction hmarked with
  | bool => cases hbool
  | subject hplain hspells =>
    rw [Expr.underSpreads_of_not_isSpread hplain]
    exact .subject (hspread _) (hwrap _ _ hspells)
  | spread hmarker _ ih => exact .spread hmarker (ih hbool)
  | namedSpread hmarker _ ih => exact .namedSpread hmarker (ih hbool)

/-! ## Lists from the left -/

theorem Spells.items_cons {value : Expr Token} {values : List (Expr Token)} {comma : Token}
    {tokens more : List Token} (hcomma : comma.kind = .comma)
    (hvalue : Spells separation dialect (.expr .conditional value) tokens)
    (hvalues : Spells separation dialect (.items values) more) :
    Spells separation dialect (.items (value :: values)) (tokens ++ comma :: more) := by
  generalize hphrase : Phrase.items values = phrase at hvalues
  induction hvalues generalizing values with
  | oneItem hlast =>
    cases hphrase
    exact .moreItems hcomma (.oneItem hvalue) hlast
  | moreItems hnext _ hlast ih =>
    cases hphrase
    have hspells := Spells.moreItems hnext (ih rfl) hlast
    rw [List.append_assoc] at hspells
    exact hspells
  | _ => cases hphrase

theorem Spells.pairs_cons {value : Expr Token × Expr Token}
    {values : List (Expr Token × Expr Token)} {comma : Token} {tokens more : List Token}
    (hcomma : comma.kind = .comma) (hvalue : Spells separation dialect (.pair value) tokens)
    (hvalues : Spells separation dialect (.pairs values) more) :
    Spells separation dialect (.pairs (value :: values)) (tokens ++ comma :: more) := by
  generalize hphrase : Phrase.pairs values = phrase at hvalues
  induction hvalues generalizing values with
  | onePair hlast =>
    cases hphrase
    exact .morePairs hcomma (.onePair hvalue) hlast
  | morePairs hnext _ hlast ih =>
    cases hphrase
    have hspells := Spells.morePairs hnext (ih rfl) hlast
    rw [List.append_assoc] at hspells
    exact hspells
  | _ => cases hphrase

end

/-! ## Reading words back -/

namespace Expr

open Writer

/-- Tokens that start with the words of the expression start with a spelling, which gives the
expression back exactly if no postfix form in it stands behind a spread. -/
def Rereads {Mark : Type} (expr : Expr Mark) : Prop :=
  ∀ ⦃tokens more⦄, tokens.map Token.word = expr.writer more →
    (expr.core.isInteger → Apart more) →
    ∃ front back reading, tokens = front ++ back ∧ back.map Token.word = more ∧
      Marked .required .standard reading front ∧
      (reading.core.isBool → expr.core.isBool) ∧
      (reading.unmarked = expr.unmarked ↔ expr.Everywhere PlainSubject)

/-- The same for an expression whose words nothing behind it joins. -/
theorem Rereads.apart {Mark : Type} {expr : Expr Mark} (hrereads : Rereads expr)
    {tokens : List Token} {kind : Kind} {text : String} {more : List Word}
    (htokens : tokens.map Token.word = expr.writer (⟨kind, text⟩ :: more)) (hkind : kind ≠ .dot) :
    ∃ front token back reading, tokens = front ++ token :: back ∧ token.kind = kind ∧
      token.text = text ∧ back.map Token.word = more ∧
      Spells .required .standard (.expr .operand reading) front ∧
      (reading.unmarked = expr.unmarked ↔ expr.Everywhere PlainSubject) := by
  obtain ⟨front, back, reading, rfl, hback, hmarked, -, hsame⟩ :=
    hrereads htokens fun _ => apart_of_kind hkind
  obtain ⟨token, back, rfl, htoken, hmore⟩ := List.map_eq_cons_iff.1 hback
  exact ⟨front, token, back, reading, rfl, congrArg Word.kind htoken, congrArg Word.text htoken,
    hmore, hmarked.spells, hsame⟩

theorem exists_token_of_map {tokens : List Token} {kind : Kind} {text : String} {more : List Word}
    (htokens : tokens.map Token.word = ⟨kind, text⟩ :: more) :
    ∃ token rest, tokens = token :: rest ∧ token.kind = kind ∧ token.text = text ∧
      rest.map Token.word = more := by
  obtain ⟨token, rest, rfl, htoken, hmore⟩ := List.map_eq_cons_iff.1 htokens
  exact ⟨token, rest, rfl, congrArg Word.kind htoken, congrArg Word.text htoken, hmore⟩

section Lists

variable {Mark : Type} {tokens : List Token} {kind : Kind} {text : String} {more : List Word}

theorem rereads_items {items : List (Expr Mark)} (hitems : ∀ item ∈ items, Rereads item)
    (hne : items ≠ [])
    (htokens : tokens.map Token.word = separated (itemWriters items) (⟨kind, text⟩ :: more))
    (hkind : kind ≠ .dot) :
    ∃ front token back readings, tokens = front ++ token :: back ∧ token.kind = kind ∧
      back.map Token.word = more ∧ Spells .required .standard (.items readings) front ∧
      readings.length = items.length ∧
      (unmarkedItems readings = unmarkedItems items ↔
        ∀ item ∈ items, item.Everywhere PlainSubject) := by
  induction items generalizing tokens with
  | nil => exact absurd rfl hne
  | cons item items ih =>
    rw [List.forall_mem_cons] at hitems
    cases items with
    | nil =>
      obtain ⟨front, token, back, reading, rfl, hkind', -, hback, hspells, hsame⟩ :=
        hitems.1.apart htokens hkind
      refine ⟨front, token, back, [reading], rfl, hkind', hback,
        .oneItem (hspells.loosen (by decide)), rfl, ?_⟩
      simpa [unmarkedItems] using hsame
    | cons next items =>
      obtain ⟨front, comma, rest, reading, rfl, hcomma, -, hrest, hspells, hsame⟩ :=
        hitems.1.apart htokens (by decide)
      obtain ⟨more', token, back, readings, rfl, hkind', hback, hmore, hlength, hsames⟩ :=
        ih hitems.2 (by simp) hrest
      refine ⟨front ++ comma :: more', token, back, reading :: readings, by simp, hkind', hback,
        Spells.items_cons hcomma (hspells.loosen (by decide)) hmore, by simp [hlength], ?_⟩
      rw [List.forall_mem_cons, unmarkedItems, unmarkedItems, List.cons.injEq, hsame, hsames]

theorem rereads_pair {pair : Expr Mark × Expr Mark} (hkey : Rereads pair.1)
    (hvalue : Rereads pair.2)
    (htokens : tokens.map Token.word =
      all [pair.1.writer, symbol .colon, pair.2.writer] (⟨kind, text⟩ :: more))
    (hkind : kind ≠ .dot) :
    ∃ front token back reading, tokens = front ++ token :: back ∧ token.kind = kind ∧
      back.map Token.word = more ∧ Spells .required .standard (.pair reading) front ∧
      (reading.1.unmarked = pair.1.unmarked ↔ pair.1.Everywhere PlainSubject) ∧
      (reading.2.unmarked = pair.2.unmarked ↔ pair.2.Everywhere PlainSubject) := by
  obtain ⟨front, colon, rest, key, rfl, hcolon, -, hrest, hkeySpells, hkeySame⟩ :=
    hkey.apart htokens (by decide)
  obtain ⟨more', token, back, value, rfl, hkind', -, hback, hvalueSpells, hvalueSame⟩ :=
    hvalue.apart hrest hkind
  exact ⟨front ++ colon :: more', token, back, (key, value), by simp, hkind', hback,
    .pair hcolon (hkeySpells.loosen (by decide)) (hvalueSpells.loosen (by decide)),
    hkeySame, hvalueSame⟩

theorem rereads_pairs {pairs : List (Expr Mark × Expr Mark)}
    (hpairs : ∀ pair ∈ pairs, Rereads pair.1 ∧ Rereads pair.2) (hne : pairs ≠ [])
    (htokens : tokens.map Token.word = separated (pairWriters pairs) (⟨kind, text⟩ :: more))
    (hkind : kind ≠ .dot) :
    ∃ front token back readings, tokens = front ++ token :: back ∧ token.kind = kind ∧
      back.map Token.word = more ∧ Spells .required .standard (.pairs readings) front ∧
      (unmarkedPairs readings = unmarkedPairs pairs ↔ ∀ pair ∈ pairs,
        pair.1.Everywhere PlainSubject ∧ pair.2.Everywhere PlainSubject) := by
  induction pairs generalizing tokens with
  | nil => exact absurd rfl hne
  | cons pair pairs ih =>
    rw [List.forall_mem_cons] at hpairs
    cases pairs with
    | nil =>
      obtain ⟨front, token, back, reading, rfl, hkind', hback, hspells, hkeySame, hvalueSame⟩ :=
        rereads_pair hpairs.1.1 hpairs.1.2 htokens hkind
      refine ⟨front, token, back, [reading], rfl, hkind', hback, .onePair hspells, ?_⟩
      simp [unmarkedPairs, hkeySame, hvalueSame]
    | cons next pairs =>
      obtain ⟨front, comma, rest, reading, rfl, hcomma, hrest, hspells, hkeySame, hvalueSame⟩ :=
        rereads_pair hpairs.1.1 hpairs.1.2 htokens (by decide)
      obtain ⟨more', token, back, readings, rfl, hkind', hback, hmore, hsames⟩ :=
        ih hpairs.2 (by simp) hrest
      refine ⟨front ++ comma :: more', token, back, reading :: readings, by simp, hkind', hback,
        Spells.pairs_cons hcomma hspells hmore, ?_⟩
      rw [List.forall_mem_cons, unmarkedPairs, unmarkedPairs, List.cons.injEq, hsames,
        Prod.mk.injEq, hkeySame, hvalueSame]

/-- The words behind an argument: a comma and further arguments, or the closing parenthesis. -/
def behindArgument (writers : List Writer) (more : List Word) : List Word :=
  match writers with
  | [] => Word.symbol .rightParen :: more
  | writers => Word.symbol .comma :: separated writers (Word.symbol .rightParen :: more)

theorem separated_cons (writer : Writer) (writers : List Writer) (more : List Word) :
    separated (writer :: writers) (Word.symbol .rightParen :: more) =
      writer (behindArgument writers more) := by
  cases writers <;> rfl

theorem apart_behindArgument (writers : List Writer) (more : List Word) :
    Apart (behindArgument writers more) := by
  cases writers <;> exact apart_of_kind (by decide)

theorem spells_arguments {before between : ArgumentList} {front : List Token}
    {writers : List Writer} {Reading : ArgumentList → Prop}
    (hargument : Spells .required .standard (.argument before between) front)
    (hlast : writers = [] → Reading between)
    (hnext : ∀ ⦃tokens⦄, writers ≠ [] →
      tokens.map Token.word = separated writers (Word.symbol .rightParen :: more) →
      ∃ front back after, tokens = front ++ back ∧ back.map Token.word = more ∧
        Spells .required .standard (.arguments between after) front ∧ Reading after)
    (htokens : tokens.map Token.word = behindArgument writers more) :
    ∃ front' back after, front ++ tokens = front' ++ back ∧ back.map Token.word = more ∧
      Spells .required .standard (.arguments before after) front' ∧ Reading after := by
  cases writers with
  | nil =>
    obtain ⟨closing, back, rfl, hclosing, -, hback⟩ := exists_token_of_map htokens
    exact ⟨front ++ [closing], back, between, by simp, hback,
      .lastArgument hclosing .none hargument, hlast rfl⟩
  | cons writer writers =>
    obtain ⟨comma, rest, rfl, hcomma, -, hrest⟩ := exists_token_of_map htokens
    obtain ⟨more', back, after, hsplit, hback, hmore, hreading⟩ := hnext (by simp) hrest
    refine ⟨front ++ ([comma] ++ more'), back, after, by simp [hsplit], hback, ?_, hreading⟩
    exact .moreArguments ⟨.comma hcomma, by simp⟩ hargument hmore

theorem rereads_named {named : List (String × Expr Mark)}
    (hnamed : ∀ value ∈ named.map Prod.snd, Rereads value)
    (hkeys : ∀ key ∈ named.map Prod.fst, IsPlainName key) (hne : named ≠ [])
    (before : ArgumentList) (hnodup : (before.named.map Prod.fst ++ named.map Prod.fst).Nodup)
    (htokens : tokens.map Token.word =
      separated (namedWriters named) (Word.symbol .rightParen :: more)) :
    ∃ front back after, tokens = front ++ back ∧ back.map Token.word = more ∧
      Spells .required .standard (.arguments before after) front ∧
      ∃ readings, after = ⟨before.positional, before.named ++ readings⟩ ∧
        (unmarkedNamed readings = unmarkedNamed named ↔
          ∀ value ∈ named.map Prod.snd, value.Everywhere PlainSubject) := by
  induction named generalizing tokens before with
  | nil => exact absurd rfl hne
  | cons pair named ih =>
    obtain ⟨key, value⟩ := pair
    simp only [List.map_cons, List.forall_mem_cons] at hnamed hkeys ⊢
    have hfresh : key ∉ before.named.map Prod.fst := by
      intro hmem
      exact (List.disjoint_of_nodup_append hnodup) hmem (by simp)
    rw [namedWriters, separated_cons] at htokens
    obtain ⟨name, rest, rfl, hname, rfl, hrest⟩ := exists_token_of_map htokens
    obtain ⟨assign, rest, rfl, hassign, -, hrest⟩ := exists_token_of_map hrest
    obtain ⟨front, back, reading, rfl, hback, hmarked, -, hsame⟩ :=
      hnamed.1 hrest fun _ => apart_behindArgument _ _
    have hkey : Spells .required .standard (.expr .subject (.name name name.text)) [name] :=
      .name hname hkeys.1.not_boolean hkeys.1.not_reserved
    have hargument := Spells.named hassign hfresh (hkey.loosen (by decide))
      (hmarked.spells.loosen (by decide))
    refine spells_arguments hargument ?_ ?_ hback
    · intro hnil
      cases named with
      | nil => exact ⟨[(name.text, reading)], rfl, by simp [unmarkedNamed, hsame]⟩
      | cons => cases hnil
    · intro tokens hwriters htokens
      have hnext : named ≠ [] := by
        rintro rfl
        exact hwriters rfl
      have hnodup' : ((before.named ++ [(name.text, reading)]).map Prod.fst ++
          named.map Prod.fst).Nodup := by simpa using hnodup
      obtain ⟨front', back', after, hsplit, hback', hspells, readings, rfl, hsames⟩ :=
        ih hnamed.2 hkeys.2 hnext { before with named := before.named ++ [(name.text, reading)] }
          hnodup' htokens
      refine ⟨front', back', _, hsplit, hback', hspells, (name.text, reading) :: readings,
        by simp, ?_⟩
      simp [unmarkedNamed, hsame, hsames]

/-- Nothing is written only where there are no arguments. -/
theorem argumentWriters_eq_nil {positional : List (Expr Mark)} {named : List (String × Expr Mark)}
    (hnil : itemWriters positional ++ namedWriters named = []) : positional = [] ∧ named = [] := by
  obtain ⟨hitems, hnameds⟩ := List.append_eq_nil_iff.1 hnil
  constructor
  · cases positional with
    | nil => rfl
    | cons => cases hitems
  · cases named with
    | nil => rfl
    | cons => cases hnameds

theorem rereads_arguments {positional : List (Expr Mark)} {named : List (String × Expr Mark)}
    (hpositional : ∀ item ∈ positional, Rereads item)
    (hnamed : ∀ value ∈ named.map Prod.snd, Rereads value)
    (hkeys : ∀ key ∈ named.map Prod.fst, IsPlainName key) (hnodup : (named.map Prod.fst).Nodup)
    (hne : itemWriters positional ++ namedWriters named ≠ [])
    (before : ArgumentList) (hbefore : before.named = [])
    (htokens : tokens.map Token.word =
      separated (itemWriters positional ++ namedWriters named) (Word.symbol .rightParen :: more)) :
    ∃ front back after, tokens = front ++ back ∧ back.map Token.word = more ∧
      Spells .required .standard (.arguments before after) front ∧
      ∃ items readings, after = ⟨before.positional ++ items, readings⟩ ∧
        (unmarkedItems items = unmarkedItems positional ∧
          unmarkedNamed readings = unmarkedNamed named ↔
          ∀ value ∈ positional ++ named.map Prod.snd, value.Everywhere PlainSubject) := by
  induction positional generalizing tokens before with
  | nil =>
    have hnamedNe : named ≠ [] := by
      rintro rfl
      exact hne rfl
    obtain ⟨front, back, after, hsplit, hback, hspells, readings, rfl, hsames⟩ :=
      rereads_named hnamed hkeys hnamedNe before (by simpa [hbefore] using hnodup) htokens
    exact ⟨front, back, _, hsplit, hback, hspells, [], readings, by simp [hbefore],
      by simpa [unmarkedItems] using hsames⟩
  | cons item positional ih =>
    rw [List.forall_mem_cons] at hpositional
    rw [itemWriters, List.cons_append, separated_cons] at htokens
    obtain ⟨front, back, reading, rfl, hback, hmarked, -, hsame⟩ :=
      hpositional.1 htokens fun _ => apart_behindArgument _ _
    have hargument : Spells .required .standard
        (.argument before { before with positional := before.positional ++ [reading] }) front :=
      .positional (hmarked.spells.loosen (by decide))
    refine spells_arguments hargument ?_ ?_ hback
    · intro hnil
      obtain ⟨rfl, rfl⟩ := argumentWriters_eq_nil hnil
      exact ⟨[reading], [], by simp [hbefore],
        by simp [unmarkedItems, unmarkedNamed, hsame]⟩
    · intro tokens hwriters htokens
      obtain ⟨front', back', after, hsplit, hback', hspells, items, readings, rfl, hsames⟩ :=
        ih hpositional.2 hwriters { before with positional := before.positional ++ [reading] }
          hbefore htokens
      refine ⟨front', back', _, hsplit, hback', hspells, reading :: items, readings, by simp, ?_⟩
      rw [List.cons_append, List.forall_mem_cons, ← hsames, ← hsame]
      simp only [unmarkedItems, List.cons.injEq, and_assoc]

/-- The arguments of a call or of a filter behind the opening parenthesis. -/
theorem rereads_argumentList {positional : List (Expr Mark)} {named : List (String × Expr Mark)}
    (hbelow : ∀ value ∈ positional ++ named.map Prod.snd, Rereads value)
    (hkeys : ∀ key ∈ named.map Prod.fst, IsPlainName key) (hnodup : (named.map Prod.fst).Nodup)
    (htokens : tokens.map Token.word =
      separated (itemWriters positional ++ namedWriters named) (Word.symbol .rightParen :: more)) :
    ∃ front back values, tokens = front ++ back ∧ back.map Token.word = more ∧
      Spells .required .standard (.argumentList values) front ∧
      (unmarkedItems values.positional = unmarkedItems positional ∧
        unmarkedNamed values.named = unmarkedNamed named ↔
        ∀ value ∈ positional ++ named.map Prod.snd, value.Everywhere PlainSubject) := by
  rw [List.forall_mem_append] at hbelow
  by_cases hne : itemWriters positional ++ namedWriters named = []
  · rw [hne] at htokens
    obtain ⟨closing, back, rfl, hclosing, -, hback⟩ := exists_token_of_map htokens
    obtain ⟨rfl, rfl⟩ := argumentWriters_eq_nil hne
    exact ⟨[closing], back, {}, rfl, hback, .noArguments hclosing,
      by simp [unmarkedItems, unmarkedNamed]⟩
  · obtain ⟨front, back, after, hsplit, hback, hspells, items, readings, rfl, hsames⟩ :=
      rereads_arguments hbelow.1 hbelow.2 hkeys hnodup hne {} rfl htokens
    exact ⟨front, back, _, hsplit, hback, .someArguments hspells, by simpa using hsames⟩

end Lists

section Postfix

variable {Mark : Type} {tokens : List Token} {words : List Word} {subject : Expr Mark}

theorem rereads_subject (hsubject : Rereads subject) (hbool : subject.core.isBool = false)
    (hapart : subject.core.isInteger → subject.isInteger ∨ Apart words)
    (htokens : tokens.map Token.word = subjectWriter subject subject.writer words) :
    ∃ front back reading, tokens = front ++ back ∧ back.map Token.word = words ∧
      Marked .required .standard reading front ∧ reading.core.isBool = false ∧
      (reading.unmarked = subject.unmarked ↔ subject.Everywhere PlainSubject) := by
  by_cases hinteger : subject.isInteger
  · cases subject with
    | integer mark value =>
      obtain ⟨opening, rest, rfl, hopening, -, hrest⟩ := exists_token_of_map htokens
      obtain ⟨front, closing, back, reading, rfl, hclosing, -, hback, hspells, hsame⟩ :=
        hsubject.apart hrest (by decide)
      have hreading : reading.unmarked = (integer mark value).unmarked :=
        hsame.2 (.node (by simp [PlainSubject, subject?]) (by simp [children]))
      cases reading with
      | integer token value =>
        exact ⟨opening :: (front ++ [closing]), back, _, by simp, hback,
          .subject rfl (.group hopening hclosing (hspells.loosen (by decide))), rfl, hsame⟩
      | _ => cases hreading
    | _ => cases hinteger
  · have hwriter : subjectWriter subject subject.writer words = subject.writer words := by
      cases subject with
      | integer => exact absurd rfl hinteger
      | _ => rfl
    obtain ⟨front, back, reading, rfl, hback, hmarked, hreading, hsame⟩ :=
      hsubject (htokens.trans hwriter) fun hcore => (hapart hcore).resolve_left hinteger
    refine ⟨front, back, reading, rfl, hback, hmarked, ?_, hsame⟩
    by_contra hcontra
    rw [hreading (by simpa using hcontra)] at hbool
    cases hbool

/-- A postfix form is read back at its place exactly if its subject is no spread. -/
theorem plainSubject_iff {reading : Expr Token}
    (hsame : reading.unmarked = subject.unmarked ↔ subject.Everywhere PlainSubject) :
    reading.isSpread = false ∧ reading.unmarked = subject.unmarked ↔
      subject.isSpread = false ∧ subject.Everywhere PlainSubject := by
  rw [← hsame]
  refine and_congr_left fun hunmarked => ?_
  rw [← isSpread_unmarked reading, hunmarked, isSpread_unmarked]

/-- The tokens of a postfix form behind those of its subject. -/
theorem rereads_of_wrap {expr : Expr Mark} {front post back : List Token} {more : List Word}
    {reading : Expr Token} {wrap : Expr Token → Expr Token}
    (hmore : back.map Token.word = more)
    (hmarked : Marked .required .standard reading front) (hbool : reading.core.isBool = false)
    (hform : ∀ subject, (wrap subject).isSpread = false ∧ (wrap subject).isBool = false)
    (hwrap : ∀ subject tokens, Spells .required .standard (.expr .subject subject) tokens →
      Spells .required .standard (.expr .subject (wrap subject)) (tokens ++ post))
    (hexpr : expr.isSpread = false)
    (hsame : reading.isSpread = false ∧ (wrap reading).unmarked = expr.unmarked ↔
      expr.Everywhere PlainSubject) :
    ∃ front' back' reading', front ++ (post ++ back) = front' ++ back' ∧
      back'.map Token.word = more ∧ Marked .required .standard reading' front' ∧
      (reading'.core.isBool → expr.core.isBool) ∧
      (reading'.unmarked = expr.unmarked ↔ expr.Everywhere PlainSubject) := by
  refine ⟨front ++ post, back, reading.underSpreads wrap, by simp, hmore,
    hmarked.underSpreads hbool (fun subject => (hform subject).1) hwrap, ?_, ?_⟩
  · rw [core_underSpreads fun subject => (hform subject).1, (hform _).2]
    exact fun hcontra => absurd hcontra (by simp)
  · rwa [unmarked_underSpreads_eq_iff (by rwa [isSpread_unmarked])]

end Postfix

end Expr

end Stencil
