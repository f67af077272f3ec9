import Stencil.Grammar.Document
import Stencil.Proofs.Block.Grammar
import Stencil.Proofs.Spelling.Soundness

/-!
# Nodes of a template

The nodes of a template are read one after the other, and what is read as one of them does not
depend on what follows: a block is read just as the expression that it holds is read by itself.
-/

namespace Stencil

namespace Rule

variable {α : Type}

/-- The results of a step up to where it declines.  Every round but the last one moves past a
token. -/
inductive Collects (step : Rule (Option α)) : TokenStream → List α → Prop where
  | stop {stream rest} : Reads step stream none rest → Collects step stream []
  | next {stream value between values} : Reads step stream (some value) between →
      between.upcoming.length < stream.upcoming.length → Collects step between values →
      Collects step stream (value :: values)

variable {step : Rule (Option α)} {stream rest : TokenStream} {values : List α}

theorem Collects.reads_collectOver (hcollects : Collects step stream values) {tokens : List Token}
    (hlength : stream.upcoming.length ≤ tokens.length) :
    ∃ rest, Reads (collectOver step tokens) stream values rest := by
  induction hcollects generalizing tokens with
  | @stop stream _ hstop =>
    cases tokens with
    | nil => exact ⟨stream, reads_pure.2 ⟨rfl, rfl⟩⟩
    | cons token tokens => exact ⟨_, hstop.bind (reads_pure.2 ⟨rfl, rfl⟩)⟩
  | @next stream value between values hstep hshorter _ ih =>
    cases tokens with
    | nil => exact absurd (hshorter.trans_le hlength) (Nat.not_lt_zero _)
    | cons token tokens =>
      rw [List.length_cons] at hlength
      have htokens : between.upcoming.length ≤ tokens.length := by omega
      obtain ⟨rest, hrest⟩ := ih htokens
      exact ⟨rest, hstep.bind (hrest.bind (reads_pure.2 ⟨rfl, rfl⟩))⟩

/-- Values that are collected one by one are collected by the loop. -/
theorem Collects.reads (hcollects : Collects step stream values) :
    ∃ rest, Reads (collectWhile step) stream values rest := by
  obtain ⟨rest, hrest⟩ := hcollects.reads_collectOver le_rfl
  exact ⟨rest, Reads.bind (reads_get.2 ⟨rfl, rfl⟩) hrest⟩

/-- The bound on the number of results is never what ends them. -/
theorem collects_of_reads_collectOver
    (hconsumes : ∀ {stream value rest}, Reads step stream (some value) rest → stream.Ends →
      ∃ token tokens, stream = rest.prepend (token :: tokens))
    (hstops : ∀ {stream : TokenStream}, stream.Ends → stream.upcoming = [] →
      Reads step stream none stream)
    {tokens : List Token} (hlength : stream.upcoming.length ≤ tokens.length) (hends : stream.Ends)
    (hreads : Reads (collectOver step tokens) stream values rest) :
    Collects step stream values := by
  induction tokens generalizing stream values with
  | nil =>
    obtain ⟨rfl, rfl⟩ := reads_pure.1 hreads
    exact .stop (hstops hends (List.length_eq_zero_iff.1 (Nat.le_zero.1 hlength)))
  | cons token tokens ih =>
    obtain ⟨found, between, hstep, hrest⟩ := reads_bind.1 hreads
    cases found with
    | none =>
      obtain ⟨rfl, -⟩ := reads_pure.1 hrest
      exact .stop hstep
    | some value =>
      obtain ⟨more, last, hmore, hdone⟩ := reads_bind.1 hrest
      obtain ⟨rfl, rfl⟩ := reads_pure.1 hdone
      obtain ⟨first, moved, rfl⟩ := hconsumes hstep hends
      rw [TokenStream.upcoming_prepend, List.length_append, List.length_cons] at hlength
      rw [List.length_cons] at hlength
      have hshorter :
          between.upcoming.length < (between.prepend (first :: moved)).upcoming.length := by
        rw [TokenStream.upcoming_prepend, List.length_append, List.length_cons]
        omega
      exact .next hstep hshorter (ih (by omega) hends hmore)

/-- A step that yields something yields the first of the values. -/
theorem collects_iff_of_some {value : α} {between : TokenStream}
    (hstep : Reads step stream (some value) between)
    (hshorter : between.upcoming.length < stream.upcoming.length) :
    Collects step stream values ↔ ∃ more, values = value :: more ∧ Collects step between more := by
  constructor
  · rintro (hstop | ⟨hnext, -, hmore⟩)
    · cases (hstep.unique hstop).1
    · obtain ⟨hsame, rfl⟩ := hnext.unique hstep
      cases hsame
      exact ⟨_, rfl, hmore⟩
  · rintro ⟨more, rfl, hmore⟩
    exact .next hstep hshorter hmore

theorem collects_iff_of_none (hstep : Reads step stream none rest) :
    Collects step stream values ↔ values = [] := by
  constructor
  · rintro (hstop | ⟨hnext, -, -⟩)
    · rfl
    · cases (hnext.unique hstep).1
  · rintro rfl
    exact .stop hstep

end Rule

namespace Grammar

open Rule

variable {dialect : Dialect} {stream inner : TokenStream}

/-! ## Blocks -/

/-- What becomes of a whole expression, and of the block that holds it. -/
inductive Settled (block : Enclosure) : Except SyntaxError (Expr Token) × TokenStream →
    Except SyntaxError (Option (Node Token)) × TokenStream → Prop where
  | ok {expr rest} : Settled block (.ok expr, rest)
      (.ok (some (.output (block.move expr))), block.behind)
  | error {error error' rest rest'} : Settled block (.error error, rest) (.error error', rest')

/-- The rule for a block whose opening braces have been read. -/
def blockRest (dialect : Dialect) (opening : Token) : Rule (Option (Node Token)) := do
  let expr ← expression dialect
  expect .variableEnd (node?.unclosed opening)
  return some (.output expr)

theorem fails_unclosed {opening : Token} : (node?.unclosed opening).Fails :=
  fun _ => ⟨_, _, rfl⟩

theorem settled_block {block : Enclosure} {opening : Token}
    (hmirrors : Mirrors block stream inner) :
    Settled block ((wholeExpression dialect).runOn stream)
      ((blockRest dialect opening).runOn inner) := by
  have hagrees := agrees_expression dialect hmirrors
  unfold Agrees at hagrees
  unfold wholeExpression blockRest
  rw [runOn_bind, runOn_bind]
  generalize (expression dialect).runOn stream = outcome,
    (expression dialect).runOn inner = outcome' at hagrees
  cases hagrees with
  | error => exact .error
  | @ok expr _ rest rest' hsame hrest _ =>
    obtain rfl := hsame
    dsimp only
    rw [runOn_bind, runOn_bind]
    by_cases heof : rest.current.kind = .eof
    · have hnil : rest.upcoming = [] :=
        TokenStream.eq_nil_of_current_eof (fun token hmem hkind =>
          hrest.plain token hmem (by simp [endKinds, hkind])) heof
      obtain ⟨closing, hclosing, rfl⟩ := hrest.enclosed
      rw [hnil, List.map_nil, List.nil_append, reads_expect_current heof, reads_expect hclosing]
      exact .ok
    · obtain ⟨hsame, -⟩ := hrest.advance heof
      have hkind := hrest.kind_not_mem heof
      have hend : rest'.current.kind ≠ .variableEnd := by
        intro hend
        rw [hsame, block.kind_change] at hend
        exact hkind (by simp [endKinds, hend])
      obtain ⟨error, left, herror⟩ := fails_expect fails_failHere heof
      obtain ⟨error', left', herror'⟩ := fails_expect fails_unclosed hend
      rw [herror, herror']
      exact .error

/-! ## Nodes -/

theorem runOn_node? (hkind : stream.current.kind = .variableBegin) :
    (node? dialect).runOn stream = (blockRest dialect stream.current).runOn stream.advance := by
  have htake : Reads (take? [.data, .variableBegin, .eof]) stream (some stream.current)
      stream.advance := reads_take?_of_mem (by simp [hkind])
  rw [node?, runOn_bind, htake]
  simp only [hkind]
  rfl

theorem reads_node?_none (hkind : stream.current.kind = .eof) :
    Reads (node? dialect) stream none stream.advance := by
  refine (reads_take?_of_mem (by simp [hkind])).bind ?_
  simp only [hkind]
  exact reads_pure.2 ⟨rfl, rfl⟩

theorem reads_node?_data (hkind : stream.current.kind = .data) :
    Reads (node? dialect) stream (some (.text stream.current.text)) stream.advance := by
  refine (reads_take?_of_mem (by simp [hkind])).bind ?_
  simp only [hkind]
  exact reads_pure.2 ⟨rfl, rfl⟩

/-- Every node moves past a token. -/
theorem node?_consumes {node : Node Token} {rest : TokenStream}
    (hreads : Reads (node? dialect) stream (some node) rest) (hends : stream.Ends) :
    ∃ token tokens, stream = rest.prepend (token :: tokens) := by
  obtain ⟨found, between, htake, hrest⟩ := reads_bind.1 hreads
  rw [reads_take?] at htake
  split at htake
  · next hkind =>
    obtain ⟨rfl, rfl⟩ := htake
    simp only [List.mem_cons, List.not_mem_nil, or_false] at hkind
    rcases hkind with hkind | hkind | hkind
    · simp only [hkind] at hrest
      obtain ⟨-, rfl⟩ := reads_pure.1 hrest
      exact ⟨stream.current, [], hends.eq_prepend (by simp [hkind])⟩
    · simp only [hkind] at hrest
      obtain ⟨expr, left, hexpr, hclosing⟩ := reads_bind.1 hrest
      obtain ⟨tokens, hadvance, -⟩ := expression_spelled dialect hexpr hends
      have hleft : left.Ends := by
        rw [← TokenStream.ends_prepend, ← hadvance]
        exact hends
      obtain ⟨closing, last, -, rfl, hdone⟩ :=
        hclosing.expect_bind hleft (fun hfail => by cases hfail) (by decide)
      obtain ⟨-, rfl⟩ := reads_pure.1 hdone
      refine ⟨stream.current, tokens ++ [closing], ?_⟩
      rw [hends.eq_prepend (by simp [hkind]), hadvance]
      simp
    · simp only [hkind] at hrest
      cases (reads_pure.1 hrest).1
  · obtain ⟨rfl, rfl⟩ := htake
    exact absurd hrest not_reads_failHere

theorem reads_node?_end (hends : stream.Ends) (hnil : stream.upcoming = []) :
    Reads (node? dialect) stream none stream := by
  have hadvance : stream.advance = stream := by
    rw [TokenStream.advance, hnil]
    rw [List.tail_nil, ← hnil]
  have hnone : Reads (node? dialect) stream none stream.advance :=
    reads_node?_none (hends.current_kind hnil)
  rwa [hadvance] at hnone

theorem parseTokens_body_iff {tokens : List Token} {nodes : List (Node Token)} :
    parseTokens (body dialect) tokens = .ok nodes ↔
      Collects (node? dialect) (.ofTokens tokens) nodes := by
  have hends := TokenStream.ofTokens_ends tokens
  constructor
  · intro hparse
    obtain ⟨rest, hreads⟩ := reads_of_parseTokens hparse
    obtain ⟨state, between, hget, hover⟩ := reads_bind.1 hreads
    obtain ⟨rfl, rfl⟩ := reads_get.1 hget
    exact collects_of_reads_collectOver node?_consumes reads_node?_end le_rfl hends hover
  · intro hcollects
    obtain ⟨rest, hrest⟩ := hcollects.reads
    exact parseTokens_of_reads hrest

/-! ## Texts, blocks and the end -/

section

variable {token opening closing last : Token} {words : List Token} {nodes : List (Node Token)}

theorem collects_end_iff (hends : stream.Ends) (hnil : stream.upcoming = []) :
    Collects (node? dialect) stream nodes ↔ nodes = [] :=
  collects_iff_of_none (reads_node?_end hends hnil)

theorem collects_data_iff (hkind : token.kind = .data) :
    Collects (node? dialect) (stream.prepend [token]) nodes ↔
      ∃ more, nodes = .text token.text :: more ∧ Collects (node? dialect) stream more := by
  have hreads : Reads (node? dialect) (stream.prepend [token]) (some (.text token.text)) stream :=
    reads_node?_data hkind
  exact collects_iff_of_some hreads (Nat.lt_succ_self _)

/-- A block is read as the expression that it holds is read by itself. -/
theorem collects_block_iff (block : Enclosure) (hopening : opening.kind = .variableBegin)
    (hclosing : closing.kind = .variableEnd) (hlast : last.kind = .eof)
    (hwords : ∀ token ∈ words, token.kind ∉ endKinds) :
    Collects (node? dialect)
        (block.behind.prepend (opening :: (words.map block.change ++ [closing]))) nodes ↔
      ∃ expr more, parseTokens (wholeExpression dialect) (words ++ [last]) = .ok expr ∧
        nodes = .output (block.move expr) :: more ∧
        Collects (node? dialect) block.behind more := by
  have hmirrors : Mirrors block ⟨words, last⟩
      (block.behind.prepend (words.map block.change ++ [closing])) :=
    ⟨⟨closing, hclosing, rfl⟩, hwords, hlast⟩
  have hsettled : Settled block ((wholeExpression dialect).runOn ⟨words, last⟩)
      ((blockRest dialect opening).runOn
        (block.behind.prepend (words.map block.change ++ [closing]))) :=
    settled_block hmirrors
  have hnode : (node? dialect).runOn
        (block.behind.prepend (opening :: (words.map block.change ++ [closing]))) =
      (blockRest dialect opening).runOn
        (block.behind.prepend (words.map block.change ++ [closing])) :=
    runOn_node? hopening
  have hplain : ∀ token ∈ words, token.kind ≠ .eof :=
    fun token hmem hkind => hwords token hmem (by simp [endKinds, hkind])
  rw [parseTokens_eq, TokenStream.ofTokens_append_singleton hplain hlast]
  rw [← hnode] at hsettled
  generalize houtcome : (wholeExpression dialect).runOn ⟨words, last⟩ = outcome at hsettled ⊢
  generalize hblock : (node? dialect).runOn
    (block.behind.prepend (opening :: (words.map block.change ++ [closing]))) = outcome' at hsettled
  cases hsettled with
  | @ok expr rest =>
    have hshorter : block.behind.upcoming.length <
        (block.behind.prepend
          (opening :: (words.map block.change ++ [closing]))).upcoming.length := by
      rw [TokenStream.upcoming_prepend, List.length_append, List.length_cons]
      omega
    rw [collects_iff_of_some hblock hshorter]
    simp
  | error =>
    constructor
    · rintro (hstop | ⟨hnext, -, -⟩)
      · cases hblock.symm.trans hstop
      · cases hblock.symm.trans hnext
    · rintro ⟨expr, more, hparse, -⟩
      cases hparse

theorem collects_output_iff (hends : stream.Ends) (hopening : opening.kind = .variableBegin)
    (hclosing : closing.kind = .variableEnd) (hlast : last.kind = .eof)
    (hwords : ∀ token ∈ words, token.kind ∉ endKinds) :
    Collects (node? dialect) (stream.prepend (opening :: (words ++ [closing]))) nodes ↔
      ∃ expr more, parseTokens (wholeExpression dialect) (words ++ [last]) = .ok expr ∧
        nodes = .output expr :: more ∧ Collects (node? dialect) stream more := by
  let block : Enclosure := ⟨id, ⟨fun _ => rfl⟩, stream, hends⟩
  have hmove (expr : Expr Token) : block.move expr = expr := Expr.mapMarks_id expr
  have hwords' : words.map block.change = words := List.map_id words
  have hiff : Collects (node? dialect)
      (block.behind.prepend (opening :: (words.map block.change ++ [closing]))) nodes ↔ _ :=
    collects_block_iff block hopening hclosing hlast hwords
  simpa only [hmove, hwords'] using hiff

end

end Grammar

end Stencil
