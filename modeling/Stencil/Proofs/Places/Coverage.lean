import Stencil.Proofs.Places.Layout
import Stencil.Proofs.Template.Scanning
import Stencil.Proofs.Words.Longest
import Stencil.Proofs.Words.Scanned

/-!
# What tokens cover

A text that is scanned is laid out in stretches.  Each of them is covered by one token or is left
out, and which of the two it is depends on whether the stretch stands in literal text, in a bare
expression or in a block.  Scanning fails where no further stretch can be laid out.
-/

namespace Stencil

/-! ## Lines and columns -/

/-- The line of what stands behind some characters. -/
def lineAfter (before : List Char) : Nat :=
  1 + before.count '\n'

/-- The column of what stands behind some characters, counted from the last line feed. -/
def columnAfter (before : List Char) : Nat :=
  1 + (before.reverse.takeWhile fun char => char != '\n').length

theorem Position.afterAll_start (chars : List Char) :
    Position.start.afterAll chars = ⟨chars.length, lineAfter chars, columnAfter chars⟩ := by
  induction chars using List.reverseRecOn with
  | nil => rfl
  | append_singleton chars char ih =>
    rw [afterAll_append, ih, afterAll_cons, afterAll_nil, after]
    by_cases hfeed : char = '\n'
    · simp [hfeed, lineAfter, columnAfter, Nat.add_assoc]
    · simp [hfeed, lineAfter, columnAfter, Nat.add_comm]

/-! ## Stretches -/

/-- What a stretch of a text stands in. -/
inductive Region where
  | literal
  | expression
  | block
  deriving DecidableEq

namespace Region

/-- The region that is scanned in a mode. -/
def ofMode : ScanMode → Region
  | .literal => literal
  | .expression => expression
  | .block _ => block

/-- The region behind a token; only the delimiters of a block change it. -/
def after (kind : Kind) (region : Region) : Region :=
  match kind with
  | .variableBegin => block
  | .variableEnd => literal
  | _ => region

variable {region : Region} {kind : Kind} {mode : ScanMode}

theorem ofMode_ne_literal (hmode : mode ≠ .literal) : ofMode mode ≠ literal := by
  cases mode with
  | literal => exact absurd rfl hmode
  | expression | block => exact Region.noConfusion

theorem after_of_word (hkind : kind ∉ [Kind.eof, .data, .variableBegin, .variableEnd]) :
    region.after kind = region := by
  cases kind <;> simp_all [after]

theorem after_ne_expression (hregion : region ≠ expression) :
    region.after kind ≠ expression := by
  cases kind <;> simp [after, hregion]

theorem ofMode_after : ofMode (mode.after kind) = ofMode mode := by
  cases mode <;> cases kind <;> rfl

end Region

/-- What is left out in a region. -/
inductive Omits : Region → List Char → Prop where
  | blank {region char} : region ≠ .literal → Text.isBlank char → Omits region [char]
  | comment {body} : ¬ ['#', '}'] <:+: body →
      Omits .literal ('{' :: '#' :: (body ++ ['#', '}']))

/-- What a token of a kind and a text covers in a region. -/
inductive Reads : Region → Kind → String → List Char → Prop where
  | data {chars} : chars ≠ [] → (∀ mark ∈ openingMarks, ¬ ['{', mark] <:+: chars) →
      Reads .literal .data (String.ofList chars) chars
  | opening : Reads .literal .variableBegin "\x7b\x7b" ['{', '{']
  | closing : Reads .block .variableEnd "\x7d\x7d" ['}', '}']
  | word {region afterDot kind first tail rest} : region ≠ .literal →
      Lexeme.read afterDot first rest = .ok ⟨kind, first :: tail⟩ →
      Reads region kind (Lexeme.text ⟨kind, first :: tail⟩) (first :: tail)

/-- Why nothing can be laid out before a text: no word starts there, or what starts there does not
end. -/
inductive Offends : Region → ScanFault → List Char → Prop where
  | character {region char rest} : region ≠ .literal → ¬ Text.isBlank char →
      ¬ Lexeme.isQuote char → (∀ afterDot, Lexeme.NoneStarts afterDot (char :: rest)) →
      Offends region (.unexpectedCharacter char) (char :: rest)
  | string {region quote rest} : region ≠ .literal → Lexeme.isQuote quote →
      (∀ body, Lexeme.IsQuotable quote body → ¬ body ++ [quote] <+: rest) →
      Offends region .unterminatedString (quote :: rest)
  | comment {rest} : ¬ ['#', '}'] <:+: rest →
      Offends .literal .unterminatedComment ('{' :: '#' :: rest)
  | statement {rest} : Offends .literal .statementBlock ('{' :: '%' :: rest)
  | block : Offends .block .unterminatedVariable []

theorem commentTail?_eq_append {chars tail : List Char} (htail : commentTail? chars = some tail) :
    ∃ body, tail = body ++ ['#', '}'] ∧ ¬ ['#', '}'] <:+: body := by
  fun_induction commentTail? chars generalizing tail with
  | case1 => cases htail
  | case2 rest =>
    cases htail
    exact ⟨[], rfl, by simp⟩
  | case3 char rest hopen ih =>
    obtain ⟨inner, hinner, rfl⟩ := Option.map_eq_some_iff.1 htail
    obtain ⟨body, rfl, hbody⟩ := ih hinner
    refine ⟨char :: body, rfl, fun hinside => ?_⟩
    rcases List.infix_cons_iff.1 hinside with hstart | hbehind
    · obtain ⟨rfl, more, hmore⟩ := List.cons_prefix_cons.1 hstart
      obtain ⟨behind, rfl⟩ := commentTail?_isPrefix hinner
      exact hopen (more ++ ['#', '}'] ++ behind) rfl (by simp [← hmore])
    · exact hbody hbehind

theorem not_isInfix_of_commentTail? {chars : List Char} (htail : commentTail? chars = none) :
    ¬ ['#', '}'] <:+: chars := by
  fun_induction commentTail? chars with
  | case1 => simp
  | case2 => cases htail
  | case3 char rest hopen ih =>
    intro hinside
    rcases List.infix_cons_iff.1 hinside with hstart | hbehind
    · obtain ⟨rfl, more, hmore⟩ := List.cons_prefix_cons.1 hstart
      exact hopen more rfl hmore.symm
    · exact ih (Option.map_eq_none_iff.1 htail) hbehind

theorem literalText_isPrefix (chars : List Char) : literalText chars <+: chars := by
  induction chars with
  | nil => exact List.nil_prefix
  | cons first rest ih =>
    rw [literalText]
    split
    · exact List.nil_prefix
    · exact (List.prefix_cons_inj first).2 ih

/-- No block, comment or statement opens in literal text. -/
theorem not_isInfix_literalText {mark : Char} (hmark : mark ∈ openingMarks) (chars : List Char) :
    ¬ ['{', mark] <:+: literalText chars := by
  induction chars with
  | nil => simp [literalText]
  | cons first rest ih =>
    rw [literalText]
    split
    · simp
    · next hopens =>
      intro hinside
      rcases List.infix_cons_iff.1 hinside with hstart | hbehind
      · obtain ⟨rfl, more, hmore⟩ := List.cons_prefix_cons.1 hstart
        cases rest with
        | nil => cases hmore
        | cons second rest =>
          rw [literalText] at hmore
          split at hmore
          · cases hmore
          · cases hmore
            exact hopens (opensBlock_iff.2 ⟨rfl, mark, rfl, hmark⟩)
      · exact ih hbehind

namespace Reads

variable {region : Region} {kind : Kind} {text : String} {chars : List Char}

theorem ne_nil (hreads : Reads region kind text chars) : chars ≠ [] := by
  cases hreads with
  | data hne => exact hne
  | opening | closing | word => exact List.cons_ne_nil _ _

theorem kind_ne_eof (hreads : Reads region kind text chars) : kind ≠ .eof := by
  cases hreads with
  | data | opening | closing => exact Kind.noConfusion
  | word _ hread =>
    have hkind := Lexeme.kind_of_read hread
    simp only [List.mem_cons, not_or] at hkind
    exact hkind.1

/-- The text of a token is what it covers, without the quotes of a string. -/
theorem text_eq (hreads : Reads region kind text chars) :
    (kind ≠ .string → text.toList = chars) ∧
      (kind = .string →
        ∃ quote, Lexeme.isQuote quote ∧ chars = quote :: (text.toList ++ [quote])) := by
  cases hreads with
  | data | opening | closing => exact ⟨fun _ => by simp, Kind.noConfusion⟩
  | word _ hread =>
    refine ⟨fun hkind => by simp [Lexeme.text], fun hkind => ?_⟩
    subst hkind
    obtain ⟨hquote, body, hsource, -⟩ := quoted_of_read hread rfl
    cases hsource
    exact ⟨_, hquote, by simp [Lexeme.text]⟩

/-- Literal text is not empty, stands outside of all blocks and opens none. -/
theorem of_data (hreads : Reads region .data text chars) :
    region = .literal ∧ text ≠ "" ∧ ∀ mark ∈ openingMarks, ¬ ['{', mark] <:+: text.toList := by
  cases hreads with
  | data hne hmarks =>
    refine ⟨rfl, fun hempty => hne ?_, by simpa using hmarks⟩
    simpa using congrArg String.toList hempty
  | word _ hread => exact absurd (Lexeme.kind_of_read hread) (by simp)

theorem region_ne_literal (hreads : Reads region kind text chars)
    (hkind : kind ∉ [Kind.data, .variableBegin, .variableEnd]) : region ≠ .literal := by
  cases hreads with
  | data | opening | closing => exact absurd hkind (by decide)
  | word hregion => exact hregion

theorem isScanned (hreads : Reads region kind text chars)
    (hkind : kind ∉ [Kind.data, .variableBegin, .variableEnd]) : Word.IsScanned ⟨kind, text⟩ := by
  cases hreads with
  | data | opening | closing => exact absurd hkind (by decide)
  | word _ hread => exact ⟨_, _, _, _, hread, rfl⟩

end Reads

/-- A word that cannot be read offends, whether a dot stands before it or not. -/
theorem offends_of_read {region : Region} {afterDot : Bool} {first : Char} {rest : List Char}
    {fault : ScanFault} (hregion : region ≠ .literal) (hblank : ¬ Text.isBlank first)
    (hread : Lexeme.read afterDot first rest = .error fault) :
    Offends region fault (first :: rest) := by
  have hnone (other : Bool) : Lexeme.NoneStarts other (first :: rest) := by
    have hother : Lexeme.read other first rest = .error fault := by
      unfold Lexeme.read at hread ⊢
      split at hread
      · cases hread
      · next hdigit => rwa [if_neg hdigit]
    exact (Lexeme.read_eq_error_iff.1 hother).1
  rw [Lexeme.fault_of_read hread]
  split_ifs with hquote
  · refine .string hregion hquote fun body hbody hbegins => ?_
    exact hnone false _ _ (.string hquote hbody) ((List.prefix_cons_inj first).2 hbegins)
  · exact .character hregion hblank hquote hnone

namespace Token

/-- What one round of scanning takes off the front of a text: a token with a kind and a text, or
what is left out.  Literal text goes on to the next opening mark, and a word is the longest one. -/
inductive Stretch : ScanMode → Bool → Option Word → List Char → List Char → ScanMode → Bool → Prop
    where
  | blank {mode afterDot char rest} : mode ≠ .literal → Text.isBlank char →
      Stretch mode afterDot none [char] rest mode afterDot
  | comment {afterDot body rest} : ¬ ['#', '}'] <:+: body →
      Stretch .literal afterDot none ('{' :: '#' :: (body ++ ['#', '}'])) rest .literal false
  | data {afterDot chars rest} : chars ≠ [] → literalText (chars ++ rest) = chars →
      Stretch .literal afterDot (some ⟨.data, String.ofList chars⟩) chars rest .literal false
  | opening {afterDot rest} :
      Stretch .literal afterDot (some ⟨.variableBegin, "\x7b\x7b"⟩) ['{', '{'] rest (.block 0) false
  | closing {afterDot rest} :
      Stretch (.block 0) afterDot (some ⟨.variableEnd, "\x7d\x7d"⟩) ['}', '}'] rest .literal false
  | word {mode afterDot kind first tail rest} : mode ≠ .literal → ¬ Text.isBlank first →
      mode.closesWith first (tail ++ rest) = false →
      Lexeme.IsLongest afterDot (first :: (tail ++ rest)) ⟨kind, first :: tail⟩ →
      Stretch mode afterDot (some ⟨kind, Lexeme.text ⟨kind, first :: tail⟩⟩) (first :: tail) rest
        (mode.after kind) (kind == .dot)

/-- What scanning the text that remains at a position comes to, one stretch after the other. -/
inductive ScansTo :
    ScanMode → Bool → Position → List Char → Except ScanError (List Token) → Prop where
  | eof {mode afterDot position} : Region.ofMode mode ≠ .block →
      ScansTo mode afterDot position [] (.ok [covering .eof "" position []])
  | fault {mode afterDot position fault chars} : Offends (.ofMode mode) fault chars →
      ScansTo mode afterDot position chars (.error (.ofFault fault position))
  | gap {mode afterDot position chars rest mode' afterDot' result} :
      Stretch mode afterDot none chars rest mode' afterDot' →
      ScansTo mode' afterDot' (position.afterAll chars) rest result →
      ScansTo mode afterDot position (chars ++ rest) result
  | token {mode afterDot position word chars rest mode' afterDot' result} :
      Stretch mode afterDot (some word) chars rest mode' afterDot' →
      ScansTo mode' afterDot' (position.afterAll chars) rest result →
      ScansTo mode afterDot position (chars ++ rest)
        (do return covering word.kind word.text position chars :: (← result))

theorem scansTo_scanFrom (mode : ScanMode) (afterDot : Bool) (position : Position)
    (chars : List Char) :
    ScansTo mode afterDot position chars (scanFrom mode afterDot position chars) := by
  fun_induction scanFrom mode afterDot position chars with
  | case1 => exact .fault .block
  | case2 afterDot position mode hblock =>
    refine .eof ?_
    cases mode with
    | literal | expression => exact Region.noConfusion
    | block depth => exact absurd rfl (hblock depth)
  | case3 afterDot position first inner _ hopens =>
    rename_i ih
    obtain ⟨rfl, -⟩ := opensBlock_iff.1 hopens
    exact .token .opening ih
  | case4 afterDot position first inner tail htail hopens ih =>
    obtain ⟨rfl, -⟩ := opensBlock_iff.1 hopens
    obtain ⟨body, rfl, hbody⟩ := commentTail?_eq_append htail
    obtain ⟨rest, rfl⟩ := commentTail?_isPrefix htail
    rw [List.drop_left] at ih ⊢
    exact .gap (.comment hbody) ih
  | case5 afterDot position first inner htail hopens =>
    obtain ⟨rfl, -⟩ := opensBlock_iff.1 hopens
    exact .fault (.comment (not_isInfix_of_commentTail? htail))
  | case6 afterDot position first rest hopens hvariable hcomment =>
    obtain ⟨rfl, second, hsecond, hmark⟩ := opensBlock_iff.1 hopens
    obtain ⟨behind, rfl⟩ := List.head?_eq_some_iff.1 hsecond
    obtain rfl : second = '%' := by
      simp only [openingMarks, List.mem_cons, List.not_mem_nil, or_false] at hmark
      exact (hmark.resolve_left fun heq => hvariable behind (heq ▸ rfl)).resolve_left
        fun heq => hcomment behind (heq ▸ rfl)
    exact .fault .statement
  | case7 afterDot position first rest hopens =>
    rename_i ih
    have hrest : literalText rest ++ rest.drop (literalText rest).length = rest :=
      (List.prefix_append_drop (literalText_isPrefix rest)).symm
    have hdata : literalText (first :: literalText rest ++ rest.drop (literalText rest).length) =
        first :: literalText rest := by
      rw [List.cons_append, hrest, literalText_cons (Bool.eq_false_iff.2 hopens)]
    have hstretch : Stretch .literal afterDot _ _ _ _ _ := .data (List.cons_ne_nil _ _) hdata
    have htoken := ScansTo.token hstretch ih
    rwa [List.cons_append, hrest] at htoken
  | case8 afterDot position first rest mode hmode hblank ih =>
    exact .gap (.blank hmode hblank) ih
  | case9 afterDot position first rest mode _ _ hcloses =>
    rename_i ih
    obtain ⟨rfl, rfl, behind, rfl⟩ := ScanMode.of_closesWith hcloses
    exact .token .closing ih
  | case10 afterDot position first rest mode hmode hblank _ fault hread =>
    exact .fault (offends_of_read (Region.ofMode_ne_literal hmode) hblank hread)
  | case11 afterDot position first rest mode hmode hblank hopen lexeme hread =>
    rename_i ih
    obtain ⟨kind, source⟩ := lexeme
    obtain ⟨tail, rfl, behind, rfl⟩ := Lexeme.source_of_read hread
    simp only [List.tail_cons, List.drop_left] at ih ⊢
    exact .token (.word hmode hblank (Bool.eq_false_iff.2 hopen) (Lexeme.read_eq_ok_iff.1 hread)) ih

/-- A stretch without a token is left out of its region, which goes on behind it. -/
theorem Stretch.omits {mode mode' : ScanMode} {afterDot afterDot' : Bool} {chars rest : List Char}
    (hstretch : Stretch mode afterDot none chars rest mode' afterDot') :
    Omits (.ofMode mode) chars ∧ Region.ofMode mode' = .ofMode mode := by
  cases hstretch with
  | blank hmode hblank => exact ⟨.blank (Region.ofMode_ne_literal hmode) hblank, rfl⟩
  | comment hbody => exact ⟨.comment hbody, rfl⟩

theorem Stretch.reads {mode mode' : ScanMode} {afterDot afterDot' : Bool} {word : Word}
    {chars rest : List Char}
    (hstretch : Stretch mode afterDot (some word) chars rest mode' afterDot') :
    Reads (.ofMode mode) word.kind word.text chars ∧
      Region.ofMode mode' = (Region.ofMode mode).after word.kind := by
  cases hstretch with
  | data hne hdata =>
    exact ⟨.data hne fun mark hmark => hdata ▸ not_isInfix_literalText hmark _, rfl⟩
  | opening => exact ⟨.opening, rfl⟩
  | closing => exact ⟨.closing, rfl⟩
  | word hmode _ _ hlongest =>
    have hread := Lexeme.read_eq_ok_iff.2 hlongest
    refine ⟨.word (Region.ofMode_ne_literal hmode) hread, ?_⟩
    -- A bracket changes the depth of the mode but not the region.
    rw [Region.after_of_word (Lexeme.kind_of_read hread), Region.ofMode_after]

/-- The stretches of the text that remains at a position, and the tokens that cover them. -/
inductive Covered : Region → Position → List Char → List Token → Prop where
  | eof {region position} : region ≠ .block →
      Covered region position [] [covering .eof "" position []]
  | gap {region position skipped rest tokens} : Omits region skipped →
      Covered region (position.afterAll skipped) rest tokens →
      Covered region position (skipped ++ rest) tokens
  | token {region position kind text chars rest tokens} : Reads region kind text chars →
      Covered (region.after kind) (position.afterAll chars) rest tokens →
      Covered region position (chars ++ rest) (covering kind text position chars :: tokens)

variable {mode : ScanMode} {region : Region} {afterDot : Bool} {position : Position}
  {chars : List Char} {tokens : List Token} {index : Nat}

theorem ScansTo.covered {result : Except ScanError (List Token)}
    (hscans : ScansTo mode afterDot position chars result) (hresult : result = .ok tokens) :
    Covered (.ofMode mode) position chars tokens := by
  induction hscans generalizing tokens with
  | eof hblock =>
    cases hresult
    exact .eof hblock
  | fault => cases hresult
  | gap hstretch _ ih =>
    obtain ⟨homits, hregion⟩ := hstretch.omits
    exact .gap homits (hregion ▸ ih hresult)
  | token hstretch _ ih =>
    obtain ⟨more, hmore, rfl⟩ := exists_of_scan_cons hresult
    obtain ⟨hreads, hregion⟩ := hstretch.reads
    exact .token hreads (hregion ▸ ih hmore)

theorem covered_of_scanFrom (hscan : scanFrom mode afterDot position chars = .ok tokens) :
    Covered (.ofMode mode) position chars tokens :=
  (scansTo_scanFrom mode afterDot position chars).covered hscan

/-- The region of what stands at a place: the last token before it settles it. -/
def regionAt (region : Region) (tokens : List Token) (index : Nat) : Region :=
  (tokens.filter fun token => decide (token.span.stop ≤ index)).foldl
    (fun region token => region.after token.kind) region

theorem regionAt_cons_of_le {first : Token} (hstop : first.span.stop ≤ index) :
    regionAt region (first :: tokens) index = regionAt (region.after first.kind) tokens index := by
  simp [regionAt, hstop]

theorem regionAt_cons_of_lt {first : Token} (hstop : index < first.span.stop) :
    regionAt region (first :: tokens) index = regionAt region tokens index := by
  simp [regionAt, hstop]

/-- Only the last token may end where it starts. -/
theorem regionAt_of_le (hends : ∀ token ∈ tokens, index < token.span.stop ∨ token.kind = .eof) :
    regionAt region tokens index = region := by
  induction tokens with
  | nil => rfl
  | cons first tokens ih =>
    obtain ⟨hfirst, hrest⟩ := List.forall_mem_cons.1 hends
    by_cases hstop : first.span.stop ≤ index
    · have hkind := hfirst.resolve_left (not_lt.2 hstop)
      rw [regionAt_cons_of_le hstop, hkind]
      exact ih hrest
    · rw [regionAt_cons_of_lt (not_le.1 hstop), ih hrest]

theorem regionAt_ne_expression (hregion : region ≠ .expression) :
    regionAt region tokens index ≠ .expression := by
  unfold regionAt
  induction tokens generalizing region with
  | nil => exact hregion
  | cons first tokens ih =>
    rw [List.filter_cons]
    split
    · exact ih (Region.after_ne_expression hregion)
    · exact ih hregion

/-- The place is in a stretch of the text from `start` on that is left out, apart from all
tokens. -/
def Omitted (region : Region) (start : Nat) (chars : List Char) (tokens : List Token)
    (index : Nat) : Prop :=
  ∃ before skipped behind, chars = before ++ (skipped ++ behind) ∧ Omits region skipped ∧
    start + before.length ≤ index ∧ index < start + before.length + skipped.length ∧
    ∀ token ∈ tokens, token.span.stop ≤ start + before.length ∨
      start + before.length + skipped.length ≤ token.span.start

/-- More text may stand in front, with tokens of its own. -/
theorem Omitted.append {start : Nat} {front : List Char} {more : List Token}
    (homitted : Omitted region (start + front.length) chars tokens index)
    (hmore : ∀ token ∈ more, token ∈ tokens ∨ token.span.stop ≤ start + front.length) :
    Omitted region start (front ++ chars) more index := by
  obtain ⟨before, skipped, behind, rfl, homits, hstart, hstop, hapart⟩ := homitted
  have hlength : start + (front ++ before).length = start + front.length + before.length := by
    rw [List.length_append, Nat.add_assoc]
  refine ⟨front ++ before, skipped, behind, by simp, homits, ?_⟩
  rw [hlength]
  refine ⟨hstart, hstop, fun token htoken => ?_⟩
  rcases hmore token htoken with hold | hfront
  · exact hapart token hold
  · exact .inl (hfront.trans (Nat.le_add_right _ _))

namespace Covered

/-- The tokens lie within the text that remains, and only the last one is empty. -/
theorem bounds (hcovered : Covered region position chars tokens) : ∀ token ∈ tokens,
    position.offset ≤ token.span.start ∧ token.span.stop ≤ position.offset + chars.length ∧
      (token.span.start < token.span.stop ∨
        token.kind = .eof ∧ token.span.start = token.span.stop) := by
  induction hcovered with
  | eof => simp [covering, Span.between]
  | gap _ _ ih =>
    intro token htoken
    obtain ⟨hstart, hstop, hempty⟩ := ih token htoken
    simp only [Position.offset_afterAll, List.length_append] at hstart hstop ⊢
    exact ⟨by omega, by omega, hempty⟩
  | @token _ position _ _ chars rest _ hreads _ ih =>
    have hpos : 0 < chars.length := List.length_pos_iff.2 hreads.ne_nil
    refine List.forall_mem_cons.2 ⟨?_, fun token htoken => ?_⟩
    · simp only [covering, Span.between, Position.offset_afterAll, List.length_append]
      omega
    · obtain ⟨hstart, hstop, hempty⟩ := ih token htoken
      simp only [Position.offset_afterAll, List.length_append] at hstart hstop ⊢
      exact ⟨by omega, by omega, hempty⟩

theorem regionAt_of_le (hcovered : Covered region position chars tokens) {other : Region}
    (hindex : index ≤ position.offset) : regionAt other tokens index = other := by
  refine Token.regionAt_of_le fun token htoken => ?_
  obtain ⟨hstart, -, hempty⟩ := hcovered.bounds token htoken
  exact hempty.imp (fun hlt => (hindex.trans hstart).trans_lt hlt) And.left

theorem pairwise (hcovered : Covered region position chars tokens) :
    tokens.Pairwise fun token later => token.span.stop ≤ later.span.start := by
  induction hcovered with
  | eof => exact List.pairwise_singleton _ _
  | gap _ _ ih => exact ih
  | token _ hrest ih => exact .cons (fun later hlater => (hrest.bounds later hlater).1) ih

/-- The end of the text is the last token and no other one. -/
theorem exists_eof (hcovered : Covered region position chars tokens) :
    ∃ words, tokens = words ++ [covering .eof "" (position.afterAll chars) []] ∧
      ∀ token ∈ words, token.kind ≠ .eof := by
  induction hcovered with
  | eof => exact ⟨[], rfl, List.forall_mem_nil _⟩
  | gap _ _ ih =>
    obtain ⟨words, rfl, hwords⟩ := ih
    exact ⟨words, by rw [Position.afterAll_append], hwords⟩
  | @token _ position kind text chars _ _ hreads _ ih =>
    obtain ⟨words, rfl, hwords⟩ := ih
    refine ⟨covering kind text position chars :: words, ?_, ?_⟩
    · rw [Position.afterAll_append, List.cons_append]
    · exact List.forall_mem_cons.2 ⟨hreads.kind_ne_eof, hwords⟩

/-- Every token is read where it stands, apart from the one at the end. -/
theorem exists_reads (hcovered : Covered region position chars tokens) : ∀ token ∈ tokens,
    ∃ before inner behind, chars = before ++ (inner ++ behind) ∧
      token = covering token.kind token.text (position.afterAll before) inner ∧
      (Reads (regionAt region tokens token.span.start) token.kind token.text inner ∨
        token.word = Word.eof ∧ inner = []) := by
  induction hcovered with
  | eof => exact List.forall_mem_singleton.2 ⟨[], [], [], rfl, rfl, .inr ⟨rfl, rfl⟩⟩
  | @gap region position skipped rest tokens _ _ ih =>
    intro token htoken
    obtain ⟨before, inner, behind, rfl, htoken, hreads⟩ := ih token htoken
    exact ⟨skipped ++ before, inner, behind, by simp,
      by rwa [Position.afterAll_append], hreads⟩
  | @token region position kind text chars rest tokens hreads hrest ih =>
    have hpos : 0 < chars.length := List.length_pos_iff.2 hreads.ne_nil
    refine List.forall_mem_cons.2 ⟨⟨[], chars, rest, rfl, rfl, .inl ?_⟩, fun token htoken => ?_⟩
    · rw [regionAt_cons_of_lt, hrest.regionAt_of_le]
      · exact hreads
      · simp [covering, Span.between]
      · simpa [covering, Span.between] using hpos
    · obtain ⟨before, inner, behind, rfl, hplace, hinner⟩ := ih token htoken
      refine ⟨chars ++ before, inner, behind, by simp, by rwa [Position.afterAll_append], ?_⟩
      rwa [regionAt_cons_of_le]
      exact (hrest.bounds token htoken).1

/-- What no token covers belongs to a stretch that is left out, apart from all tokens. -/
theorem omitted (hcovered : Covered region position chars tokens)
    (hindex : position.offset ≤ index) (hlt : index < position.offset + chars.length)
    (houtside : ∀ token ∈ tokens, index < token.span.start ∨ token.span.stop ≤ index) :
    Omitted (regionAt region tokens index) position.offset chars tokens index := by
  induction hcovered with
  | eof =>
    rw [List.length_nil] at hlt
    omega
  | @gap region position skipped rest tokens homits hrest ih =>
    by_cases hhere : index < (position.afterAll skipped).offset
    · refine ⟨[], skipped, rest, rfl, ?_, by simpa using hindex, by simpa using hhere,
        fun token htoken => .inr ?_⟩
      · rwa [hrest.regionAt_of_le hhere.le]
      · simpa using (hrest.bounds token htoken).1
    · rw [List.length_append, ← Nat.add_assoc] at hlt
      rw [Position.offset_afterAll] at hhere ih
      exact (ih (not_lt.1 hhere) hlt houtside).append fun token htoken => .inl htoken
  | @token region position kind text chars rest tokens hreads hrest ih =>
    obtain ⟨hfirst, houtside⟩ := List.forall_mem_cons.1 houtside
    have hbehind : (position.afterAll chars).offset ≤ index :=
      hfirst.resolve_left (not_lt.2 hindex)
    rw [regionAt_cons_of_le hbehind]
    rw [List.length_append, ← Nat.add_assoc] at hlt
    rw [Position.offset_afterAll] at hbehind ih
    refine (ih hbehind hlt houtside).append ?_
    refine List.forall_mem_cons.2 ⟨.inr ?_, fun token htoken => .inl htoken⟩
    exact (Position.offset_afterAll position chars).le

/-- A bare expression has no text and no delimiters. -/
theorem kind_of_expression (hcovered : Covered .expression position chars tokens) :
    ∀ token ∈ tokens, token.kind ∉ [Kind.data, .variableBegin, .variableEnd] := by
  generalize hregion : Region.expression = region at hcovered
  induction hcovered with
  | eof => exact List.forall_mem_singleton.2 (by simp [covering])
  | gap _ _ ih => exact ih hregion
  | token hreads _ ih =>
    subst hregion
    cases hreads with
    | word _ hread =>
      have hkind := Lexeme.kind_of_read hread
      refine List.forall_mem_cons.2 ⟨fun hmem => hkind (List.mem_cons_of_mem _ hmem), ih ?_⟩
      exact (Region.after_of_word hkind).symm

theorem isScanned_of_expression (hcovered : Covered .expression position chars tokens) :
    ∀ token ∈ tokens, token.kind ≠ .eof → token.word.IsScanned := by
  intro token htoken hkind
  obtain ⟨-, inner, -, -, -, hreads⟩ := hcovered.exists_reads token htoken
  have hinner := hreads.resolve_right fun hend => hkind (congrArg Word.kind hend.1)
  exact hinner.isScanned (hcovered.kind_of_expression token htoken)

theorem regionAt_expression (hcovered : Covered .expression position chars tokens) :
    regionAt .expression tokens index = .expression := by
  have hkinds := hcovered.kind_of_expression
  clear hcovered
  unfold regionAt
  induction tokens with
  | nil => rfl
  | cons first tokens ih =>
    obtain ⟨hfirst, hrest⟩ := List.forall_mem_cons.1 hkinds
    rw [List.filter_cons]
    split
    · have hafter : Region.expression.after first.kind = .expression := by
        cases hkind : first.kind <;> simp_all [Region.after]
      rw [List.foldl_cons, hafter, ih hrest]
    · exact ih hrest

/-- The delimiters of a template, the opening ones and the closing ones in turns. -/
theorem exists_delimiters (hcovered : Covered region position chars tokens)
    (hregion : region ≠ .expression) :
    ∃ count,
      (tokens.map Token.kind).filter (fun kind => kind ∈ [Kind.variableBegin, .variableEnd]) =
        (if region = .block then [Kind.variableEnd] else []) ++
          (List.replicate count [Kind.variableBegin, .variableEnd]).flatten := by
  induction hcovered with
  | eof hblock => exact ⟨0, by simp [covering, hblock]⟩
  | gap _ _ ih => exact ih hregion
  | @token region position kind text chars rest tokens hreads _ ih =>
    cases hreads with
    | data =>
      obtain ⟨count, hcount⟩ := ih Region.noConfusion
      exact ⟨count, by simpa [covering, Region.after] using hcount⟩
    | opening =>
      obtain ⟨count, hcount⟩ := ih Region.noConfusion
      refine ⟨count + 1, ?_⟩
      simpa [covering, Region.after, List.replicate_succ] using hcount
    | closing =>
      obtain ⟨count, hcount⟩ := ih Region.noConfusion
      exact ⟨count, by simpa [covering, Region.after] using hcount⟩
    | word _ hread =>
      have hkind := Lexeme.kind_of_read hread
      rw [Region.after_of_word hkind] at ih
      obtain ⟨count, hcount⟩ := ih hregion
      refine ⟨count, ?_⟩
      rw [← hcount, List.map_cons, List.filter_cons_of_neg]
      simp only [List.mem_cons, not_or] at hkind
      simp [covering, hkind]

end Covered

end Token

end Stencil
