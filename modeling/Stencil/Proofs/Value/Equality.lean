import Mathlib
import Stencil.Value

/-!
# Equality of values

On values without floats equality is an equivalence, and equal values cannot be told apart by their
truth, their type, their text or their key.  Plain and safe texts are equal if they say the same, also
as parts of collections; a callable is equal to itself alone.
-/

namespace Stencil

/-! ## Lists compared element by element -/

section

variable {α β γ : Type} {relation : α → β → Prop} {items : List α} {items' : List β}
  {items'' : List γ}

/-- A relation between two lists may be replaced by one that follows for their elements. -/
theorem forall₂_of_mem {result : α → β → Prop} (hrelated : List.Forall₂ relation items items')
    (himp : ∀ item ∈ items, ∀ item' ∈ items', relation item item' → result item item') :
    List.Forall₂ result items items' := by
  rw [List.forall₂_iff_zip] at *
  exact ⟨hrelated.1, fun hpair =>
    himp _ (List.of_mem_zip hpair).1 _ (List.of_mem_zip hpair).2 (hrelated.2 hpair)⟩

theorem forall₂_trans {result : α → γ → Prop} {relation' : β → γ → Prop}
    (hfirst : List.Forall₂
      (fun item item' => ∀ item'', relation' item' item'' → result item item'') items items')
    (hsecond : List.Forall₂ relation' items' items'') : List.Forall₂ result items items'' := by
  induction hfirst generalizing items'' with
  | nil =>
    cases hsecond
    exact .nil
  | cons hitem _ ih =>
    cases hsecond with
    | cons hitem' hrest => exact .cons (hitem _ hitem') (ih hrest)

theorem map_eq_map_of_forall₂ {result : Type} {first : α → result} {second : β → result}
    (hrelated : List.Forall₂ (fun item item' => first item = second item') items items') :
    items.map first = items'.map second := by
  rw [← List.forall₂_eq_eq_eq, List.forall₂_map_left_iff, List.forall₂_map_right_iff]
  exact hrelated

end

/-! ## Failures -/

namespace Failure

variable {first second third : Failure}

theorem agrees_self (failure : Failure) : failure.agrees failure := by
  induction failure <;> simp_all [agrees]

theorem agrees_symm (hagrees : first.agrees second) : second.agrees first := by
  fun_induction agrees first second with
  | case5 failure failure' =>
    obtain rfl := of_decide_eq_true hagrees
    exact agrees_self failure
  | _ => simp_all [agrees]

/-- Failures that agree with a third one agree; the cases are those in which two agree at all. -/
theorem agrees_trans (hfirst : first.agrees second) (hsecond : second.agrees third) :
    first.agrees third := by
  fun_induction agrees first second generalizing third with
  | case1 name cause name' cause' ih =>
    cases third with
    | execution => simp_all [agrees]
    | _ => simp [agrees] at hsecond
  | case2 name parameter cause name' parameter' cause' ih =>
    cases third with
    | defaultValue => simp_all [agrees]
    | _ => simp [agrees] at hsecond
  | case3 fault line column fault' line' column' =>
    cases third with
    | evaluation => simp_all [agrees]
    | _ => simp [agrees] at hsecond
  | case4 error error' =>
    cases third with
    | malformed => simp_all [agrees]
    | _ => simp [agrees] at hsecond
  | case5 failure failure' =>
    obtain rfl := of_decide_eq_true hfirst
    exact hsecond

/-- Failures that agree cannot be told apart by their messages. -/
theorem message_eq_of_agrees (hagrees : first.agrees second) : first.message = second.message := by
  fun_induction agrees first second with
  | case1 name cause name' cause' ih =>
    obtain ⟨rfl, hcause⟩ : name = name' ∧ cause.agrees cause' := by simpa using hagrees
    exact congrArg (fun text => "Unable to execute macro '" ++ name ++ "': " ++ text) (ih hcause)
  | case2 name parameter cause name' parameter' cause' ih =>
    obtain ⟨⟨rfl, rfl⟩, hcause⟩ :
        (name = name' ∧ parameter = parameter') ∧ cause.agrees cause' := by simpa using hagrees
    exact congrArg (fun text => "Unable to evaluate parameter " ++ parameter ++ " of macro '" ++
      name ++ "': " ++ text) (ih hcause)
  | case3 fault line column fault' line' column' =>
    obtain ⟨⟨hfault, rfl⟩, rfl⟩ :
        (fault.message = fault'.message ∧ line = line') ∧ column = column' := by simpa using hagrees
    exact congrArg (fun text => text ++ " (line " ++ toString line ++ ", column " ++
      toString column ++ ")") hfault
  | case4 error error' => exact beq_iff_eq.1 hagrees
  | case5 failure failure' => rw [of_decide_eq_true hagrees]

end Failure

namespace Value

/-! ## Values without floats -/

/-- The names of callables by their identities.  A callable keeps its name for good. -/
structure CallableNames where
  function : ℕ → String
  procedure : ℕ → String

/-- No float occurs in the value, however deep, and the callables in it have the names of their
identities. -/
inductive FloatFree (names : CallableNames) : Value → Prop where
  | null : FloatFree names .null
  | bool (value : Bool) : FloatFree names (.bool value)
  | integer (value : Int64) : FloatFree names (.integer value)
  | string (text : String) : FloatFree names (.string text)
  | safe (text : String) : FloatFree names (.safe text)
  | list {items} : (∀ item ∈ items, FloatFree names item) → FloatFree names (.list items)
  | map {entries} : (∀ entry ∈ entries, FloatFree names entry.2) → FloatFree names (.map entries)
  | function {host} : host.name = names.function host.identity → FloatFree names (.function host)
  | procedure {identity definition signature scope} :
      definition.name = names.procedure identity →
      FloatFree names (.procedure identity definition signature scope)
  | error (failure : Failure) : FloatFree names (.error failure)

/-- Two values without floats that are the same but for which of their texts are safe. -/
-- Parts are paired by `zip` and not by `List.Forall₂`: with the relation nested in another one
-- there would be no induction over it.
inductive Same (names : CallableNames) : Value → Value → Prop where
  | null : Same names .null .null
  | bool (value : Bool) : Same names (.bool value) (.bool value)
  | integer (value : Int64) : Same names (.integer value) (.integer value)
  | text {left right text} : left.string? = some text → right.string? = some text →
      Same names left right
  | list {items items'} : items.length = items'.length →
      (∀ {item item'}, (item, item') ∈ items.zip items' → Same names item item') →
      Same names (.list items) (.list items')
  | map {entries entries'} : entries.length = entries'.length →
      (∀ {entry entry'}, (entry, entry') ∈ entries.zip entries' → entry.1 = entry'.1) →
      (∀ {entry entry'}, (entry, entry') ∈ entries.zip entries' → Same names entry.2 entry'.2) →
      Same names (.map entries) (.map entries')
  | function {host host'} : host.identity = host'.identity →
      host.name = names.function host.identity → host'.name = names.function host'.identity →
      Same names (.function host) (.function host')
  | procedure {identity definition definition' signature signature' scope scope'} :
      definition.name = names.procedure identity → definition'.name = names.procedure identity →
      Same names (.procedure identity definition signature scope)
        (.procedure identity definition' signature' scope')
  | error {failure failure'} : failure.agrees failure' →
      Same names (.error failure) (.error failure')

variable {names : CallableNames} {left middle right value : Value}

/-- Texts are plain or safe strings. -/
theorem string?_eq_some_iff {text : String} :
    value.string? = some text ↔ value = .string text ∨ value = .safe text := by
  cases value <;> simp [string?]

theorem type_eq_string_iff : value.type = .string ↔ ∃ text, value.string? = some text := by
  cases value <;> simp [type, string?]

theorem type_eq_integer_iff : value.type = .integer ↔ ∃ position, value = .integer position := by
  cases value <;> simp [type]

/-- Without floats every number is an integer. -/
theorem FloatFree.type_of_double? {number : Float} (hvalue : value.FloatFree names)
    (hnumber : value.double? = some number) : value.type = .integer := by
  cases hvalue with
  | integer => rfl
  | _ => cases hnumber

/-- A text equals what has the same text, plain or safe. -/
theorem equals_iff_of_string? {text : String} (htext : left.string? = some text) :
    left.equals right ↔ right.string? = some text := by
  rcases string?_eq_some_iff.1 htext with rfl | rfl <;> simp [equals]

/-- Lists are equal if their items are, one by one. -/
theorem equalItems_iff {items items' : List Value} :
    equalItems items items' ↔ List.Forall₂ (fun item item' => item.equals item') items items' := by
  induction items generalizing items' with
  | nil => cases items' <;> simp [equalItems]
  | cons item items ih => cases items' <;> simp [equalItems, ih]

/-- Maps are equal if they have the same keys with equal values, entry by entry. -/
theorem equalEntries_iff {entries entries' : List (String × Value)} :
    equalEntries entries entries' ↔
      List.Forall₂ (fun entry entry' => entry.1 = entry'.1 ∧ entry.2.equals entry'.2) entries
        entries' := by
  induction entries generalizing entries' with
  | nil => cases entries' <;> simp [equalEntries]
  | cons entry entries ih => cases entries' <;> simp [equalEntries, ih]

namespace Same

theorem of_items {items items' : List Value} (hitems : List.Forall₂ (Same names) items items') :
    Same names (.list items) (.list items') :=
  have ⟨hlength, hsame⟩ := List.forall₂_iff_zip.1 hitems
  .list hlength hsame

theorem of_entries {entries entries' : List (String × Value)}
    (hentries : List.Forall₂ (fun entry entry' => entry.1 = entry'.1 ∧ Same names entry.2 entry'.2)
      entries entries') :
    Same names (.map entries) (.map entries') :=
  have ⟨hlength, hsame⟩ := List.forall₂_iff_zip.1 hentries
  .map hlength (fun hentry => (hsame hentry).1) fun hentry => (hsame hentry).2

theorem forall₂_items {items items' : List Value} (hsame : Same names (.list items) (.list items')) :
    List.Forall₂ (Same names) items items' := by
  cases hsame with
  | text htext => cases htext
  | list hlength hitems => exact List.forall₂_iff_zip.2 ⟨hlength, hitems⟩

theorem forall₂_entries {entries entries' : List (String × Value)}
    (hsame : Same names (.map entries) (.map entries')) :
    List.Forall₂ (fun entry entry' => entry.1 = entry'.1 ∧ Same names entry.2 entry'.2) entries
      entries' := by
  cases hsame with
  | text htext => cases htext
  | map hlength hkeys hentries =>
    exact List.forall₂_iff_zip.2 ⟨hlength, fun hentry => ⟨hkeys hentry, hentries hentry⟩⟩

/-- What is the same is equal. -/
theorem equals (hsame : Same names left right) : left.equals right := by
  induction hsame with
  | null => rfl
  | bool value | integer value => simp [Value.equals]
  | text hleft hright => exact (equals_iff_of_string? hleft).2 hright
  | list hlength _ ih =>
    rw [Value.equals]
    exact equalItems_iff.2 (List.forall₂_iff_zip.2 ⟨hlength, ih⟩)
  | map hlength hkeys _ ih =>
    rw [Value.equals]
    exact equalEntries_iff.2
      (List.forall₂_iff_zip.2 ⟨hlength, fun hentry => ⟨hkeys hentry, ih hentry⟩⟩)
  | function hidentity => simp [Value.equals, hidentity]
  | procedure => simp [Value.equals]
  | error hagrees => simpa [Value.equals] using hagrees

/-- Equality compares what is the same, constructor by constructor. -/
theorem of_equals (hleft : left.FloatFree names) (hright : right.FloatFree names)
    (hequal : left.equals right) : Same names left right := by
  induction hleft generalizing right with
  | string text | safe text => exact .text rfl ((equals_iff_of_string? rfl).1 hequal)
  | null =>
    cases hright with
    | null => exact .null
    | _ => simp [Value.equals] at hequal
  | bool value =>
    cases hright with
    | bool value' =>
      obtain rfl : value = value' := by simpa [Value.equals] using hequal
      exact .bool value
    | _ => simp [Value.equals] at hequal
  | integer value =>
    cases hright with
    | integer value' =>
      obtain rfl : value = value' := by simpa [Value.equals] using hequal
      exact .integer value
    | _ => simp [Value.equals] at hequal
  | list _ ih =>
    cases hright with
    | list hright =>
      refine of_items (forall₂_of_mem (equalItems_iff.1 (by simpa [Value.equals] using hequal)) ?_)
      exact fun item hitem item' hitem' => ih item hitem (hright item' hitem')
    | _ => simp [Value.equals] at hequal
  | map _ ih =>
    cases hright with
    | map hright =>
      refine of_entries
        (forall₂_of_mem (equalEntries_iff.1 (by simpa [Value.equals] using hequal)) ?_)
      exact fun entry hentry entry' hentry' hequal =>
        ⟨hequal.1, ih entry hentry (hright entry' hentry') hequal.2⟩
    | _ => simp [Value.equals] at hequal
  | function hname =>
    cases hright with
    | function hname' => exact .function (by simpa [Value.equals] using hequal) hname hname'
    | _ => simp [Value.equals] at hequal
  | procedure hname =>
    cases hright with
    | procedure hname' =>
      cases show _ = _ by simpa [Value.equals] using hequal
      exact .procedure hname hname'
    | _ => simp [Value.equals] at hequal
  | error failure =>
    cases hright with
    | error failure' => exact .error (by simpa [Value.equals] using hequal)
    | _ => simp [Value.equals] at hequal

/-! ## An equivalence -/

theorem refl (hvalue : value.FloatFree names) : Same names value value := by
  induction hvalue with
  | null => exact .null
  | bool value => exact .bool value
  | integer value => exact .integer value
  | string text | safe text => exact .text rfl rfl
  | list _ ih => exact of_items (List.forall₂_same.2 ih)
  | map _ ih => exact of_entries (List.forall₂_same.2 fun entry hentry => ⟨rfl, ih entry hentry⟩)
  | function hname => exact .function rfl hname hname
  | procedure hname => exact .procedure hname hname
  | error failure => exact .error failure.agrees_self

theorem symm (hsame : Same names left right) : Same names right left := by
  induction hsame with
  | null => exact .null
  | bool value => exact .bool value
  | integer value => exact .integer value
  | text hleft hright => exact .text hright hleft
  | list hlength _ ih => exact of_items (List.forall₂_iff_zip.2 ⟨hlength, ih⟩).flip
  | map hlength hkeys _ ih =>
    have hentries := List.forall₂_iff_zip.2
      ⟨hlength, fun hentry => And.intro (hkeys hentry).symm (ih hentry)⟩
    exact of_entries hentries.flip
  | function hidentity hname hname' => exact .function hidentity.symm hname' hname
  | procedure hname hname' => exact .procedure hname' hname
  | error hagrees => exact .error (Failure.agrees_symm hagrees)

/-- The relation is transitive: a middle value has the form of its left neighbour and of its right
one. -/
theorem trans (hfirst : Same names left middle) (hsecond : Same names middle right) :
    Same names left right := by
  induction hfirst generalizing right with
  | null | bool value | integer value => exact hsecond
  | text hleft hmiddle =>
    exact .text hleft ((equals_iff_of_string? hmiddle).1 hsecond.equals)
  | list hlength _ ih =>
    cases hsecond with
    | text htext => cases htext
    | list hlength' hitems' =>
      refine of_items (forall₂_trans (List.forall₂_iff_zip.2 ⟨hlength, ?_⟩)
        (forall₂_items (.list hlength' hitems')))
      exact fun hitem _ => ih hitem
  | map hlength hkeys _ ih =>
    cases hsecond with
    | text htext => cases htext
    | map hlength' hkeys' hentries' =>
      refine of_entries (forall₂_trans (List.forall₂_iff_zip.2 ⟨hlength, ?_⟩)
        (forall₂_entries (.map hlength' hkeys' hentries')))
      exact fun hentry _ hsame => ⟨(hkeys hentry).trans hsame.1, ih hentry hsame.2⟩
  | function hidentity hname hname' =>
    cases hsecond with
    | text htext => cases htext
    | function hidentity' _ hname'' => exact .function (hidentity.trans hidentity') hname hname''
  | procedure hname hname' =>
    cases hsecond with
    | text htext => cases htext
    | procedure _ hname'' => exact .procedure hname hname''
  | error hagrees =>
    cases hsecond with
    | text htext => cases htext
    | error hagrees' => exact .error (Failure.agrees_trans hagrees hagrees')

/-- Floats are not even the same as themselves. -/
theorem floatFree (hsame : Same names left right) : left.FloatFree names := by
  induction hsame with
  | null => exact .null
  | bool value => exact .bool value
  | integer value => exact .integer value
  | text hleft =>
    rcases string?_eq_some_iff.1 hleft with rfl | rfl
    · exact .string _
    · exact .safe _
  | list hlength _ ih =>
    refine .list fun item hitem => ?_
    rw [← List.map_fst_zip hlength.le] at hitem
    obtain ⟨pair, hpair, rfl⟩ := List.mem_map.1 hitem
    exact ih hpair
  | map hlength _ _ ih =>
    refine .map fun entry hentry => ?_
    rw [← List.map_fst_zip hlength.le] at hentry
    obtain ⟨pair, hpair, rfl⟩ := List.mem_map.1 hentry
    exact ih hpair
  | function _ hname => exact .function hname
  | procedure hname => exact .procedure hname
  | error => exact .error _

/-- Equality cannot tell same values apart on either side. -/
theorem equals_eq {left' right' : Value} (hleft : Same names left left')
    (hright : Same names right right') : left.equals right = left'.equals right' := by
  rw [Bool.eq_iff_iff]
  constructor
  · intro hequal
    have hsame := of_equals hleft.floatFree hright.floatFree hequal
    exact ((hleft.symm.trans hsame).trans hright).equals
  · intro hequal
    have hsame := of_equals hleft.symm.floatFree hright.symm.floatFree hequal
    exact ((hleft.trans hsame).trans hright.symm).equals

end Same

/-! ## Safe texts -/

mutual

/-- A value with plain texts in place of the safe ones, however deep they are. -/
def allPlain : Value → Value
  | safe text => string text
  | list items => list (allPlainItems items)
  | map entries => map (allPlainEntries entries)
  | value => value

def allPlainItems : List Value → List Value
  | [] => []
  | item :: items => item.allPlain :: allPlainItems items

def allPlainEntries : List (String × Value) → List (String × Value)
  | [] => []
  | (key, value) :: entries => (key, value.allPlain) :: allPlainEntries entries

end

theorem allPlainItems_eq_map (items : List Value) : allPlainItems items = items.map allPlain := by
  induction items with
  | nil => rfl
  | cons item items ih => simp [allPlainItems, ih]

theorem allPlainEntries_eq_map (entries : List (String × Value)) :
    allPlainEntries entries = entries.map fun entry => (entry.1, entry.2.allPlain) := by
  induction entries with
  | nil => rfl
  | cons entry entries ih => simp [allPlainEntries, ih]

/-- Values are the same as their plain forms. -/
theorem Same.allPlain (hvalue : value.FloatFree names) : Same names value value.allPlain := by
  induction hvalue with
  | null => exact .null
  | bool value => exact .bool value
  | integer value => exact .integer value
  | string text | safe text => exact .text rfl rfl
  | list hitems ih =>
    rw [Value.allPlain, allPlainItems_eq_map]
    exact of_items (List.forall₂_map_right_iff.2 (List.forall₂_same.2 ih))
  | map hentries ih =>
    rw [Value.allPlain, allPlainEntries_eq_map]
    refine of_entries (List.forall₂_map_right_iff.2 (List.forall₂_same.2 ?_))
    exact fun entry hentry => ⟨rfl, ih entry hentry⟩
  | function hname => exact .function rfl hname hname
  | procedure hname => exact .procedure hname hname
  | error failure => exact .error failure.agrees_self

/-! ## The same values are not told apart -/

theorem isTruthy_text {text : String} (htext : value.string? = some text) :
    value.isTruthy = !text.isEmpty := by
  rcases string?_eq_some_iff.1 htext with rfl | rfl <;> rfl

/-- A text is shown in the same way, plain or safe. -/
theorem render_text {text : String} (htext : value.string? = some text) (inside : Bool) :
    value.render inside = if inside then quotedText text else text := by
  rcases string?_eq_some_iff.1 htext with rfl | rfl <;> rfl

theorem renderItems_eq_map (items : List Value) : renderItems items = items.map (render true) := by
  induction items with
  | nil => rfl
  | cons item items ih => simp [renderItems, ih]

theorem renderEntries_eq_map (entries : List (String × Value)) :
    renderEntries entries =
      entries.map fun entry => "'" ++ entry.1 ++ "': " ++ entry.2.render true := by
  induction entries with
  | nil => rfl
  | cons entry entries ih => simp [renderEntries, ih]

namespace Same

theorem string?_eq (hsame : Same names left right) : left.string? = right.string? := by
  cases hsame with
  | text hleft hright => exact hleft.trans hright.symm
  | _ => rfl

theorem type_eq (hsame : Same names left right) : left.type = right.type := by
  cases hsame with
  | text hleft hright =>
    rw [type_eq_string_iff.2 ⟨_, hleft⟩, type_eq_string_iff.2 ⟨_, hright⟩]
  | _ => rfl

/-- Conditions cannot tell same values apart. -/
theorem isTruthy_eq (hsame : Same names left right) : left.isTruthy = right.isTruthy := by
  cases hsame with
  | text hleft hright => rw [isTruthy_text hleft, isTruthy_text hright]
  | list hlength | map hlength =>
    rw [isTruthy, isTruthy, Bool.eq_iff_iff]
    simp [← List.length_eq_zero_iff, hlength]
  | _ => rfl

/-- No output can tell same values apart, at any depth. -/
theorem render_eq (hsame : Same names left right) (inside : Bool) :
    left.render inside = right.render inside := by
  induction hsame generalizing inside with
  | null | bool value | integer value => rfl
  | text hleft hright => rw [render_text hleft, render_text hright]
  | list hlength _ ih =>
    rw [render, render, renderItems_eq_map, renderItems_eq_map]
    refine congrArg (fun texts => "[" ++ commaSeparated texts ++ "]")
      (map_eq_map_of_forall₂ (List.forall₂_iff_zip.2 ⟨hlength, ?_⟩))
    exact fun hitem => ih hitem true
  | map hlength hkeys _ ih =>
    rw [render, render, renderEntries_eq_map, renderEntries_eq_map]
    refine congrArg (fun texts => "\x7b" ++ commaSeparated texts ++ "\x7d")
      (map_eq_map_of_forall₂ (List.forall₂_iff_zip.2 ⟨hlength, fun hentry => ?_⟩))
    rw [hkeys hentry, ih hentry true]
  | function hidentity hname hname' => rw [render, render, hname, hname', hidentity]
  | procedure hname hname' => rw [render, render, hname, hname']
  | error hagrees => exact Failure.message_eq_of_agrees hagrees

theorem display_eq (hsame : Same names left right) : left.display = right.display :=
  hsame.render_eq false

/-- As keys of a map same values are one key. -/
theorem key_eq (hsame : Same names left right) : left.key = right.key := by
  rw [key, key, hsame.string?_eq, hsame.display_eq]

end Same

end Value

end Stencil
