import Mathlib
import Stencil.Expression.Canonical

/-!
# Trees

Properties that hold at every node of an expression, and expressions without their marks.
-/

namespace Stencil.Expr

variable {Mark : Type}

/-- The condition holds at the root and at every node below it. -/
inductive Everywhere (Holds : Expr Mark → Prop) : Expr Mark → Prop where
  | node {expr} : Holds expr → (∀ child ∈ expr.children, Everywhere Holds child) →
      Everywhere Holds expr

namespace Everywhere

variable {Holds Holds' : Expr Mark → Prop} {expr below : Expr Mark}

theorem root (heverywhere : Everywhere Holds expr) : Holds expr := by
  cases heverywhere with
  | node hroot _ => exact hroot

theorem child (heverywhere : Everywhere Holds expr) (hbelow : below ∈ expr.children) :
    Everywhere Holds below := by
  cases heverywhere with
  | node _ hchildren => exact hchildren below hbelow

/-- What holds everywhere can be shown of a node and of the trees below it. -/
theorem iff_node : Everywhere Holds expr ↔
    Holds expr ∧ ∀ child ∈ expr.children, Everywhere Holds child :=
  ⟨fun heverywhere => ⟨heverywhere.root, fun _ => heverywhere.child⟩,
    fun hnode => .node hnode.1 hnode.2⟩

theorem imp (heverywhere : Everywhere Holds expr) (himp : ∀ expr, Holds expr → Holds' expr) :
    Everywhere Holds' expr := by
  induction heverywhere with
  | node hroot _ ih => exact .node (himp _ hroot) ih

theorem and (hleft : Everywhere Holds expr) (hright : Everywhere Holds' expr) :
    Everywhere (fun expr => Holds expr ∧ Holds' expr) expr := by
  induction hleft with
  | node hroot _ ih =>
    exact .node ⟨hroot, hright.root⟩ fun child hchild => ih child hchild (hright.child hchild)

end Everywhere

/-- The keys of a dictionary are children just as its values are. -/
theorem mem_children_dict {mark : Mark} {pairs : List (Expr Mark × Expr Mark)}
    {pair : Expr Mark × Expr Mark} (hmem : pair ∈ pairs) :
    pair.1 ∈ (dict mark pairs).children ∧ pair.2 ∈ (dict mark pairs).children := by
  have hpair (part : Expr Mark) (hpart : part ∈ [pair.1, pair.2]) :
      part ∈ (dict mark pairs).children :=
    List.mem_flatMap.2 ⟨pair, hmem, hpart⟩
  exact ⟨hpair _ (by simp), hpair _ (by simp)⟩

/-! ## Induction over all nodes -/

/-- Children are smaller, which is what an induction over nodes of all forms rests on. -/
theorem sizeOf_lt_of_mem_children {child expr : Expr Mark} (hchild : child ∈ expr.children) :
    sizeOf child < sizeOf expr := by
  have hitems (items : List (Expr Mark)) (hmem : child ∈ items) : sizeOf child < sizeOf items :=
    List.sizeOf_lt_of_mem hmem
  have hnamed (named : List (String × Expr Mark)) (hmem : child ∈ named.map Prod.snd) :
      sizeOf child < sizeOf named := by
    obtain ⟨⟨key, value⟩, hpair, rfl⟩ := List.mem_map.1 hmem
    have hlt := List.sizeOf_lt_of_mem hpair
    simp at hlt ⊢
    omega
  have hoption (option : Option (Expr Mark)) (hmem : child ∈ option.toList) :
      sizeOf child < sizeOf option := by
    obtain rfl := Option.mem_toList.1 hmem
    simp
  cases expr with
  | integer | float | string | bool | name => cases hchild
  | list _ items | tuple _ items =>
    have := hitems items hchild
    simp
    omega
  | dict _ pairs =>
    obtain ⟨⟨key, value⟩, hpair, hpart⟩ := List.mem_flatMap.1 hchild
    have hlt := List.sizeOf_lt_of_mem hpair
    simp only [List.mem_cons, List.not_mem_nil, or_false] at hpart
    simp at hlt ⊢
    rcases hpart with rfl | rfl <;> omega
  | member | negation | signed | spread | namedSpread =>
    obtain rfl := List.mem_singleton.1 hchild
    simp
    try omega
  | subscript | binary =>
    simp only [children, List.mem_cons, List.not_mem_nil, or_false] at hchild
    simp
    rcases hchild with rfl | rfl <;> omega
  | slice _ subject start stop =>
    simp only [children, List.mem_cons, List.mem_append] at hchild
    simp
    rcases hchild with rfl | hchild | hchild
    · omega
    · have := hoption start hchild
      omega
    · have := hoption stop hchild
      omega
  | call _ subject positional named | filter _ subject _ positional named =>
    simp only [children, List.mem_cons, List.mem_append] at hchild
    simp
    rcases hchild with rfl | hchild | hchild
    · omega
    · have := hitems positional hchild
      omega
    · have := hnamed named hchild
      omega
  | test _ subject _ argument =>
    simp only [children, List.mem_cons] at hchild
    simp
    rcases hchild with rfl | hchild
    · omega
    · have := hoption argument hchild
      omega
  | conditional _ condition consequent alternative =>
    simp only [children, List.mem_cons] at hchild
    simp
    rcases hchild with rfl | rfl | hchild
    · omega
    · omega
    · have := hoption alternative hchild
      omega

/-- What holds of every node whose children it holds of, with all their nodes, holds everywhere. -/
theorem everywhere_of_children {Holds : Expr Mark → Prop}
    (hstep : ∀ expr, (∀ child ∈ expr.children, child.Everywhere Holds) → Holds expr)
    (expr : Expr Mark) : expr.Everywhere Holds :=
  have hchildren (child : Expr Mark) (_ : child ∈ expr.children) : child.Everywhere Holds :=
    everywhere_of_children hstep child
  .node (hstep expr hchildren) hchildren
termination_by sizeOf expr
decreasing_by exact sizeOf_lt_of_mem_children (by assumption)

/-- A condition that passes from the children to their node holds everywhere. -/
theorem Everywhere.of_children {Holds Holds' : Expr Mark → Prop} {expr : Expr Mark}
    (heverywhere : expr.Everywhere Holds)
    (hstep : ∀ expr, Holds expr → (∀ child ∈ expr.children, child.Everywhere Holds') →
      Holds' expr) :
    expr.Everywhere Holds' := by
  induction heverywhere with
  | node hroot _ ih => exact .node (hstep _ hroot ih) ih

/-! ## Expressions without marks -/

mutual

/-- The expression with all its marks forgotten. -/
def unmarked : Expr Mark → Expr Unit
  | integer _ value => integer () value
  | float _ value => float () value
  | string _ value => string () value
  | bool _ value => bool () value
  | name _ ident => name () ident
  | list _ items => list () (unmarkedItems items)
  | tuple _ items => tuple () (unmarkedItems items)
  | dict _ pairs => dict () (unmarkedPairs pairs)
  | member _ subject selector => member () subject.unmarked selector
  | subscript _ subject key => subscript () subject.unmarked key.unmarked
  | slice _ subject start stop =>
    slice () subject.unmarked (unmarkedOption start) (unmarkedOption stop)
  | call _ callee positional named =>
    call () callee.unmarked (unmarkedItems positional) (unmarkedNamed named)
  | binary _ op left right => binary () op left.unmarked right.unmarked
  | negation _ operand => negation () operand.unmarked
  | signed _ sign operand => signed () sign operand.unmarked
  | test _ subject label argument => test () subject.unmarked label (unmarkedOption argument)
  | filter _ subject label positional named =>
    filter () subject.unmarked label (unmarkedItems positional) (unmarkedNamed named)
  | conditional _ condition consequent alternative =>
    conditional () condition.unmarked consequent.unmarked (unmarkedOption alternative)
  | spread _ operand => spread () operand.unmarked
  | namedSpread _ operand => namedSpread () operand.unmarked

def unmarkedItems : List (Expr Mark) → List (Expr Unit)
  | [] => []
  | item :: items => item.unmarked :: unmarkedItems items

def unmarkedPairs : List (Expr Mark × Expr Mark) → List (Expr Unit × Expr Unit)
  | [] => []
  | (key, value) :: pairs => (key.unmarked, value.unmarked) :: unmarkedPairs pairs

def unmarkedNamed : List (String × Expr Mark) → List (String × Expr Unit)
  | [] => []
  | (key, value) :: named => (key, value.unmarked) :: unmarkedNamed named

def unmarkedOption : Option (Expr Mark) → Option (Expr Unit)
  | none => none
  | some expr => some expr.unmarked

end

/-! ## Expressions with other marks -/

section MapMarks

variable {Mark' : Type}

mutual

/-- The expression with all its marks changed. -/
def mapMarks (change : Mark → Mark') : Expr Mark → Expr Mark'
  | integer mark value => integer (change mark) value
  | float mark value => float (change mark) value
  | string mark value => string (change mark) value
  | bool mark value => bool (change mark) value
  | name mark ident => name (change mark) ident
  | list mark items => list (change mark) (mapMarksItems change items)
  | tuple mark items => tuple (change mark) (mapMarksItems change items)
  | dict mark pairs => dict (change mark) (mapMarksPairs change pairs)
  | member mark subject selector => member (change mark) (subject.mapMarks change) selector
  | subscript mark subject key =>
    subscript (change mark) (subject.mapMarks change) (key.mapMarks change)
  | slice mark subject start stop =>
    slice (change mark) (subject.mapMarks change) (mapMarksOption change start)
      (mapMarksOption change stop)
  | call mark callee positional named =>
    call (change mark) (callee.mapMarks change) (mapMarksItems change positional)
      (mapMarksNamed change named)
  | binary mark op left right =>
    binary (change mark) op (left.mapMarks change) (right.mapMarks change)
  | negation mark operand => negation (change mark) (operand.mapMarks change)
  | signed mark sign operand => signed (change mark) sign (operand.mapMarks change)
  | test mark subject label argument =>
    test (change mark) (subject.mapMarks change) label (mapMarksOption change argument)
  | filter mark subject label positional named =>
    filter (change mark) (subject.mapMarks change) label (mapMarksItems change positional)
      (mapMarksNamed change named)
  | conditional mark condition consequent alternative =>
    conditional (change mark) (condition.mapMarks change) (consequent.mapMarks change)
      (mapMarksOption change alternative)
  | spread mark operand => spread (change mark) (operand.mapMarks change)
  | namedSpread mark operand => namedSpread (change mark) (operand.mapMarks change)

def mapMarksItems (change : Mark → Mark') : List (Expr Mark) → List (Expr Mark')
  | [] => []
  | item :: items => item.mapMarks change :: mapMarksItems change items

def mapMarksPairs (change : Mark → Mark') :
    List (Expr Mark × Expr Mark) → List (Expr Mark' × Expr Mark')
  | [] => []
  | (key, value) :: pairs =>
    (key.mapMarks change, value.mapMarks change) :: mapMarksPairs change pairs

def mapMarksNamed (change : Mark → Mark') :
    List (String × Expr Mark) → List (String × Expr Mark')
  | [] => []
  | (key, value) :: named => (key, value.mapMarks change) :: mapMarksNamed change named

def mapMarksOption (change : Mark → Mark') : Option (Expr Mark) → Option (Expr Mark')
  | none => none
  | some expr => some (expr.mapMarks change)

end

mutual

@[simp]
theorem mapMarks_id : (expr : Expr Mark) → expr.mapMarks id = expr
  | integer _ _ | float _ _ | string _ _ | bool _ _ | name _ _ => rfl
  | list _ items | tuple _ items => by rw [mapMarks, mapMarksItems_id items, id]
  | dict _ pairs => by rw [mapMarks, mapMarksPairs_id pairs, id]
  | member _ subject _ => by rw [mapMarks, subject.mapMarks_id, id]
  | subscript _ subject key => by rw [mapMarks, subject.mapMarks_id, key.mapMarks_id, id]
  | slice _ subject start stop => by
    rw [mapMarks, subject.mapMarks_id, mapMarksOption_id start, mapMarksOption_id stop, id]
  | call _ callee positional named => by
    rw [mapMarks, callee.mapMarks_id, mapMarksItems_id positional, mapMarksNamed_id named, id]
  | binary _ _ left right => by rw [mapMarks, left.mapMarks_id, right.mapMarks_id, id]
  | negation _ operand | signed _ _ operand | spread _ operand | namedSpread _ operand => by
    rw [mapMarks, operand.mapMarks_id, id]
  | test _ subject _ argument => by
    rw [mapMarks, subject.mapMarks_id, mapMarksOption_id argument, id]
  | filter _ subject _ positional named => by
    rw [mapMarks, subject.mapMarks_id, mapMarksItems_id positional, mapMarksNamed_id named, id]
  | conditional _ condition consequent alternative => by
    rw [mapMarks, condition.mapMarks_id, consequent.mapMarks_id, mapMarksOption_id alternative, id]

theorem mapMarksItems_id : (items : List (Expr Mark)) → mapMarksItems id items = items
  | [] => rfl
  | item :: items => by rw [mapMarksItems, item.mapMarks_id, mapMarksItems_id items]

theorem mapMarksPairs_id : (pairs : List (Expr Mark × Expr Mark)) → mapMarksPairs id pairs = pairs
  | [] => rfl
  | (key, value) :: pairs => by
    rw [mapMarksPairs, key.mapMarks_id, value.mapMarks_id, mapMarksPairs_id pairs]

theorem mapMarksNamed_id :
    (named : List (String × Expr Mark)) → mapMarksNamed id named = named
  | [] => rfl
  | (key, value) :: named => by rw [mapMarksNamed, value.mapMarks_id, mapMarksNamed_id named]

theorem mapMarksOption_id : (option : Option (Expr Mark)) → mapMarksOption id option = option
  | none => rfl
  | some expr => by rw [mapMarksOption, expr.mapMarks_id]

end

section

variable {Mark'' : Type} (change : Mark → Mark') (change' : Mark' → Mark'')

mutual

/-- Marks that are changed twice could have been changed at once. -/
theorem mapMarks_mapMarks : (expr : Expr Mark) →
    (expr.mapMarks change).mapMarks change' = expr.mapMarks (change' ∘ change)
  | integer _ _ | float _ _ | string _ _ | bool _ _ | name _ _ => rfl
  | list _ items | tuple _ items => by
    simp only [mapMarks, mapMarksItems_mapMarksItems items, Function.comp_apply]
  | dict _ pairs => by
    simp only [mapMarks, mapMarksPairs_mapMarksPairs pairs, Function.comp_apply]
  | member _ subject _ => by simp only [mapMarks, mapMarks_mapMarks subject, Function.comp_apply]
  | subscript _ subject key => by
    simp only [mapMarks, mapMarks_mapMarks subject, mapMarks_mapMarks key, Function.comp_apply]
  | slice _ subject start stop => by
    simp only [mapMarks, mapMarks_mapMarks subject, mapMarksOption_mapMarksOption start,
      mapMarksOption_mapMarksOption stop, Function.comp_apply]
  | call _ callee positional named => by
    simp only [mapMarks, mapMarks_mapMarks callee, mapMarksItems_mapMarksItems positional,
      mapMarksNamed_mapMarksNamed named, Function.comp_apply]
  | binary _ _ left right => by
    simp only [mapMarks, mapMarks_mapMarks left, mapMarks_mapMarks right, Function.comp_apply]
  | negation _ operand | signed _ _ operand | spread _ operand | namedSpread _ operand => by
    simp only [mapMarks, mapMarks_mapMarks operand, Function.comp_apply]
  | test _ subject _ argument => by
    simp only [mapMarks, mapMarks_mapMarks subject, mapMarksOption_mapMarksOption argument,
      Function.comp_apply]
  | filter _ subject _ positional named => by
    simp only [mapMarks, mapMarks_mapMarks subject, mapMarksItems_mapMarksItems positional,
      mapMarksNamed_mapMarksNamed named, Function.comp_apply]
  | conditional _ condition consequent alternative => by
    simp only [mapMarks, mapMarks_mapMarks condition, mapMarks_mapMarks consequent,
      mapMarksOption_mapMarksOption alternative, Function.comp_apply]

theorem mapMarksItems_mapMarksItems : (items : List (Expr Mark)) →
    mapMarksItems change' (mapMarksItems change items) = mapMarksItems (change' ∘ change) items
  | [] => rfl
  | item :: items => by
    simp only [mapMarksItems, mapMarks_mapMarks item, mapMarksItems_mapMarksItems items]

theorem mapMarksPairs_mapMarksPairs : (pairs : List (Expr Mark × Expr Mark)) →
    mapMarksPairs change' (mapMarksPairs change pairs) = mapMarksPairs (change' ∘ change) pairs
  | [] => rfl
  | (key, value) :: pairs => by
    simp only [mapMarksPairs, mapMarks_mapMarks key, mapMarks_mapMarks value,
      mapMarksPairs_mapMarksPairs pairs]

theorem mapMarksNamed_mapMarksNamed : (named : List (String × Expr Mark)) →
    mapMarksNamed change' (mapMarksNamed change named) = mapMarksNamed (change' ∘ change) named
  | [] => rfl
  | (key, value) :: named => by
    simp only [mapMarksNamed, mapMarks_mapMarks value, mapMarksNamed_mapMarksNamed named]

theorem mapMarksOption_mapMarksOption : (option : Option (Expr Mark)) →
    mapMarksOption change' (mapMarksOption change option) =
      mapMarksOption (change' ∘ change) option
  | none => rfl
  | some expr => by simp only [mapMarksOption, mapMarks_mapMarks expr]

end

end

/-- What changes the marks can be undone if every change of a mark can. -/
theorem mapMarks_injective {change : Mark → Mark'} {restore : Mark' → Mark}
    (hrestore : Function.LeftInverse restore change) :
    Function.Injective (mapMarks change) := by
  have hinverse (expr : Expr Mark) : (expr.mapMarks change).mapMarks restore = expr := by
    rw [mapMarks_mapMarks, hrestore.comp_eq_id, mapMarks_id]
  exact Function.LeftInverse.injective hinverse

theorem mapMarksItems_eq_map (change : Mark → Mark') (items : List (Expr Mark)) :
    mapMarksItems change items = items.map (mapMarks change) := by
  induction items with
  | nil => rfl
  | cons item items ih => rw [mapMarksItems, ih, List.map_cons]

theorem mapMarksPairs_eq_map (change : Mark → Mark') (pairs : List (Expr Mark × Expr Mark)) :
    mapMarksPairs change pairs = pairs.map (Prod.map (mapMarks change) (mapMarks change)) := by
  induction pairs with
  | nil => rfl
  | cons pair pairs ih => rw [mapMarksPairs, ih, List.map_cons, Prod.map]

theorem mapMarksOption_eq_map (change : Mark → Mark') (option : Option (Expr Mark)) :
    mapMarksOption change option = option.map (mapMarks change) := by
  cases option <;> rfl

theorem mapMarksNamed_eq_map (change : Mark → Mark') (named : List (String × Expr Mark)) :
    mapMarksNamed change named = named.map (Prod.map id (mapMarks change)) := by
  induction named with
  | nil => rfl
  | cons pair named ih => rw [mapMarksNamed, ih, List.map_cons, Prod.map, id]

variable (change : Mark → Mark') (mark : Mark)

theorem mapMarks_list (items : List (Expr Mark)) :
    (list mark items).mapMarks change = list (change mark) (items.map (mapMarks change)) := by
  rw [mapMarks, mapMarksItems_eq_map]

theorem mapMarks_tuple (items : List (Expr Mark)) :
    (tuple mark items).mapMarks change = tuple (change mark) (items.map (mapMarks change)) := by
  rw [mapMarks, mapMarksItems_eq_map]

theorem mapMarks_dict (pairs : List (Expr Mark × Expr Mark)) :
    (dict mark pairs).mapMarks change =
      dict (change mark) (pairs.map (Prod.map (mapMarks change) (mapMarks change))) := by
  rw [mapMarks, mapMarksPairs_eq_map]

theorem mapMarks_slice (subject : Expr Mark) (start stop : Option (Expr Mark)) :
    (slice mark subject start stop).mapMarks change =
      slice (change mark) (subject.mapMarks change) (start.map (mapMarks change))
        (stop.map (mapMarks change)) := by
  rw [mapMarks, mapMarksOption_eq_map, mapMarksOption_eq_map]

theorem mapMarks_call (callee : Expr Mark) (positional : List (Expr Mark))
    (named : List (String × Expr Mark)) :
    (call mark callee positional named).mapMarks change =
      call (change mark) (callee.mapMarks change) (positional.map (mapMarks change))
        (named.map (Prod.map id (mapMarks change))) := by
  rw [mapMarks, mapMarksItems_eq_map, mapMarksNamed_eq_map]

theorem mapMarks_filter (subject : Expr Mark) (name : String) (positional : List (Expr Mark))
    (named : List (String × Expr Mark)) :
    (filter mark subject name positional named).mapMarks change =
      filter (change mark) (subject.mapMarks change) name (positional.map (mapMarks change))
        (named.map (Prod.map id (mapMarks change))) := by
  rw [mapMarks, mapMarksItems_eq_map, mapMarksNamed_eq_map]

theorem mapMarks_test (subject : Expr Mark) (name : String) (argument : Option (Expr Mark)) :
    (test mark subject name argument).mapMarks change =
      test (change mark) (subject.mapMarks change) name (argument.map (mapMarks change)) := by
  rw [mapMarks, mapMarksOption_eq_map]

/-- Nodes around an expression, one for each of some marks. -/
theorem mapMarks_foldr {wrap : Mark → Expr Mark → Expr Mark}
    {wrap' : Mark' → Expr Mark' → Expr Mark'}
    (hwrap : ∀ mark expr, (wrap mark expr).mapMarks change =
      wrap' (change mark) (expr.mapMarks change)) (marks : List Mark) (expr : Expr Mark) :
    (marks.foldr wrap expr).mapMarks change =
      (marks.map change).foldr wrap' (expr.mapMarks change) := by
  induction marks with
  | nil => rfl
  | cons mark marks ih => rw [List.foldr_cons, hwrap, ih, List.map_cons, List.foldr_cons]

/-- Changed marks leave the form of a tree as it is. -/
theorem children_mapMarks (change : Mark → Mark') (expr : Expr Mark) :
    (expr.mapMarks change).children = expr.children.map (mapMarks change) := by
  cases expr <;>
    simp [mapMarks, children, mapMarksItems_eq_map, mapMarksPairs_eq_map, mapMarksNamed_eq_map,
      mapMarksOption_eq_map, List.flatMap_map, List.map_flatMap, Option.toList_map]

/-- What holds everywhere under other marks holds everywhere, if it can be carried back at each
node. -/
theorem Everywhere.of_mapMarks {Holds : Expr Mark → Prop} {Holds' : Expr Mark' → Prop}
    {change : Mark → Mark'} {expr : Expr Mark}
    (heverywhere : (expr.mapMarks change).Everywhere Holds')
    (himp : ∀ expr, Holds' (expr.mapMarks change) → Holds expr) : expr.Everywhere Holds := by
  generalize hother : expr.mapMarks change = other at heverywhere
  induction heverywhere generalizing expr with
  | node hroot _ ih =>
    subst hother
    refine .node (himp expr hroot) fun child hchild => ih (child.mapMarks change) ?_ rfl
    rw [children_mapMarks]
    exact List.mem_map_of_mem hchild

end MapMarks

/-! ## Spread markers and postfix forms -/

def isInteger : Expr Mark → Bool
  | integer _ _ => true
  | _ => false

def isBool : Expr Mark → Bool
  | bool _ _ => true
  | _ => false

def isSpread : Expr Mark → Bool
  | spread _ _ | namedSpread _ _ => true
  | _ => false

/-- The expression behind all its spread markers. -/
def core : Expr Mark → Expr Mark
  | spread _ operand | namedSpread _ operand => operand.core
  | expr => expr

/-- The expression that a postfix form stands behind. -/
def subject? : Expr Mark → Option (Expr Mark)
  | member _ subject _ | subscript _ subject _ | slice _ subject _ _ | call _ subject _ _ =>
    some subject
  | _ => none

/-- Puts a form around the expression behind all spread markers. -/
def underSpreads (wrap : Expr Mark → Expr Mark) : Expr Mark → Expr Mark
  | spread mark operand => spread mark (operand.underSpreads wrap)
  | namedSpread mark operand => namedSpread mark (operand.underSpreads wrap)
  | expr => wrap expr

@[simp]
theorem isSpread_unmarked (expr : Expr Mark) : expr.unmarked.isSpread = expr.isSpread := by
  cases expr <;> simp only [unmarked, isSpread]

/-- Without a spread marker there is nothing to wrap below. -/
theorem underSpreads_of_not_isSpread {wrap : Expr Mark → Expr Mark} {expr : Expr Mark}
    (hspread : expr.isSpread = false) : expr.underSpreads wrap = wrap expr := by
  cases expr with
  | spread | namedSpread => cases hspread
  | _ => rfl

/-- What is wrapped below the markers is still under a spread marker. -/
theorem isSpread_underSpreads {wrap : Expr Mark → Expr Mark} {expr : Expr Mark}
    (hspread : expr.isSpread) : (expr.underSpreads wrap).isSpread := by
  cases expr with
  | spread | namedSpread => rfl
  | _ => cases hspread

/-- Wrapping below the spread markers wraps the core. -/
theorem core_underSpreads {wrap : Expr Mark → Expr Mark}
    (hwrap : ∀ expr, (wrap expr).isSpread = false) (expr : Expr Mark) :
    (expr.underSpreads wrap).core = wrap expr.core := by
  have hcore (other : Expr Mark) (hother : other.isSpread = false) : other.core = other := by
    cases other with
    | spread | namedSpread => cases hother
    | _ => rfl
  induction expr using core.induct with
  | case1 mark operand ih | case2 mark operand ih => exact ih
  | case3 expr hspread hnamed =>
    have hplain : expr.isSpread = false := by
      cases expr with
      | spread mark operand => exact absurd rfl (hspread mark operand)
      | namedSpread mark operand => exact absurd rfl (hnamed mark operand)
      | _ => rfl
    rw [underSpreads_of_not_isSpread hplain, hcore _ (hwrap expr), hcore _ hplain]

/-- Only a form around an expression without markers is that form again. -/
theorem unmarked_underSpreads_eq_iff {wrap : Expr Mark → Expr Mark} {expr : Expr Mark}
    {target : Expr Unit} (htarget : target.isSpread = false) :
    (expr.underSpreads wrap).unmarked = target ↔
      expr.isSpread = false ∧ (wrap expr).unmarked = target := by
  by_cases hspread : expr.isSpread
  · simp only [hspread, Bool.true_eq_false, false_and, iff_false]
    rintro rfl
    rw [isSpread_unmarked, isSpread_underSpreads hspread] at htarget
    cases htarget
  · rw [Bool.not_eq_true] at hspread
    simp [hspread, underSpreads_of_not_isSpread hspread]

end Stencil.Expr
