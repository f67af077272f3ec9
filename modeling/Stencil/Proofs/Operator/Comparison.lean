import Mathlib
import Stencil.Proofs.Operator.Slices
import Stencil.Proofs.Value.Equality

/-!
# Coherence of equality and order

Comparison, membership and subscripts do not tell equal values apart.  Integers are ordered by size
and texts by their characters, plain and safe ones alike; nothing else without floats is in any order.
-/

namespace Stencil

namespace Value

theorem elements?_text {value : Value} {text : String} (htext : value.string? = some text) :
    value.elements? = some (text.toList.map fun char => string (String.singleton char)) := by
  rcases string?_eq_some_iff.1 htext with rfl | rfl <;> rfl

end Value

namespace Operator

variable {names : Value.CallableNames} {left left' right right' : Value} {op : BinaryOp}

/-- Two integers or two texts. -/
def Comparable (left right : Value) : Prop :=
  left.type = right.type ∧ (left.type = .integer ∨ left.type = .string)

/-- A value without floats. -/
abbrev FloatFreeValue (names : Value.CallableNames) :=
  { value : Value // value.FloatFree names }

/-- The operators of order. -/
def comparisons : List BinaryOp :=
  [.lt, .lteq, .gt, .gteq]

/-- How two comparable values stand to each other. -/
inductive Ordered : Value → Value → Ordering → Prop where
  | integers {left right ordering} : cmp left.toInt right.toInt = ordering →
      Ordered (.integer left) (.integer right) ordering
  | texts {left right text text' ordering} : left.string? = some text → right.string? = some text' →
      cmp text text' = ordering → Ordered left right ordering

/-- Two operations have equal results, or fail with the same fault. -/
inductive SameOutcome : Except OperatorFault Value → Except OperatorFault Value → Prop where
  | value {result result' : Value} : result.equals result' → SameOutcome (.ok result) (.ok result')
  | fault (fault : OperatorFault) : SameOutcome (.error fault) (.error fault)

theorem Ordered.of_same {ordering : Ordering} (hordered : Ordered left right ordering)
    (hleft : Value.Same names left left') (hright : Value.Same names right right') :
    Ordered left' right' ordering := by
  cases hordered with
  | integers =>
    cases hleft with
    | text htext => cases htext
    | integer =>
      cases hright with
      | text htext => cases htext
      | integer => exact .integers ‹_›
  | texts htext htext' hordering =>
    exact .texts (hleft.string?_eq ▸ htext) (hright.string?_eq ▸ htext') hordering

/-! ## Order -/

/-- An ordering found by one comparison and one test for equality. -/
theorem ite_eq_cmp {α : Type} [LinearOrder α] (left right : α) :
    (if left < right then Ordering.lt else if left = right then .eq else .gt) = cmp left right := by
  rw [cmp_eq_compare, LinearOrder.compare_eq_compareOfLessAndEq, compareOfLessAndEq]

theorem orderIntegers_eq_cmp (left right : Int64) :
    orderIntegers left right = cmp left.toInt right.toInt := by
  simp only [orderIntegers, ← Int64.toInt_inj]
  exact ite_eq_cmp left.toInt right.toInt

theorem orderStrings_eq_cmp (left right : String) : orderStrings left right = cmp left right :=
  ite_eq_cmp left right

theorem exists_ordered (hcomparable : Comparable left right) :
    ∃ ordering, Ordered left right ordering := by
  obtain ⟨htype, hinteger | hstring⟩ := hcomparable
  · obtain ⟨value, rfl⟩ := Value.type_eq_integer_iff.1 hinteger
    obtain ⟨value', rfl⟩ := Value.type_eq_integer_iff.1 (htype.symm.trans hinteger)
    exact ⟨_, .integers rfl⟩
  · obtain ⟨text, htext⟩ := Value.type_eq_string_iff.1 hstring
    obtain ⟨text', htext'⟩ := Value.type_eq_string_iff.1 (htype.symm.trans hstring)
    exact ⟨_, .texts htext htext' rfl⟩

theorem order?_eq_ok {ordering : Ordering} (hordered : Ordered left right ordering) :
    order? op left right = .ok (some ordering) := by
  cases hordered with
  | integers hordering =>
    exact congrArg (Except.ok ∘ some) ((orderIntegers_eq_cmp _ _).trans hordering)
  | texts hleft hright hordering =>
    rw [← hordering, ← orderStrings_eq_cmp]
    rcases Value.string?_eq_some_iff.1 hleft with rfl | rfl <;>
      rcases Value.string?_eq_some_iff.1 hright with rfl | rfl <;> rfl

/-- Without floats only integers can be ordered as doubles, and they are ordered as integers. -/
theorem order?_eq_error (hleft : left.FloatFree names) (hright : right.FloatFree names)
    (hcomparable : ¬Comparable left right) :
    order? op left right = .error (.unsupportedOperands op left.type right.type) := by
  unfold order?
  split
  · exact absurd ⟨rfl, .inl rfl⟩ hcomparable
  · split
    · next hstring hstring' =>
      have htype := Value.type_eq_string_iff.2 ⟨_, hstring⟩
      exact absurd ⟨htype.trans (Value.type_eq_string_iff.2 ⟨_, hstring'⟩).symm, .inr htype⟩
        hcomparable
    · split
      · next hdouble hdouble' =>
        have htype := hleft.type_of_double? hdouble
        exact absurd ⟨htype.trans (hright.type_of_double? hdouble').symm, .inl htype⟩ hcomparable
      · rfl

theorem order?_eq (hleft : Value.Same names left left') (hright : Value.Same names right right') :
    order? op left right = order? op left' right' := by
  by_cases hcomparable : Comparable left right
  · obtain ⟨ordering, hordered⟩ := exists_ordered hcomparable
    rw [order?_eq_ok hordered, order?_eq_ok (hordered.of_same hleft hright)]
  · have hcomparable' : ¬Comparable left' right' := by
      rwa [Comparable, ← hleft.type_eq, ← hright.type_eq]
    rw [order?_eq_error hleft.floatFree hright.floatFree hcomparable,
      order?_eq_error hleft.symm.floatFree hright.symm.floatFree hcomparable', hleft.type_eq,
      hright.type_eq]

theorem equals_of_ordered {ordering : Ordering} (hordered : Ordered left right ordering) :
    left.equals right = (ordering == .eq) := by
  rw [Bool.eq_iff_iff, beq_iff_eq]
  cases hordered with
  | integers hordering =>
    rw [← hordering, cmp_eq_eq_iff, Int64.toInt_inj]
    simp [Value.equals]
  | texts hleft hright hordering =>
    rw [← hordering, cmp_eq_eq_iff, Value.equals_iff_of_string? hleft, hright, Option.some_inj]
    exact eq_comm

/-- Of two comparable values one is less, or they are equal, or one is greater. -/
theorem trichotomy (hcomparable : Comparable left right) :
    ∃ less equal greater : Bool,
      binary .lt left right = .ok (.bool less) ∧ binary .eq left right = .ok (.bool equal) ∧
        binary .gt left right = .ok (.bool greater) ∧ [less, equal, greater].count true = 1 ∧
          binary .lteq left right = .ok (.bool !greater) ∧
            binary .gteq left right = .ok (.bool !less) := by
  obtain ⟨ordering, hordered⟩ := exists_ordered hcomparable
  have hcompare (op : BinaryOp) : compare op left right = .ok (accepts op ordering) := by
    rw [compare, order?_eq_ok hordered]
    rfl
  refine ⟨ordering == .lt, ordering == .eq, ordering == .gt, ?_, ?_, ?_, ?_, ?_, ?_⟩
  · exact congrArg (Except.map Value.bool) (hcompare .lt)
  · exact congrArg (Except.ok ∘ Value.bool) (equals_of_ordered hordered)
  · exact congrArg (Except.map Value.bool) (hcompare .gt)
  · cases ordering <;> rfl
  · exact congrArg (Except.map Value.bool) (hcompare .lteq)
  · exact congrArg (Except.map Value.bool) (hcompare .gteq)

theorem compare_eq_error (hleft : left.FloatFree names) (hright : right.FloatFree names)
    (hcomparable : ¬Comparable left right) :
    compare op left right = .error (.unsupportedOperands op left.type right.type) := by
  rw [compare, order?_eq_error hleft hright hcomparable]
  rfl

theorem binary_comparison (hop : op ∈ comparisons) (left right : Value) :
    binary op left right = (compare op left right).map .bool := by
  simp only [comparisons, List.mem_cons, List.not_mem_nil, or_false] at hop
  obtain rfl | rfl | rfl | rfl := hop <;> rfl

theorem less_iff_ordered (hleft : left.FloatFree names) (hright : right.FloatFree names) :
    binary .lt left right = .ok (.bool true) ↔ Ordered left right .lt := by
  rw [binary_comparison (by simp [comparisons])]
  constructor
  · intro hless
    by_cases hcomparable : Comparable left right
    · obtain ⟨ordering, hordered⟩ := exists_ordered hcomparable
      rw [compare, order?_eq_ok hordered] at hless
      cases ordering with
      | lt => exact hordered
      | _ => cases hless
    · rw [compare_eq_error hleft hright hcomparable] at hless
      cases hless
  · intro hordered
    rw [compare, order?_eq_ok hordered]
    rfl

theorem Ordered.trans {middle : Value} (hfirst : Ordered left middle .lt)
    (hsecond : Ordered middle right .lt) : Ordered left right .lt := by
  cases hfirst with
  | integers hfirst =>
    cases hsecond with
    | texts hmiddle => cases hmiddle
    | integers hsecond =>
      rw [cmp_eq_lt_iff] at hfirst hsecond
      exact .integers ((cmp_eq_lt_iff _ _).2 (hfirst.trans hsecond))
  | texts hleft hmiddle hfirst =>
    cases hsecond with
    | integers => cases hmiddle
    | texts hmiddle' hright hsecond =>
      cases hmiddle.symm.trans hmiddle'
      rw [cmp_eq_lt_iff] at hfirst hsecond
      exact .texts hleft hright ((cmp_eq_lt_iff _ _).2 (hfirst.trans hsecond))

/-! ## Membership -/

theorem any_equals_eq {items items' : List Value} {item item' : Value}
    (hitems : List.Forall₂ (Value.Same names) items items')
    (hitem : Value.Same names item item') :
    (items.any fun element => element.equals item) =
      items'.any fun element => element.equals item' := by
  induction hitems with
  | nil => rfl
  | cons hfirst _ ih => rw [List.any_cons, List.any_cons, hfirst.equals_eq hitem, ih]

/-- Tables with the same names, and the same values of them, have the same value of each name. -/
theorem get?_same {entries entries' : List (String × Value)} (name : String)
    (hentries : List.Forall₂
      (fun entry entry' => entry.1 = entry'.1 ∧ Value.Same names entry.2 entry'.2) entries entries') :
    Option.Rel (Value.Same names) (Table.get? name entries) (Table.get? name entries') := by
  induction hentries with
  | nil => exact .none
  | cons hentry _ ih =>
    rw [Table.get?, Table.get?, hentry.1]
    split
    · exact .some hentry.2
    · exact ih

theorem isSome_eq_of_rel {part part' : Option Value}
    (hpart : Option.Rel (Value.Same names) part part') : part.isSome = part'.isSome := by
  cases hpart <;> rfl

theorem isMember_text {text : String} (htext : right.string? = some text) :
    isMember left right = isMember left (.string text) := by
  rcases Value.string?_eq_some_iff.1 htext with rfl | rfl <;> rfl

theorem isMember_eq (hleft : Value.Same names left left') (hright : Value.Same names right right') :
    isMember left right = isMember left' right' := by
  cases hright with
  | text htext htext' =>
    rw [isMember_text htext, isMember_text htext', isMember, isMember, hleft.string?_eq,
      hleft.type_eq]
  | list hlength hitems =>
    have hitems := Value.Same.forall₂_items (.list hlength hitems)
    exact congrArg Except.ok (any_equals_eq hitems hleft)
  | map hlength hkeys hentries =>
    have hentries := Value.Same.forall₂_entries (.map hlength hkeys hentries)
    rw [isMember, isMember, hleft.key_eq]
    exact congrArg Except.ok (isSome_eq_of_rel (get?_same left'.key hentries))
  | _ => rfl

/-! ## Subscripts -/

theorem getElem?_same {items items' : List Value} (place : ℕ)
    (hitems : List.Forall₂ (Value.Same names) items items') :
    Option.Rel (Value.Same names) items[place]? items'[place]? := by
  induction hitems generalizing place with
  | nil => exact .none
  | cons hitem _ ih =>
    cases place with
    | zero => exact .some hitem
    | succ place => exact ih place

theorem elementAt?_same {items items' : List Value} (position : Int64)
    (hitems : List.Forall₂ (Value.Same names) items items') :
    Option.Rel (Value.Same names) (elementAt? items position) (elementAt? items' position) := by
  rw [elementAt?_eq_bind, elementAt?_eq_bind, hitems.length_eq]
  cases resolveIndex? position items'.length with
  | none => exact .none
  | some place => exact getElem?_same place hitems

/-- What is looked up in equal values: equal parts, or null in both. -/
theorem SameOutcome.part {part part' : Option Value}
    (hpart : Option.Rel (Value.Same names) part part') :
    SameOutcome (.ok (part.getD .null)) (.ok (part'.getD .null)) := by
  cases hpart with
  | none => exact .value rfl
  | some hsame => exact .value hsame.equals

theorem subscript_eq_error {elements : List Value} (helements : left.elements? = some elements)
    (htype : right.type ≠ .integer) :
    subscript left right = .error (.indexNotInteger right.type) := by
  cases left with
  | list | string | safe =>
    cases right with
    | integer => exact absurd rfl htype
    | _ => rfl
  | _ => cases helements

theorem subscript_elements_same {elements elements' : List Value}
    (helements : left.elements? = some elements) (helements' : left'.elements? = some elements')
    (hsame : List.Forall₂ (Value.Same names) elements elements')
    (hright : Value.Same names right right') :
    SameOutcome (subscript left right) (subscript left' right') := by
  by_cases htype : right.type = .integer
  · obtain ⟨position, rfl⟩ := Value.type_eq_integer_iff.1 htype
    cases hright with
    | text htext => cases htext
    | integer =>
      rw [subscript_integer helements, subscript_integer helements']
      exact .part (elementAt?_same position hsame)
  · rw [subscript_eq_error helements htype, subscript_eq_error helements' (hright.type_eq ▸ htype),
      hright.type_eq]
    exact .fault _

theorem subscript_same (hleft : Value.Same names left left')
    (hright : Value.Same names right right') :
    SameOutcome (subscript left right) (subscript left' right') := by
  cases hleft with
  | null => exact .value rfl
  | text htext htext' =>
    refine subscript_elements_same (Value.elements?_text htext) (Value.elements?_text htext') ?_ hright
    refine List.forall₂_same.2 (List.forall_mem_map.2 fun char _ => ?_)
    exact .text rfl rfl
  | list hlength hitems =>
    have hitems := Value.Same.forall₂_items (.list hlength hitems)
    exact subscript_elements_same rfl rfl hitems hright
  | map hlength hkeys hentries =>
    have hentries := Value.Same.forall₂_entries (.map hlength hkeys hentries)
    rw [subscript, subscript, hright.key_eq]
    exact .part (get?_same right'.key hentries)
  | _ => exact .fault _

/-! ## Coherence -/

theorem binary_same (hop : op ∈ [.eq, .mem] ++ comparisons) (hleft : Value.Same names left left')
    (hright : Value.Same names right right') : binary op left right = binary op left' right' := by
  rcases List.mem_append.1 hop with hop | hop
  · simp only [List.mem_cons, List.not_mem_nil, or_false] at hop
    obtain rfl | rfl := hop
    · exact congrArg (Except.ok ∘ Value.bool) (hleft.equals_eq hright)
    · exact congrArg (Except.map Value.bool) (isMember_eq hleft hright)
  · rw [binary_comparison hop, binary_comparison hop, compare, compare, order?_eq hleft hright]

/-- On values without floats equality is an equivalence that does not see which texts are safe, at
any depth.  Equal values have the same truth, type, text and key, and each can stand for the other as
an operand of equality, of an order, of membership or of a subscript.  Comparable values are in a
strict linear order, up to equality; values that are not comparable are in no order at all. -/
theorem equality_and_order_are_coherent (names : Value.CallableNames) :
    Equivalence (fun left right : FloatFreeValue names => left.val.equals right.val) ∧
    (∀ left right : FloatFreeValue names, left.val.allPlain = right.val.allPlain →
      left.val.equals right.val) ∧
    (∀ left right : FloatFreeValue names, left.val.equals right.val →
      left.val.isTruthy = right.val.isTruthy ∧ left.val.type = right.val.type ∧
        left.val.display = right.val.display ∧ left.val.key = right.val.key) ∧
    (∀ left left' right right' : FloatFreeValue names, left.val.equals left'.val →
      right.val.equals right'.val →
        (∀ op ∈ [.eq, .mem] ++ comparisons, binary op left right = binary op left' right') ∧
          SameOutcome (subscript left right) (subscript left' right')) ∧
    (∀ left right, Comparable left right →
      ∃ less equal greater : Bool,
        binary .lt left right = .ok (.bool less) ∧ binary .eq left right = .ok (.bool equal) ∧
          binary .gt left right = .ok (.bool greater) ∧ [less, equal, greater].count true = 1 ∧
            binary .lteq left right = .ok (.bool !greater) ∧
              binary .gteq left right = .ok (.bool !less)) ∧
    (∀ left middle right : FloatFreeValue names, binary .lt left middle = .ok (.bool true) →
      binary .lt middle right = .ok (.bool true) → binary .lt left right = .ok (.bool true)) ∧
    ∀ left right : FloatFreeValue names, ¬Comparable left.val right.val → ∀ op ∈ comparisons,
      binary op left right = .error (.unsupportedOperands op left.val.type right.val.type) := by
  have hsame {left right : FloatFreeValue names} (hequal : left.val.equals right.val) :
      Value.Same names left right :=
    .of_equals left.property right.property hequal
  refine ⟨⟨?_, ?_, ?_⟩, ?_, ?_, ?_, ?_, ?_, ?_⟩
  · exact fun value => (Value.Same.refl value.property).equals
  · exact fun hequal => (hsame hequal).symm.equals
  · exact fun hfirst hsecond => ((hsame hfirst).trans (hsame hsecond)).equals
  · intro left right hplain
    have hleft := Value.Same.allPlain left.property
    rw [hplain] at hleft
    exact (hleft.trans (Value.Same.allPlain right.property).symm).equals
  · intro left right hequal
    exact ⟨(hsame hequal).isTruthy_eq, (hsame hequal).type_eq, (hsame hequal).display_eq,
      (hsame hequal).key_eq⟩
  · intro left left' right right' hleft hright
    exact ⟨fun op hop => binary_same hop (hsame hleft) (hsame hright),
      subscript_same (hsame hleft) (hsame hright)⟩
  · exact fun left right hcomparable => trichotomy hcomparable
  · intro left middle right hfirst hsecond
    rw [less_iff_ordered left.property middle.property] at hfirst
    rw [less_iff_ordered middle.property right.property] at hsecond
    rw [less_iff_ordered left.property right.property]
    exact hfirst.trans hsecond
  · intro left right hcomparable op hop
    rw [binary_comparison hop, compare_eq_error left.property right.property hcomparable]
    rfl

/-- Two lists that differ in which texts are safe, the one within a map included: they are equal and
look the same, contain the same, have equal entries and are not in any order; texts and integers
are. -/
theorem equality_and_order_are_coherent_nested :
    let left := Value.list [.string "a", .map [("k", .safe "b")], .function ⟨3, "f"⟩]
    let right := Value.list [.safe "a", .map [("k", .string "b")], .function ⟨3, "f"⟩]
    left.equals right ∧ left.display = right.display ∧
      binary .mem (.string "a") left = binary .mem (.safe "a") right ∧
        SameOutcome (subscript left (.integer 1)) (subscript right (.integer 1)) ∧
          binary .lt left right = .error (.unsupportedOperands .lt .list .list) ∧
            binary .lteq (.string "a") (.safe "b") = .ok (.bool true) ∧
              binary .lt (.integer 1) (.integer 3) = .ok (.bool true) := by
  intro left right
  let names : Value.CallableNames := ⟨fun _ => "f", fun _ => "m"⟩
  have hmap {entry : Value} (hentry : entry.FloatFree names) :
      (Value.map [("k", entry)]).FloatFree names :=
    .map (List.forall_mem_singleton.2 hentry)
  have hleft : left.FloatFree names :=
    .list (by simpa using ⟨.string "a", hmap (.safe "b"), .function rfl⟩)
  have hright : right.FloatFree names :=
    .list (by simpa using ⟨.safe "a", hmap (.string "b"), .function rfl⟩)
  let position (place : Int64) : FloatFreeValue names := ⟨.integer place, .integer place⟩
  obtain ⟨hequivalence, hsafe, halike, hoperands, hordered, htrans, hunordered⟩ :=
    equality_and_order_are_coherent names
  have hequal : left.equals right := hsafe ⟨left, hleft⟩ ⟨right, hright⟩ rfl
  obtain ⟨-, -, hdisplay, -⟩ := halike ⟨left, hleft⟩ ⟨right, hright⟩ hequal
  obtain ⟨hmember, -⟩ := hoperands ⟨_, .string "a"⟩ ⟨_, .safe "a"⟩ ⟨left, hleft⟩ ⟨right, hright⟩
    (by decide) hequal
  obtain ⟨-, hentry⟩ := hoperands ⟨left, hleft⟩ ⟨right, hright⟩ (position 1) (position 1) hequal
    (hequivalence.refl _)
  have hlist : ¬Comparable left right := by simp [Comparable, left, Value.type]
  obtain ⟨less, equal, greater, -, -, hgreater, -, hless, -⟩ :=
    hordered (.string "a") (.safe "b") ⟨rfl, .inr rfl⟩
  refine ⟨hequal, hdisplay, hmember .mem (by decide), hentry,
    hunordered ⟨left, hleft⟩ ⟨right, hright⟩ hlist .lt (by decide), ?_,
    htrans (position 1) (position 2) (position 3) rfl rfl⟩
  have hnot : binary .gt (.string "a") (.safe "b") = .ok (.bool false) := rfl
  cases hnot.symm.trans hgreater
  exact hless

end Operator

end Stencil
