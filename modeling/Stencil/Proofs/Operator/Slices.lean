import Mathlib
import Stencil.Operator.Access
import Stencil.Operator.Binary

/-!
# Subscripts and slices of sequences

Lists and texts are sequences of elements.  A slice has the elements from its first bound up to but
not including its second one, a subscript the element at its position; positions below zero are
counted from the end, bounds beyond an end are moved to it, and there is nothing at a position beyond
an end.
-/

namespace Stencil

namespace Value

/-- The elements of a sequence: the items of a list, or the characters of a text as texts of their
own. -/
def elements? : Value → Option (List Value)
  | list items => some items
  | string text | safe text =>
    some (text.toList.map fun char => string (String.singleton char))
  | _ => none

/-- A value with a plain text in place of a safe one. -/
def plain : Value → Value
  | safe text => string text
  | value => value

end Value

namespace Operator

/-- What stands for a bound of a slice: nothing or null for one that is open, and an integer. -/
inductive Bound : Option Value → Option Int64 → Prop where
  | missing : Bound none none
  | null : Bound (some .null) none
  | integer (position : Int64) : Bound (some (.integer position)) (some position)

/-- The place of a position among so many elements, counted from the end if it is negative, and moved
to the nearest end if it lies outside. -/
def clamped (length : ℕ) (position : ℤ) : ℤ :=
  max 0 (min length (if position < 0 then length + position else position))

/-! ## Places in lists -/

section

variable {α β : Type} {items : List α} {position : Int64}

/-- A negative position and a length never add up to more than 64 bits, so neither sum is
changed. -/
theorem exact_sums (hnegative : position.toInt < 0) {length : ℕ} {last : Int64}
    (hlast : Integer.ofInt? length = some last) :
    (position + last).toInt = position.toInt + length ∧
      Integer.saturatingAdd position last = position + last := by
  have hlength : last.toInt = length := Integer.toInt_of_ofInt? hlast
  have hleast := Integer.least_le_toInt position
  have hgreatest := Integer.toInt_le_greatest last
  have hsum : (position + last).toInt = position.toInt + last.toInt :=
    Integer.toInt_add_of_fits (by omega) (by omega)
  refine ⟨hsum.trans (congrArg _ hlength), Int64.toInt_inj.1 ?_⟩
  rw [hsum, Integer.toInt_saturatingAdd]
  omega

theorem ofInt?_length {length : ℕ} (hlength : length ≤ Integer.greatest) :
    Integer.ofInt? length = some (Int64.ofInt length) := by
  refine if_pos ⟨?_, hlength⟩
  unfold Integer.least
  omega

/-- A position has the place that it has among the integers, if that is one of the sequence. -/
theorem resolveIndex?_eq {length : ℕ} (hlength : length ≤ Integer.greatest) (position : Int64) :
    let place : ℤ := if position.toInt < 0 then length + position.toInt else position.toInt
    resolveIndex? position length =
      if 0 ≤ place ∧ place < length then some place.toNat else none := by
  intro place
  have hlast := ofInt?_length hlength
  have hplace : (if position < 0 then position + Int64.ofInt length else position).toInt =
      place := by
    simp only [Int64.lt_iff_toInt_lt, Int64.toInt_zero]
    split
    · next hnegative =>
      unfold place
      rw [if_pos hnegative, (exact_sums hnegative hlast).1, add_comm]
    · next hnegative => exact (if_neg hnegative).symm
  rw [resolveIndex?, hlast]
  dsimp only [Option.bind_eq_bind, Option.bind_some]
  generalize (if position < 0 then position + Int64.ofInt length else position) = start
    at hplace ⊢
  have hends : (0 ≤ start ∧ start < Int64.ofInt length) ↔ 0 ≤ place ∧ place < length := by
    rw [Int64.le_iff_toInt_le, Int64.lt_iff_toInt_lt, hplace, Int64.toInt_zero,
      Integer.toInt_of_ofInt? hlast]
  by_cases hrange : 0 ≤ place ∧ place < length
  · rw [if_pos hrange, if_pos (hends.2 hrange), ← hplace, Integer.size?_of_nonneg]
    rw [hplace]
    exact hrange.1
  · rw [if_neg hrange, if_neg (mt hends.1 hrange)]

/-- A bound has the place that it has among the integers. -/
theorem clampBound_eq_clamped {length : ℕ} (hlength : length ≤ Integer.greatest) (bound : Int64) :
    (clampBound bound length : ℤ) = clamped length bound.toInt := by
  rw [clampBound_eq, min_eq_left hlength, clamped, add_comm]

/-- A slice goes from the place of its first bound to that of its second one, unless they cross. -/
theorem sliceRange_eq {length : ℕ} (hlength : length ≤ Integer.greatest)
    (start stop : Option Int64) :
    let low : ℤ := (start.map fun bound => clamped length bound.toInt).getD 0
    let high : ℤ := (stop.map fun bound => clamped length bound.toInt).getD length
    ((sliceRange start stop length).1 : ℤ) = low ∧
      ((sliceRange start stop length).2 : ℤ) = max high low := by
  have hbound (bound : Option Int64) (other : ℕ) :
      ((bound.map fun bound => clampBound bound length).getD other : ℤ) =
        (bound.map fun bound => clamped length bound.toInt).getD other := by
    cases bound with
    | none => rfl
    | some bound => exact clampBound_eq_clamped hlength bound
  have hlow := hbound start 0
  rw [Nat.cast_zero] at hlow
  exact ⟨hlow, by rw [sliceRange, Nat.cast_max, hbound stop, hlow]⟩

/-- The elements that are neither too early nor too late. -/
theorem drop_take_eq_map_filter (items : List α) (first last : ℕ) :
    (items.take last).drop first =
      ((List.finRange items.length).filter fun place =>
        first ≤ place.val ∧ place.val < last).map items.get := by
  -- Both places move back by one when the first element is left out.
  induction items generalizing first last with
  | nil => simp
  | cons item rest ih =>
    have hfinRange : List.finRange (item :: rest).length =
        0 :: (List.finRange rest.length).map Fin.succ := List.finRange_succ
    rw [hfinRange]
    cases last with
    | zero => simp
    | succ last =>
      cases first with
      | zero =>
        have hrest := ih 0 last
        simp only [List.drop_zero] at hrest
        simp [List.filter_map, Function.comp_def, hrest]
      | succ first => simp [List.filter_map, Function.comp_def, ih first last]

theorem between_map (f : α → β) (items : List α) (start stop : Option Int64) :
    between (items.map f) start stop = (between items start stop).map f := by
  simp only [between_eq, List.length_map, List.map_drop, List.map_take]

/-- A slice has the elements at the places from the one bound to the other. -/
theorem between_eq_map_filter (hlength : items.length ≤ Integer.greatest)
    (start stop : Option Int64) :
    between items start stop =
      ((List.finRange items.length).filter fun place =>
        (start.map fun bound => clamped items.length bound.toInt).getD 0 ≤ (place.val : ℤ) ∧
          (place.val : ℤ) < (stop.map fun bound => clamped items.length bound.toInt).getD
            items.length).map items.get := by
  obtain ⟨hlow, hhigh⟩ := sliceRange_eq hlength start stop
  rw [between_eq, drop_take_eq_map_filter]
  refine congrArg (List.map items.get) (List.filter_congr fun place _ => decide_eq_decide.2 ?_)
  omega

/-- Whatever the position, it is the end of the one slice and the start of the other. -/
theorem between_append (items : List α) (position : Int64) :
    between items none (some position) ++ between items (some position) none = items := by
  have hbound := clampBound_le position items.length
  simp [between_eq, sliceRange, hbound]

theorem elementAt?_map (f : α → β) (items : List α) (position : Int64) :
    elementAt? (items.map f) position = (elementAt? items position).map f := by
  rw [elementAt?_eq_bind, elementAt?_eq_bind, List.length_map, Option.map_bind]
  simp only [List.getElem?_map, Function.comp_def]

theorem elementAt?_of_place (hlength : items.length ≤ Integer.greatest) (place : Fin items.length)
    (hplace : (place.val : ℤ) =
      if position.toInt < 0 then items.length + position.toInt else position.toInt) :
    resolveIndex? position items.length = some place.val ∧
      elementAt? items position = some (items.get place) := by
  have hresolve : resolveIndex? position items.length = some place.val := by
    rw [resolveIndex?_eq hlength, ← hplace, if_pos (by omega), Int.toNat_natCast]
  refine ⟨hresolve, ?_⟩
  rw [elementAt?_eq_bind, hresolve]
  exact List.getElem?_eq_getElem place.isLt

theorem elementAt?_eq_none (hlength : items.length ≤ Integer.greatest)
    (houtside : position.toInt < -items.length ∨ items.length ≤ position.toInt) :
    resolveIndex? position items.length = none ∧ elementAt? items position = none := by
  have hresolve : resolveIndex? position items.length = none := by
    rw [resolveIndex?_eq hlength]
    refine if_neg ?_
    split <;> omega
  rw [elementAt?_eq_bind, hresolve]
  exact ⟨rfl, rfl⟩

/-- Every position from one end to the other has a place. -/
theorem exists_place {length : ℕ}
    (hinside : -(length : ℤ) ≤ position.toInt ∧ position.toInt < length) :
    ∃ place : Fin length, (place.val : ℤ) =
      if position.toInt < 0 then length + position.toInt else position.toInt := by
  refine ⟨⟨(if position.toInt < 0 then length + position.toInt else position.toInt).toNat, ?_⟩, ?_⟩
  · split <;> omega
  · dsimp only
    split <;> omega

/-- The two ways to find a place agree on every position that has one. -/
theorem clampBound_of_place {length place : ℕ} (hlength : length ≤ Integer.greatest)
    (hlt : place < length) (hplace : (place : ℤ) =
      if position.toInt < 0 then length + position.toInt else position.toInt) :
    clampBound position length = place := by
  have hclamped := clampBound_eq_clamped hlength position
  rw [clamped, ← hplace] at hclamped
  omega

theorem elementAt?_zero (hlength : items.length ≤ Integer.greatest) :
    elementAt? items 0 = items[0]? := by
  cases items with
  | nil => exact (elementAt?_eq_none hlength (.inr le_rfl)).2
  | cons first rest => exact (elementAt?_of_place hlength ⟨0, Nat.succ_pos _⟩ rfl).2

/-- The first element from a position on is the element at the position. -/
theorem elementAt?_zero_between (hlength : items.length ≤ Integer.greatest)
    (hposition : -items.length ≤ position.toInt) :
    elementAt? (between items (some position) none) 0 = elementAt? items position := by
  have hbound := clampBound_le position items.length
  have hbetween : between items (some position) none =
      items.drop (clampBound position items.length) := by
    simp [between_eq, sliceRange, hbound]
  rw [hbetween, elementAt?_zero (by rw [List.length_drop]; omega), List.getElem?_drop, Nat.add_zero]
  rcases lt_or_ge position.toInt (items.length : ℤ) with hinside | hbeyond
  · obtain ⟨place, hplace⟩ := exists_place ⟨hposition, hinside⟩
    rw [clampBound_of_place hlength place.isLt hplace, (elementAt?_of_place hlength place hplace).2]
    exact List.getElem?_eq_getElem place.isLt
  · have hlast : clampBound position items.length = items.length := by
      have hclamped := clampBound_eq_clamped hlength position
      unfold clamped at hclamped
      split at hclamped <;> omega
    rw [(elementAt?_eq_none hlength (.inr hbeyond)).2, hlast, List.getElem?_eq_none le_rfl]

end

/-! ## Sequences -/

variable {value : Value} {elements : List Value} {start stop : Option Value}
  {first last : Option Int64}

theorem sliceBound_eq_ok (hbound : Bound start first) : sliceBound start = .ok first := by
  cases hbound <;> rfl

/-- A slice is a sequence of the same type. -/
theorem exists_slice (helements : value.elements? = some elements) (hstart : Bound start first)
    (hstop : Bound stop last) :
    ∃ part, slice value start stop = .ok part ∧ part.type = value.type ∧ part.plain = part ∧
      part.elements? = some (between elements first last) := by
  unfold slice
  rw [sliceBound_eq_ok hstart, sliceBound_eq_ok hstop]
  cases value with
  | list items =>
    cases helements
    exact ⟨_, rfl, rfl, rfl, rfl⟩
  | string text | safe text =>
    cases helements
    refine ⟨_, rfl, rfl, rfl, ?_⟩
    rw [between_map, Value.elements?, String.toList_ofList]
  | _ => cases helements

/-- Two texts that make up another one. -/
theorem add_texts {left right : List Char} {text : String} (hparts : left ++ right = text.toList) :
    binary .add (.string (String.ofList left)) (.string (String.ofList right)) =
      .ok (.string text) := by
  change Except.ok (Value.string (String.ofList left ++ String.ofList right)) = _
  rw [← String.ofList_append, hparts, String.ofList_toList]

/-- A sequence is the sum of its slices up to a position and from it. -/
theorem exists_slices (helements : value.elements? = some elements) {gap : Option Value}
    (hgap : Bound gap none) (position : Int64) :
    ∃ front back, slice value gap (some (.integer position)) = .ok front ∧
      slice value (some (.integer position)) gap = .ok back ∧
        binary .add front back = .ok value.plain := by
  unfold slice
  rw [sliceBound_eq_ok hgap, sliceBound_eq_ok (.integer position)]
  cases value with
  | list items =>
    have hsum : binary .add (.list (between items none (some position)))
        (.list (between items (some position) none)) = .ok (.list items) := by
      rw [← congrArg Value.list (between_append items position)]
      rfl
    exact ⟨_, _, rfl, rfl, hsum⟩
  | string text | safe text =>
    exact ⟨_, _, rfl, rfl, add_texts (between_append text.toList position)⟩
  | _ => cases helements

theorem subscript_integer (helements : value.elements? = some elements) (position : Int64) :
    subscript value (.integer position) = .ok ((elementAt? elements position).getD .null) := by
  cases value with
  | list items =>
    cases helements
    rfl
  | string text | safe text =>
    cases helements
    rw [elementAt?_map]
    rfl
  | _ => cases helements

/-- A slice of a sequence has, in order, the elements at the places from its first bound up to but
not including its second one, and it always exists: the range that is cut out is ordered and within
the sequence.  The slices up to a position and from it add up to the sequence.  A subscript is the
element at the position, if there is one, and else null; where there is one, the two ways to find
its place agree, and neither of their sums leaves the 64 bits.  The slice from a position that is
not too far below zero begins with what the subscript gives.  No sequence in memory has more
elements than the greatest integer of 64 bits, since no allocation has more bytes. -/
theorem slices_and_subscripts (helements : value.elements? = some elements)
    (hlength : elements.length ≤ Integer.greatest) :
    let length : ℤ := elements.length
    (∀ start stop first last, Bound start first → Bound stop last →
      let low := (first.map fun bound => clamped elements.length bound.toInt).getD 0
      let high := (last.map fun bound => clamped elements.length bound.toInt).getD length
      let range := sliceRange first last elements.length
      ((range.1 : ℤ) = low ∧ (range.2 : ℤ) = max high low ∧
        range.1 ≤ range.2 ∧ range.2 ≤ elements.length) ∧
      ∃ part, slice value start stop = .ok part ∧ part.type = value.type ∧ part.plain = part ∧
        part.elements? = some (((List.finRange elements.length).filter fun place =>
          low ≤ (place.val : ℤ) ∧ (place.val : ℤ) < high).map elements.get)) ∧
    (∀ gap position, Bound gap none →
      ∃ front back, slice value gap (some (.integer position)) = .ok front ∧
        slice value (some (.integer position)) gap = .ok back ∧
          binary .add front back = .ok value.plain) ∧
    (∀ position : Int64,
      if -length ≤ position.toInt ∧ position.toInt < length then
        ∃ place : Fin elements.length,
          ((place.val : ℤ) = if position.toInt < 0 then length + position.toInt else position.toInt) ∧
            resolveIndex? position elements.length = some place.val ∧
            clampBound position elements.length = place.val ∧
            subscript value (.integer position) = .ok (elements.get place)
      else
        resolveIndex? position elements.length = none ∧
          subscript value (.integer position) = .ok .null) ∧
    (∀ position : Int64, position.toInt < 0 →
      let last := Int64.ofInt length
      (position + last).toInt = position.toInt + length ∧
        Integer.saturatingAdd position last = position + last) ∧
    ∀ gap (position : Int64), Bound gap none → -length ≤ position.toInt →
      ∃ rest, slice value (some (.integer position)) gap = .ok rest ∧
        subscript rest (.integer 0) = subscript value (.integer position) := by
  intro length
  refine ⟨fun start stop first last hstart hstop => ⟨?_, ?_⟩, fun gap position hgap => ?_,
    fun position => ?_, fun position hnegative => ?_, fun gap position hgap hposition => ?_⟩
  · obtain ⟨hlow, hhigh⟩ := sliceRange_eq hlength first last
    exact ⟨hlow, hhigh, sliceRange_ordered first last elements.length⟩
  · obtain ⟨part, hpart, htype, hplain, hbetween⟩ := exists_slice helements hstart hstop
    exact ⟨part, hpart, htype, hplain,
      hbetween.trans (congrArg some (between_eq_map_filter hlength first last))⟩
  · exact exists_slices helements hgap position
  · rw [subscript_integer helements]
    split
    · next hinside =>
      obtain ⟨place, hplace⟩ := exists_place hinside
      obtain ⟨hresolve, helement⟩ := elementAt?_of_place hlength place hplace
      exact ⟨place, hplace, hresolve, clampBound_of_place hlength place.isLt hplace,
        by rw [helement]; rfl⟩
    · next houtside =>
      have hbeyond : position.toInt < -elements.length ∨ elements.length ≤ position.toInt := by
        omega
      obtain ⟨hresolve, helement⟩ := elementAt?_eq_none hlength hbeyond
      exact ⟨hresolve, by rw [helement]; rfl⟩
  · exact exact_sums hnegative (ofInt?_length hlength)
  · obtain ⟨rest, hrest, -, -, hbetween⟩ := exists_slice helements (.integer position) hgap
    refine ⟨rest, hrest, ?_⟩
    rw [subscript_integer hbetween, subscript_integer helements,
      elementAt?_zero_between hlength hposition]

/-- A safe text: its last two characters, the text cut behind its end, its last character, and the
slice that begins with it.  The least position names no character, and as a bound it is the start.
-/
theorem slices_and_subscripts_safe :
    let value := Value.safe "abc"
    (∃ part, slice value (some (.integer (-2))) (some .null) = .ok part ∧
      part.elements? = some [.string "b", .string "c"]) ∧
    (∃ front back, slice value none (some (.integer 5)) = .ok front ∧
      slice value (some (.integer 5)) none = .ok back ∧
        binary .add front back = .ok (.string "abc")) ∧
    (resolveIndex? Int64.minValue 3 = none ∧ subscript value (.integer Int64.minValue) = .ok .null ∧
      ∃ part, slice value (some (.integer Int64.minValue)) (some (.integer Int64.maxValue)) =
        .ok part ∧ part.elements? = value.elements?) ∧
    ∃ rest, slice value (some (.integer (-1))) none = .ok rest ∧
      subscript rest (.integer 0) = subscript value (.integer (-1)) := by
  intro value
  have helements : value.elements? = some [.string "a", .string "b", .string "c"] := rfl
  obtain ⟨hslice, hparts, hsubscript, -, hrest⟩ := slices_and_subscripts helements (by decide)
  obtain ⟨-, part, hpart, -, -, hbetween⟩ := hslice _ _ _ _ (.integer (-2)) .null
  obtain ⟨-, whole, hwhole, -, -, hall⟩ :=
    hslice _ _ _ _ (.integer Int64.minValue) (.integer Int64.maxValue)
  obtain ⟨hresolve, hnull⟩ := hsubscript Int64.minValue
  exact ⟨⟨part, hpart, hbetween⟩, hparts none 5 .missing, ⟨hresolve, hnull, whole, hwhole, hall⟩,
    hrest none (-1) .missing (by decide)⟩

end Operator

end Stencil
