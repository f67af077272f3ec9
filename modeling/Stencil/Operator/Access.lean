import Stencil.Table
import Stencil.Value
import Stencil.Value.Integer

/-!
# Access to parts

Positions count from zero and negative ones from the end.  A part that is not there is null; a slice
takes what lies between its bounds, which are moved to the nearest end if they lie outside.
-/

namespace Stencil.Operator

/-- The place of a position among so many elements, if there is one: negative positions count from
the end.  The sum has 64 bits and is wrapped where it does not fit. -/
def resolveIndex? (position : Int64) (length : Nat) : Option Nat := do
  let length ← Integer.ofInt? length
  let place := if position < 0 then position + length else position
  if 0 ≤ place ∧ place < length then Integer.size? place else none

/-- The place of a slice bound among so many elements, moved to the nearest end if it lies outside.
Here the sum stops at the ends of the 64 bits. -/
def clampBound (bound : Int64) (length : Nat) : Nat :=
  let last := (Integer.ofInt? length).getD Int64.maxValue
  let place := if bound < 0 then Integer.saturatingAdd bound last else bound
  (Integer.size? (Integer.clamp place 0 last)).getD length

/-- The places from which and up to which a slice goes; crossed bounds leave nothing between. -/
def sliceRange (start stop : Option Int64) (length : Nat) : Nat × Nat :=
  let first := (start.map fun bound => clampBound bound length).getD 0
  let last := (stop.map fun bound => clampBound bound length).getD length
  (first, max last first)

/-- The elements from one place up to another one.  There are none where the places are crossed or
the second one lies behind the end. -/
def range? {α : Type} (items : List α) (first last : Nat) : Option (List α) :=
  if first ≤ last ∧ last ≤ items.length then some ((items.take last).drop first) else none

/-- A place that a position has is one of the sequence. -/
theorem lt_of_resolveIndex? {position : Int64} {length place : Nat}
    (hplace : resolveIndex? position length = some place) : place < length := by
  obtain ⟨last, hlast, hplace⟩ := Option.bind_eq_some_iff.1 hplace
  have hlength : last.toInt = length := Integer.toInt_of_ofInt? hlast
  dsimp only at hplace
  generalize (if position < 0 then position + last else position) = start at hplace
  split at hplace
  · next hrange =>
    have hzero : 0 ≤ start.toInt := Int64.le_iff_toInt_le.1 hrange.1
    have hlt := Int64.lt_iff_toInt_lt.1 hrange.2
    rw [Integer.size?_of_nonneg hzero] at hplace
    cases hplace
    omega
  · cases hplace

/-- The saturating sum never saturates: the bound is negative and the length is not. -/
theorem clampBound_eq (bound : Int64) (length : Nat) :
    let limit := min (length : Int) Integer.greatest
    (clampBound bound length : Int) =
      max 0 (min limit (if bound.toInt < 0 then bound.toInt + limit else bound.toInt)) := by
  intro limit
  have hpositive : 0 ≤ limit := by
    unfold limit Integer.greatest
    omega
  have hlast : ((Integer.ofInt? length).getD Int64.maxValue).toInt = limit :=
    Integer.toInt_getD_ofInt? length
  dsimp only [clampBound]
  generalize (Integer.ofInt? length).getD Int64.maxValue = last at hlast ⊢
  have hplace : (if bound < 0 then Integer.saturatingAdd bound last else bound).toInt =
      if bound.toInt < 0 then bound.toInt + limit else bound.toInt := by
    have hleast := Integer.least_le_toInt bound
    simp only [Int64.lt_iff_toInt_lt, Int64.toInt_zero]
    split
    · rw [Integer.toInt_saturatingAdd, hlast]
      unfold limit Integer.greatest at *
      omega
    · rfl
  generalize (if bound < 0 then Integer.saturatingAdd bound last else bound) = place at hplace ⊢
  have hrange : (0 : Int64) ≤ last := by rwa [Int64.le_iff_toInt_le, hlast]
  have hclamp := Integer.toInt_clamp hrange place
  rw [hplace, hlast, Int64.toInt_zero] at hclamp
  rw [Integer.size?_of_nonneg (by omega), Option.getD_some, Int.toNat_of_nonneg (by omega), hclamp]

theorem clampBound_le (bound : Int64) (length : Nat) : clampBound bound length ≤ length := by
  have hbound := clampBound_eq bound length
  dsimp only at hbound
  omega

/-- A slice never goes from a place to one before it or beyond the end. -/
theorem sliceRange_ordered (start stop : Option Int64) (length : Nat) :
    (sliceRange start stop length).1 ≤ (sliceRange start stop length).2 ∧
      (sliceRange start stop length).2 ≤ length := by
  have hbound (bound : Option Int64) (other : Nat) (hother : other ≤ length) :
      (bound.map fun bound => clampBound bound length).getD other ≤ length := by
    cases bound with
    | none => exact hother
    | some bound => exact clampBound_le bound length
  have hfirst := hbound start 0 (Nat.zero_le _)
  have hlast := hbound stop length (Nat.le_refl _)
  exact ⟨Nat.le_max_right _ _, Nat.max_le.2 ⟨hlast, hfirst⟩⟩

theorem range?_of_ordered {α : Type} {items : List α} {first last : Nat}
    (hordered : first ≤ last ∧ last ≤ items.length) :
    range? items first last = some ((items.take last).drop first) :=
  if_pos hordered

theorem isSome_range? {α : Type} (items : List α) (start stop : Option Int64) :
    let range := sliceRange start stop items.length
    (range? items range.1 range.2).isSome :=
  Option.isSome_of_eq_some (range?_of_ordered (sliceRange_ordered start stop items.length))

/-- The element at a position, if there is one. -/
def elementAt? {α : Type} (items : List α) (position : Int64) : Option α :=
  (resolveIndex? position items.length).pmap
    (fun place (hplace : place < items.length) => items[place]) fun _ => lt_of_resolveIndex?

theorem elementAt?_eq_bind {α : Type} (items : List α) (position : Int64) :
    elementAt? items position =
      (resolveIndex? position items.length).bind fun place => items[place]? := by
  have hpmap (place? : Option Nat) (hplace : ∀ place, place? = some place → place < items.length) :
      place?.pmap (fun place (hplace : place < items.length) => items[place]) hplace =
        place?.bind fun place => items[place]? := by
    cases place? with
    | none => rfl
    | some place => exact (List.getElem?_eq_getElem (hplace place rfl)).symm
  exact hpmap _ _

/-- The elements from one bound up to another one. -/
def between {α : Type} (items : List α) (start stop : Option Int64) : List α :=
  let range := sliceRange start stop items.length
  (range? items range.1 range.2).get (isSome_range? items start stop)

theorem between_eq {α : Type} (items : List α) (start stop : Option Int64) :
    between items start stop =
      (items.take (sliceRange start stop items.length).2).drop
        (sliceRange start stop items.length).1 :=
  Option.get_of_eq_some _ (range?_of_ordered (sliceRange_ordered start stop items.length))

def subscript (value key : Value) : Except OperatorFault Value :=
  match value with
  | .null => .ok .null
  | .list items =>
    match key with
    | .integer position => .ok ((elementAt? items position).getD .null)
    | other => .error (.indexNotInteger other.type)
  | .string text | .safe text =>
    match key with
    | .integer position =>
      .ok (((elementAt? text.toList position).map fun char => .string (String.singleton char)).getD
        .null)
    | other => .error (.indexNotInteger other.type)
  | .map entries => .ok ((Table.get? key.key entries).getD .null)
  | other => .error (.notSubscriptable other.type)

/-- Only maps have named members; an index beyond the integers names nothing. -/
def select (value : Value) (selector : Selector) : Except OperatorFault Value :=
  match selector with
  | .name name =>
    match value with
    | .map entries => .ok ((Table.get? name entries).getD .null)
    | _ => .ok .null
  | .index index =>
    match Integer.ofInt? index.toNat with
    | some position => subscript value (.integer position)
    | none => .ok .null

/-- A bound that is missing or null leaves its side of a slice open. -/
def sliceBound : Option Value → Except OperatorFault (Option Int64)
  | none | some .null => .ok none
  | some (.integer bound) => .ok (some bound)
  | some other => .error (.boundNotInteger other.type)

def slice (value : Value) (start stop : Option Value) : Except OperatorFault Value := do
  let start ← sliceBound start
  let stop ← sliceBound stop
  match value with
  | .list items => return .list (between items start stop)
  | .string text | .safe text => return .string (String.ofList (between text.toList start stop))
  | .null => return .null
  | other => throw (.notSliceable other.type)

end Stencil.Operator
