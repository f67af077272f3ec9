import Mathlib
import Stencil.Scope.Context

/-!
# Frames of a context

Frames are found by their positions, so what lies above a frame does not matter to what is seen from
it.  Binding a name in the current frame leaves all other frames as they are.
-/

namespace Stencil

namespace Context

/-! ## Positions -/

variable {index : Nat} {below frames : List Frame}

/-- No position of the frames below is that of a frame above them. -/
theorem ne_position_above (above : List Frame) (hindex : index ≤ below.length) :
    index ≠ (above ++ below).length + 1 := by
  rw [List.length_append]
  omega

theorem frameAt?_append (above : List Frame) (hindex : index ≤ below.length) :
    frameAt? index (above ++ below) = frameAt? index below := by
  induction above with
  | nil => rfl
  | cons frame above ih =>
    rw [List.cons_append, frameAt?, if_neg (ne_position_above above hindex), ih]

theorem frameAt?_eq_none (hindex : frames.length < index) : frameAt? index frames = none := by
  induction frames with
  | nil => rfl
  | cons frame below ih =>
    rw [List.length_cons] at hindex
    rw [frameAt?, if_neg (by omega), ih (by omega)]

@[simp]
theorem frameAt?_cons_length {frame : Frame} :
    frameAt? (below.length + 1) (frame :: below) = some frame := by
  rw [frameAt?, if_pos rfl]

theorem mem_of_frameAt? {frame : Frame} (hframe : frameAt? index frames = some frame) :
    frame ∈ frames := by
  induction frames with
  | nil => cases hframe
  | cons first below ih =>
    rw [frameAt?] at hframe
    split at hframe
    · cases hframe
      exact List.mem_cons_self
    · exact List.mem_cons_of_mem _ (ih hframe)

/-! ## Names -/

variable {root : Table Value} {name : String}

/-- The value of a name as it is seen from a position. -/
def valueFrom? (root : Table Value) (name : String) (index : Nat) : List Frame → Option Value
  | [] => Table.get? name root
  | frame :: below =>
    if index = below.length + 1 then
      (Table.get? name frame.bindings).or (valueFrom? root name frame.parent below)
    else
      valueFrom? root name index below

theorem valueFrom?_append (above : List Frame) (hindex : index ≤ below.length) :
    valueFrom? root name index (above ++ below) = valueFrom? root name index below := by
  induction above with
  | nil => rfl
  | cons frame above ih =>
    rw [List.cons_append, valueFrom?, if_neg (ne_position_above above hindex), ih]

@[simp]
theorem valueFrom?_cons_length {frame : Frame} :
    valueFrom? root name (below.length + 1) (frame :: below) =
      (Table.get? name frame.bindings).or (valueFrom? root name frame.parent below) := by
  rw [valueFrom?, if_pos rfl]

theorem le_of_holderFrom? {position : Nat}
    (hholder : holderFrom? root name index frames = some position) :
    position ≤ frames.length := by
  induction frames generalizing index with
  | nil =>
    rw [holderFrom?] at hholder
    split at hholder
    · cases hholder
      rfl
    · cases hholder
  | cons frame below ih =>
    rw [holderFrom?] at hholder
    rw [List.length_cons]
    split at hholder
    · next hindex =>
      split at hholder
      · cases hholder
        omega
      · exact (ih hholder).trans (by omega)
    · exact (ih hholder).trans (by omega)

/-- The bindings at a position of some frames on a root. -/
def bindingsOf (root : Table Value) (frames : List Frame) (position : Nat) : Table Value :=
  ((frameAt? position frames).map Frame.bindings).getD root

theorem holderFrom?_bind_get? :
    ((holderFrom? root name index frames).bind fun position =>
      Table.get? name (bindingsOf root frames position)) = valueFrom? root name index frames := by
  induction frames generalizing index with
  | nil =>
    rw [holderFrom?, valueFrom?]
    split
    · rfl
    · next hunbound =>
      rw [Table.contains, Bool.not_eq_true, Option.isSome_eq_false_iff, Option.isNone_iff_eq_none]
        at hunbound
      rw [hunbound, Option.bind_none]
  | cons frame below ih =>
    have hbelow (start : Nat) : ((holderFrom? root name start below).bind fun position =>
        Table.get? name (bindingsOf root (frame :: below) position)) =
          valueFrom? root name start below := by
      rw [← ih]
      refine Option.bind_congr fun position hposition => ?_
      have hskip := frameAt?_append [frame] (le_of_holderFrom? hposition)
      rw [bindingsOf, bindingsOf, ← List.singleton_append, hskip]
    rw [holderFrom?, valueFrom?]
    split
    · next hindex =>
      cases hget : Table.get? name frame.bindings with
      | some value => simp [Table.contains, hget, bindingsOf, hindex]
      | none => simpa [Table.contains, hget] using hbelow frame.parent
    · exact hbelow index

theorem get?_eq_valueFrom? (context : Context) (name : String) :
    context.get? name =
      valueFrom? context.root name context.currentIndex context.frames := by
  rw [← holderFrom?_bind_get?]
  unfold get? holder?
  refine Option.bind_congr fun position _ => ?_
  rw [bindingsAt, bindingsOf]
  cases frameAt? position context.frames <;> rfl

/-! ## Binding names in a new frame -/

variable {context : Context}

/-- A context with one more frame on top, which has some bindings already. -/
def pushBound (context : Context) (parent : Nat) (bindings : Table Value) : Context :=
  { context with
    frames := ⟨context.nextSerial, parent, bindings⟩ :: context.frames
    nextSerial := context.nextSerial + 1 }

theorem update_pushBound (parent : Nat) (bindings : Table Value) (more : List (String × Value)) :
    (context.pushBound parent bindings).update more =
      context.pushBound parent (Table.insertAll bindings more) := by
  induction more generalizing bindings with
  | nil => rfl
  | cons binding more ih =>
    have hdefine : (context.pushBound parent bindings).define binding.1 binding.2 =
        context.pushBound parent (Table.insert binding.1 binding.2 bindings) := by
      simp [define, bindAt, pushBound, currentIndex, rebindAt]
    have hrest := ih (Table.insert binding.1 binding.2 bindings)
    rw [← hdefine] at hrest
    exact hrest

theorem update_push (parent : Nat) (bindings : List (String × Value)) :
    (context.push parent).update bindings = context.pushBound parent (Table.ofList bindings) :=
  update_pushBound parent [] bindings

end Context

end Stencil
