import Stencil.Proofs.Parts
import Stencil.Proofs.Scope.Frames

/-!
# Properties of all bound values

A property that every value bound in a context has is kept when frames are opened or closed, and
when names are bound to further values that have it.
-/

namespace Stencil

namespace Context

/-- All values bound in the context have the property. -/
structure All (good : Value → Prop) (context : Context) : Prop where
  root : Table.All good context.root
  frames : ∀ frame ∈ context.frames, Table.All good frame.bindings

variable {context : Context} {good good' : Value → Prop} {name : String} {value : Value}

theorem All.imp (hall : context.All good) (himp : ∀ value, good value → good' value) :
    context.All good' where
  root := hall.root.imp himp
  frames frame hframe := (hall.frames frame hframe).imp himp

/-! ## Frames -/

theorem All.pushBound (hall : context.All good) (parent : Nat) {bindings : Table Value}
    (hbindings : Table.All good bindings) : (context.pushBound parent bindings).All good where
  root := hall.root
  frames := List.forall_mem_cons.2 ⟨hbindings, hall.frames⟩

theorem All.push (hall : context.All good) (parent : Nat) : (context.push parent).All good :=
  hall.pushBound parent Table.all_nil

theorem All.pop (hall : context.All good) : context.pop.All good where
  root := hall.root
  frames frame hframe := hall.frames frame (List.mem_of_mem_tail hframe)

/-! ## Names -/

theorem all_rebindAt {index : Nat} {frames : List Frame}
    (hframes : ∀ frame ∈ frames, Table.All good frame.bindings) (hvalue : good value) :
    ∀ frame ∈ rebindAt index name value frames, Table.All good frame.bindings := by
  induction frames with
  | nil => exact hframes
  | cons frame below ih =>
    rw [List.forall_mem_cons] at hframes
    rw [rebindAt]
    split
    · exact List.forall_mem_cons.2 ⟨hframes.1.insert name hvalue, hframes.2⟩
    · exact List.forall_mem_cons.2 ⟨hframes.1, ih hframes.2⟩

theorem All.bindAt (hall : context.All good) (index : Nat) (name : String) (hvalue : good value) :
    (context.bindAt index name value).All good := by
  unfold Context.bindAt
  split
  · exact ⟨hall.root.insert name hvalue, hall.frames⟩
  · exact ⟨hall.root, all_rebindAt hall.frames hvalue⟩

theorem All.define (hall : context.All good) (name : String) (hvalue : good value) :
    (context.define name value).All good :=
  hall.bindAt _ name hvalue

theorem All.set (hall : context.All good) (name : String) (hvalue : good value) :
    (context.set name value).All good := by
  unfold Context.set overwrite?
  cases context.holder? name <;> exact hall.bindAt _ name hvalue

theorem All.update (hall : context.All good) {bindings : List (String × Value)}
    (hbindings : Table.All good bindings) : (context.update bindings).All good := by
  induction bindings generalizing context with
  | nil => exact hall
  | cons binding rest ih =>
    rw [Table.All, List.forall_mem_cons] at hbindings
    exact ih (hall.define binding.1 hbindings.1) hbindings.2

theorem All.bindingsAt (hall : context.All good) (index : Nat) :
    Table.All good (context.bindingsAt index) := by
  unfold Context.bindingsAt
  split
  · next frame hframe => exact hall.frames frame (mem_of_frameAt? hframe)
  · exact hall.root

/-- Whatever a name means in the context is bound in it. -/
theorem All.get? (hall : context.All good) (hvalue : context.get? name = some value) :
    good value := by
  obtain ⟨index, -, hbound⟩ := Option.bind_eq_some_iff.1 hvalue
  exact (hall.bindingsAt index).get? hbound

end Context

end Stencil
