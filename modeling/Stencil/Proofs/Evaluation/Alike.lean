import Stencil.Proofs.Scope.Histories

/-!
# Contexts alike

Two runs go on alike in contexts that stand on the same frames, whatever lies between these and the
frames of the open calls: no name is looked up there, and no handle that was given out before is
live there.
-/

namespace Stencil

namespace Context

variable {base context context' : Context} {handle : ScopeHandle}

/-- The handle is none that the context has still to give out. -/
def Past (context : Context) (handle : ScopeHandle) : Prop :=
  handle.context = context.identity → handle.serial < context.nextSerial

/-! ## Frames above others -/

theorem mem_of_frameAt?_append {index : Nat} {above below : List Frame} {frame : Frame}
    (hframe : frameAt? index (above ++ below) = some frame) (hindex : below.length < index) :
    frame ∈ above := by
  induction above with
  | nil =>
    rw [List.nil_append, frameAt?_eq_none hindex] at hframe
    cases hframe
  | cons first above ih =>
    rw [List.cons_append, frameAt?] at hframe
    split at hframe
    · cases hframe
      exact List.mem_cons_self
    · exact List.mem_cons_of_mem _ (ih hframe)

/-- The context stands on another one, with frames on top that were opened later. -/
structure Above (base context : Context) (top : List Frame) : Prop where
  identity : context.identity = base.identity
  root : context.root = base.root
  frames : context.frames = top ++ base.frames
  serial : ∀ frame ∈ top, base.nextSerial ≤ frame.serial
  nextSerial : base.nextSerial ≤ context.nextSerial

variable {top : List Frame}

theorem AgesTo.above (hages : base.AgesTo context) : base.Above context [] :=
  ⟨hages.identity, hages.root, hages.frames, nofun, hages.nextSerial⟩

/-- The frames that have come since are not those of any handle from before. -/
theorem Above.isLive (habove : base.Above context top) (hpast : base.Past handle) :
    context.isLive handle = base.isLive handle := by
  unfold Context.isLive serialAt?
  rw [habove.identity]
  by_cases hidentity : handle.context = base.identity
  · congr 1
    split
    · rfl
    · by_cases hindex : handle.index ≤ base.frames.length
      · rw [habove.frames, frameAt?_append top hindex]
      · rw [not_le] at hindex
        rw [frameAt?_eq_none hindex, habove.frames]
        cases hframe : frameAt? handle.index (top ++ base.frames) with
        | none => rfl
        | some frame =>
          have hserial := habove.serial frame (mem_of_frameAt?_append hframe hindex)
          have hlt := hpast hidentity
          have hne : frame.serial ≠ handle.serial := by omega
          simpa using hne
  · rw [beq_eq_false_iff_ne.2 hidentity, Bool.false_and, Bool.false_and]

/-- A live handle is that of a position on the stack. -/
theorem index_le_of_isLive (hlive : context.isLive handle) :
    handle.index ≤ context.frames.length := by
  have hlt := (List.getElem?_eq_some_iff.1 (isLive_iff.1 hlive).2).1
  rw [length_serials] at hlt
  exact Nat.le_of_lt_succ hlt

/-- A frame more has come since. -/
theorem Above.pushBound (habove : base.Above context top) (parent : Nat)
    (bindings : Table Value) : base.Above (context.pushBound parent bindings)
      (⟨context.nextSerial, parent, bindings⟩ :: top) where
  identity := habove.identity
  root := habove.root
  frames := congrArg _ habove.frames
  serial := List.forall_mem_cons.2 ⟨habove.nextSerial, habove.serial⟩
  nextSerial := habove.nextSerial.trans (Nat.le_succ _)

theorem Above.pop {frame : Frame} (habove : base.Above context (frame :: top)) :
    base.Above context.pop top where
  identity := habove.identity
  root := habove.root
  frames := congrArg List.tail habove.frames
  serial := (List.forall_mem_cons.1 habove.serial).2
  nextSerial := habove.nextSerial

/-! ## Contexts alike -/

/-- The frames of one call on either side. -/
structure SameCall (base : Context) (frame frame' : Frame) : Prop where
  parent : frame'.parent = frame.parent
  parent_le : frame.parent ≤ base.frames.length
  bindings : frame'.bindings = frame.bindings

/-- Two contexts that stand on the same frames, one of them with others in between, and have the
same calls open.  If there are others, the current frame is that of a call. -/
structure Alike (base : Context) (between : List Frame) (calls : List Frame × List Frame)
    (context context' : Context) : Prop where
  left : base.Above context calls.1
  right : base.Above context' (calls.2 ++ between)
  same : List.Forall₂ (SameCall base) calls.1 calls.2
  inner : calls.1 ≠ [] ∨ between = []
  within : context.Within base.Past

variable {between : List Frame} {calls : List Frame × List Frame}

/-- Names mean the same in both contexts: calls look past the frames in which they differ. -/
theorem Alike.get? (halike : Alike base between calls context context') (name : String) :
    context.get? name = context'.get? name := by
  obtain ⟨left, right⟩ := calls
  obtain ⟨hleft, hright, hsame, hinner, -⟩ := halike
  rw [get?_eq_valueFrom?, get?_eq_valueFrom?, hleft.root, hright.root, currentIndex, currentIndex,
    hleft.frames, hright.frames]
  cases hsame with
  | nil =>
    obtain rfl : between = [] := hinner.resolve_left fun hne => hne rfl
    rfl
  | cons hcall _ =>
    obtain ⟨hparent, hle, hbindings⟩ := hcall
    simp only [List.cons_append, List.length_cons, valueFrom?_cons_length, hparent, hbindings]
    rw [valueFrom?_append _ hle, valueFrom?_append _ hle]

/-- A call opens the same frame in both contexts, and they are alike again when it is closed. -/
theorem Alike.pushBound (halike : Alike base between calls context context') {parent : Nat}
    (hparent : parent ≤ base.frames.length) {bindings : Table Value}
    (hbindings : Table.Within base.Past bindings) :
    ∃ inner, Alike base between inner (context.pushBound parent bindings)
        (context'.pushBound parent bindings) ∧
      ∀ after after', Alike base between inner after after' →
        Alike base between calls after.pop after'.pop := by
  refine ⟨(⟨context.nextSerial, parent, bindings⟩ :: calls.1,
    ⟨context'.nextSerial, parent, bindings⟩ :: calls.2), ?_, fun after after' hafter => ?_⟩
  · exact ⟨halike.left.pushBound parent bindings, halike.right.pushBound parent bindings,
      .cons ⟨rfl, hparent, rfl⟩ halike.same, .inl (List.cons_ne_nil _ _),
      halike.within.pushBound parent hbindings⟩
  · exact ⟨hafter.left.pop, hafter.right.pop, halike.same, halike.inner, hafter.within.pop⟩

theorem alike_self (hages : base.AgesTo context) (hwithin : base.Within base.Past) :
    Alike base [] ([], []) base context :=
  ⟨(AgesTo.refl base).above, hages.above, .nil, .inr rfl, hwithin⟩

/-- One call made in a context and in the same with further frames on top. -/
theorem alike_of_call (habove : base.Above context between) {parent : Nat}
    (hparent : parent ≤ base.frames.length) (hwithin : base.Within base.Past)
    {bindings : Table Value} (hbindings : Table.Within base.Past bindings) :
    Alike base between ([⟨base.nextSerial, parent, bindings⟩],
        [⟨context.nextSerial, parent, bindings⟩]) (base.pushBound parent bindings)
      (context.pushBound parent bindings) where
  left := (AgesTo.refl base).above.pushBound parent bindings
  right := habove.pushBound parent bindings
  same := .cons ⟨rfl, hparent, rfl⟩ .nil
  inner := .inl (List.cons_ne_nil _ _)
  within := hwithin.pushBound parent hbindings

end Context

namespace Evaluation

open Context

variable {evaluator : Evaluator} {base : Context} {between : List Frame} {depth : Nat}

/-- Every part of an evaluation runs alike in contexts that are. -/
theorem lawful_alike (hkeeps : evaluator.Keeps base.Past) (calls : List Frame × List Frame) :
    (Coupling.mk (Alike base between calls) base.Past Eq).Lawful evaluator id where
  get? _ _ halike name := ⟨halike.get? name, fun _ hvalue => halike.within.get? hvalue⟩
  keeps := hkeeps
  refl _ := rfl
  moved _ _ := rfl
  text _ := rfl

/-- Calls nest in contexts that are alike. -/
theorem nests_alike : Nests (Alike base between) base.Past where
  isLive _ _ _ halike _ hpast := (halike.left.isLive hpast).trans (halike.right.isLive hpast).symm
  opened _ _ _ halike _ hpast hlive _ hbound :=
    halike.pushBound (index_le_of_isLive (halike.left.isLive hpast ▸ hlive)) hbound

end Evaluation

/-- No value that a context binds has a scope that is still to be given out. -/
theorem Workspace.Reachable.within_past {workspace : Workspace} {name : String} {context : Context}
    (hreachable : workspace.Reachable) (hcontext : workspace.context? name = some context) :
    context.Within context.Past :=
  (hreachable.within.contexts name context hcontext).imp
    fun _ hpast => hpast.serial name context hcontext

end Stencil
