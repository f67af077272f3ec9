import Mathlib
import Stencil.Scope.Context

/-!
# Serial numbers on a stack

A handle is live if its serial number stands at its position.  Seen from the root upwards, opening a
frame adds a new number at the end, closing one takes the last away, and binding names changes
nothing.
-/

namespace Stencil.Context

variable {context after : Context} {handle : ScopeHandle}

/-- The serial numbers of all frames, from the root upwards. -/
def serials (context : Context) : List Nat :=
  rootSerial :: (context.frames.map Frame.serial).reverse

theorem frameAt?_succ (index : Nat) (frames : List Frame) :
    frameAt? (index + 1) frames = frames.reverse[index]? := by
  induction frames with
  | nil => rfl
  | cons frame below ih =>
    rw [frameAt?, List.reverse_cons, ih]
    split
    · next hindex =>
      obtain rfl : index = below.length := Nat.succ.inj hindex
      simp
    · next hindex =>
      have hne : index ≠ below.length := fun heq => hindex (congrArg (· + 1) heq)
      rcases Nat.lt_or_gt_of_ne hne with hlt | hgt
      · rw [List.getElem?_append_left (by simpa using hlt)]
      · rw [List.getElem?_eq_none (by simpa using hgt.le),
          List.getElem?_eq_none (by simpa using hgt)]

/-- The serial numbers of the frames, from the root up, stand at their positions. -/
theorem serialAt?_eq_getElem? (index : Nat) :
    context.serialAt? index = context.serials[index]? := by
  cases index with
  | zero => rfl
  | succ index =>
    rw [serialAt?, if_neg (Nat.succ_ne_zero index), frameAt?_succ, serials, List.getElem?_cons_succ,
      ← List.map_reverse, List.getElem?_map]

/-- A handle is live if its serial number stands at its position in the context that gave it out. -/
theorem isLive_iff : context.isLive handle ↔
    handle.context = context.identity ∧ context.serials[handle.index]? = some handle.serial := by
  rw [isLive, Bool.and_eq_true, beq_iff_eq, beq_iff_eq, serialAt?_eq_getElem?]

theorem length_serials : context.serials.length = context.currentIndex + 1 := by
  simp [serials, currentIndex]

/-- A new frame adds a serial number that was not given out before. -/
theorem serials_push (parent : Nat) :
    (context.push parent).serials = context.serials ++ [context.nextSerial] := by
  simp [serials, push]

/-- Closing a frame takes the last serial number away, unless the root is the current frame. -/
theorem serials_pop (hroot : context.frames ≠ []) :
    context.pop.serials = context.serials.dropLast := by
  obtain ⟨frame, below, hframes⟩ := List.exists_cons_of_ne_nil hroot
  rw [serials, serials, pop, hframes, List.tail_cons, List.map_cons, List.reverse_cons,
    ← List.cons_append, List.dropLast_concat]

theorem getElem?_serials_currentIndex :
    context.serials[context.currentIndex]? = some context.currentSerial := by
  unfold serials currentIndex currentSerial
  cases context.frames with
  | nil => rfl
  | cons frame below => simp

/-- The handle of the current frame is live. -/
theorem isLive_current (context : Context) : context.isLive context.current :=
  isLive_iff.2 ⟨rfl, getElem?_serials_currentIndex⟩

/-! ## Moves -/

/-- What one action may do to the stack of a context: close a frame, if that is what it is for, and
otherwise open one or leave the stack alone. -/
inductive Moves (closing : Prop) (context : Context) : Context → Prop where
  | stays : ∀ {next : Context}, ¬closing → next.identity = context.identity →
      next.serials = context.serials → context.nextSerial ≤ next.nextSerial →
      Moves closing context next
  | opens (parent : Nat) : ¬closing → Moves closing context (context.push parent)
  | closes : closing → Moves closing context context.pop

variable {closing : Prop}

theorem Moves.identity (hmoves : Moves closing context after) :
    after.identity = context.identity := by
  cases hmoves with
  | stays _ hidentity => exact hidentity
  | opens | closes => rfl

/-- Serial numbers are never given out twice, as the next one does not become smaller. -/
theorem Moves.nextSerial_le (hmoves : Moves closing context after) :
    context.nextSerial ≤ after.nextSerial := by
  cases hmoves with
  | stays _ _ _ hle => exact hle
  | opens => exact Nat.le_succ _
  | closes => exact le_rfl

/-- The frame of a handle survives unless it is the one that is closed.  The root never is. -/
def Survives (context : Context) (closing : Prop) (handle : ScopeHandle) : Prop :=
  closing → context.frames = [] ∨ handle.index ≠ context.currentIndex

theorem pop_of_isAtRoot (hroot : context.frames = []) : context.pop = context := by
  rw [pop, hroot, List.tail_nil, ← hroot]

/-- A frame stays where it is until it is closed. -/
theorem Moves.isLive (hmoves : Moves closing context after) (hlive : context.isLive handle)
    (hsurvives : context.Survives closing handle) : after.isLive handle := by
  obtain ⟨hcontext, hserial⟩ := isLive_iff.1 hlive
  have hlt : handle.index < context.serials.length := (List.getElem?_eq_some_iff.1 hserial).1
  refine isLive_iff.2 ⟨hcontext.trans hmoves.identity.symm, ?_⟩
  cases hmoves with
  | stays _ _ hserials => rwa [hserials]
  | opens parent => rw [serials_push, List.getElem?_append_left hlt, hserial]
  | closes hclosing =>
    by_cases hroot : context.frames = []
    · rwa [pop_of_isAtRoot hroot]
    · have hne := (hsurvives hclosing).resolve_left hroot
      rw [length_serials] at hlt
      rw [serials_pop hroot, List.getElem?_dropLast, if_pos (by rw [length_serials]; omega),
        hserial]

/-- Only a frame that has just been opened is live without having been live before. -/
theorem Moves.isLive_or_eq_current (hmoves : Moves closing context after)
    (hlive : after.isLive handle) :
    context.isLive handle ∧ context.Survives closing handle ∨
      handle = after.current ∧ handle.serial = context.nextSerial := by
  obtain ⟨hcontext, hserial⟩ := isLive_iff.1 hlive
  rw [hmoves.identity] at hcontext
  cases hmoves with
  | stays hopen _ hserials =>
    exact .inl ⟨isLive_iff.2 ⟨hcontext, hserials ▸ hserial⟩, fun hclosing => absurd hclosing hopen⟩
  | opens parent hopen =>
    rw [serials_push, List.getElem?_append] at hserial
    split at hserial
    · exact .inl ⟨isLive_iff.2 ⟨hcontext, hserial⟩, fun hclosing => absurd hclosing hopen⟩
    · next hindex =>
      obtain ⟨hlast, hnext⟩ := List.getElem?_eq_some_iff.1 hserial
      rw [List.getElem_singleton] at hnext
      rw [List.length_singleton, length_serials] at hlast
      rw [length_serials] at hindex
      have hposition : handle.index = (context.push parent).currentIndex := by
        simp only [push, currentIndex, List.length_cons] at hindex hlast ⊢
        omega
      obtain ⟨identity, index, serial⟩ := handle
      obtain rfl : identity = context.identity := hcontext
      obtain rfl : index = (context.push parent).currentIndex := hposition
      obtain rfl : context.nextSerial = serial := hnext
      exact .inr ⟨rfl, rfl⟩
  | closes =>
    by_cases hroot : context.frames = []
    · rw [pop_of_isAtRoot hroot] at hlive
      exact .inl ⟨hlive, fun _ => .inl hroot⟩
    · rw [serials_pop hroot, List.getElem?_dropLast, length_serials] at hserial
      split at hserial
      · exact .inl ⟨isLive_iff.2 ⟨hcontext, hserial⟩, fun _ => .inr (by omega)⟩
      · cases hserial

/-- No frame has a serial number that is still to be given out. -/
theorem Moves.serial_lt (hmoves : Moves closing context after)
    (hserials : ∀ serial ∈ context.serials, serial < context.nextSerial) :
    ∀ serial ∈ after.serials, serial < after.nextSerial := by
  cases hmoves with
  | stays _ _ hsame hle => exact fun serial hmem => (hserials serial (hsame ▸ hmem)).trans_le hle
  | opens parent =>
    rw [serials_push]
    refine List.forall_mem_append.2 ⟨fun serial hmem => ?_, ?_⟩
    · exact (hserials serial hmem).trans (Nat.lt_succ_self _)
    · simp [push]
  | closes =>
    by_cases hroot : context.frames = []
    · rwa [pop_of_isAtRoot hroot]
    · rw [serials_pop hroot]
      exact fun serial hmem => hserials serial (List.dropLast_subset _ hmem)

/-! ## Binding names -/

theorem serials_rebindAt (index : Nat) (name : String) (value : Value) (frames : List Frame) :
    (rebindAt index name value frames).map Frame.serial = frames.map Frame.serial := by
  induction frames with
  | nil => rfl
  | cons frame below ih =>
    rw [rebindAt]
    split
    · rfl
    · rw [List.map_cons, List.map_cons, ih]

/-- Two contexts that differ in nothing but their bindings. -/
structure SameStack (context after : Context) : Prop where
  identity : after.identity = context.identity
  serials : after.serials = context.serials
  nextSerial : after.nextSerial = context.nextSerial

theorem SameStack.moves (hsame : SameStack context after) (hopen : ¬closing) :
    Moves closing context after :=
  .stays hopen hsame.identity hsame.serials hsame.nextSerial.ge

theorem SameStack.refl (context : Context) : SameStack context context :=
  ⟨rfl, rfl, rfl⟩

theorem SameStack.trans {last : Context} (hfirst : SameStack context after)
    (hsecond : SameStack after last) : SameStack context last where
  identity := hsecond.identity.trans hfirst.identity
  serials := hsecond.serials.trans hfirst.serials
  nextSerial := hsecond.nextSerial.trans hfirst.nextSerial

/-- Binding a name leaves the stack as it is. -/
theorem sameStack_bindAt (index : Nat) (name : String) (value : Value) :
    SameStack context (context.bindAt index name value) := by
  unfold bindAt
  split
  · exact ⟨rfl, rfl, rfl⟩
  · refine ⟨rfl, ?_, rfl⟩
    rw [serials, serials, serials_rebindAt]

theorem sameStack_set (name : String) (value : Value) :
    SameStack context (context.set name value) := by
  unfold set overwrite?
  cases context.holder? name <;> exact sameStack_bindAt _ name value

theorem sameStack_update (bindings : List (String × Value)) :
    SameStack context (context.update bindings) := by
  induction bindings generalizing context with
  | nil => exact .refl context
  | cons binding rest ih => exact (sameStack_bindAt _ binding.1 binding.2).trans ih

end Stencil.Context
