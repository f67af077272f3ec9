import Stencil.Proofs.Scope.Serials
import Stencil.Proofs.Scope.Frames

/-!
# Chains of scopes

From any frame the parents lead downwards to the root, and the frame that binds a name is the first
one on this way that does.  Binding a name changes one entry of one frame and no parent.
-/

namespace Stencil

namespace Context

variable {index position : Nat} {frames below : List Frame} {root : Table Value} {name : String}
  {context : Context}

/-! ## Parents -/

/-- The position of the parent of the frame at a position; the root has none. -/
def parentAt? (context : Context) (index : Nat) : Option Nat :=
  (frameAt? index context.frames).map Frame.parent

/-- Every frame has its parent among the frames below it or in the root. -/
def Nested : List Frame → Prop
  | [] => True
  | frame :: below => frame.parent ≤ below.length ∧ Nested below

/-- Every frame above the root has its parent below itself. -/
def Rooted (context : Context) : Prop :=
  Nested context.frames

theorem frameAt?_zero : frameAt? 0 frames = none := by
  induction frames with
  | nil => rfl
  | cons frame below ih => rw [frameAt?, if_neg (Nat.succ_ne_zero _).symm, ih]

theorem exists_frameAt? (hpos : 0 < index) (hindex : index ≤ frames.length) :
    ∃ frame, frameAt? index frames = some frame := by
  obtain ⟨place, rfl⟩ := Nat.exists_eq_succ_of_ne_zero hpos.ne'
  rw [Nat.succ_eq_add_one, frameAt?_succ]
  exact ⟨_, List.getElem?_eq_getElem (by simpa using hindex)⟩

/-- What lies above and below the frame at a position. -/
theorem exists_append_of_frameAt? {frame : Frame} (hframe : frameAt? index frames = some frame) :
    ∃ above below, frames = above ++ frame :: below ∧ index = below.length + 1 := by
  induction frames with
  | nil => cases hframe
  | cons first below ih =>
    rw [frameAt?] at hframe
    split at hframe
    · next hindex =>
      cases hframe
      exact ⟨[], below, rfl, hindex⟩
    · obtain ⟨above, under, rfl, hindex⟩ := ih hframe
      exact ⟨first :: above, under, rfl, hindex⟩

theorem Nested.of_append {above : List Frame} (hnested : Nested (above ++ below)) :
    Nested below := by
  induction above with
  | nil => exact hnested
  | cons frame above ih => exact ih hnested.2

theorem Nested.parent_lt (hnested : Nested frames) {frame : Frame}
    (hframe : frameAt? index frames = some frame) : frame.parent < index := by
  obtain ⟨above, under, rfl, rfl⟩ := exists_append_of_frameAt? hframe
  exact Nat.lt_succ_of_le hnested.of_append.1

/-- Only the root is without a parent, and every other parent lies below its child. -/
theorem Rooted.parentAt? (hrooted : context.Rooted) (hindex : index ≤ context.currentIndex) :
    (context.parentAt? index = none ↔ index = 0) ∧
      ∀ parent ∈ context.parentAt? index, parent < index := by
  refine ⟨⟨fun hnone => ?_, ?_⟩, fun parent hparent => ?_⟩
  · by_contra hne
    obtain ⟨frame, hframe⟩ := exists_frameAt? (Nat.pos_of_ne_zero hne) hindex
    rw [Context.parentAt?, hframe] at hnone
    cases hnone
  · rintro rfl
    rw [Context.parentAt?, frameAt?_zero, Option.map_none]
  · obtain ⟨frame, hframe, rfl⟩ := Option.map_eq_some_iff.1 hparent
    exact Nested.parent_lt hrooted hframe

/-! ## Chains -/

/-- The positions from one on along the parents, down to the root. -/
def chainFrom (index : Nat) : List Frame → List Nat
  | [] => [0]
  | frame :: below =>
    if index = below.length + 1 then index :: chainFrom frame.parent below
    else chainFrom index below

/-- The positions in which a name is looked up one after the other. -/
def chain (context : Context) : List Nat :=
  chainFrom context.currentIndex context.frames

theorem chainFrom_append (above : List Frame) (hindex : index ≤ below.length) :
    chainFrom index (above ++ below) = chainFrom index below := by
  induction above with
  | nil => rfl
  | cons frame above ih =>
    rw [List.cons_append, chainFrom, if_neg (ne_position_above above hindex), ih]

theorem chainFrom_zero : chainFrom 0 frames = [0] := by
  have happend := chainFrom_append frames (Nat.zero_le ([] : List Frame).length)
  rwa [List.append_nil] at happend

/-- Behind a frame the chain goes on with its parent. -/
theorem chainFrom_of_frameAt? (hnested : Nested frames) {frame : Frame}
    (hframe : frameAt? index frames = some frame) :
    chainFrom index frames = index :: chainFrom frame.parent frames := by
  obtain ⟨above, under, rfl, rfl⟩ := exists_append_of_frameAt? hframe
  have hparent : frame.parent ≤ under.length := hnested.of_append.1
  have hskip := chainFrom_append (above ++ [frame]) hparent
  rw [List.append_assoc, List.singleton_append] at hskip
  rw [chainFrom_append above (by simp), chainFrom, if_pos rfl, hskip]

/-- A chain starts where it should, goes from child to parent, and ends at the root. -/
structure IsChain (context : Context) (index : Nat) (positions : List Nat) : Prop where
  head : positions.head? = some index
  last : positions.getLast? = some 0
  parents : positions.IsChain fun position parent => context.parentAt? position = some parent
  descending : positions.Pairwise fun position parent => parent < position
  le : ∀ position ∈ positions, position ≤ index

theorem isChain_chainFrom (hrooted : context.Rooted) (hindex : index ≤ context.currentIndex) :
    context.IsChain index (chainFrom index context.frames) := by
  induction index using Nat.strong_induction_on with
  | h index ih =>
  rcases Nat.eq_zero_or_pos index with rfl | hpos
  · rw [chainFrom_zero]
    exact ⟨rfl, rfl, .singleton 0, List.pairwise_singleton _ 0, by simp⟩
  · obtain ⟨frame, hframe⟩ := exists_frameAt? hpos hindex
    have hlt := Nested.parent_lt hrooted hframe
    obtain ⟨hhead, hlast, hparents, hdescending, hle⟩ := ih frame.parent hlt (hlt.le.trans hindex)
    have hparent : context.parentAt? index = some frame.parent := by
      rw [Context.parentAt?, hframe, Option.map_some]
    rw [chainFrom_of_frameAt? hrooted hframe]
    obtain ⟨rest, hrest⟩ := List.head?_eq_some_iff.1 hhead
    rw [hrest] at hlast hparents hdescending hle ⊢
    have hbelow (position : Nat) (hmem : position ∈ frame.parent :: rest) : position < index :=
      (hle position hmem).trans_lt hlt
    exact ⟨rfl, hlast, .cons_cons hparent hparents, .cons hbelow hdescending,
      List.forall_mem_cons.2 ⟨le_rfl, fun position hmem => (hbelow position hmem).le⟩⟩

/-! ## The nearest binding -/

theorem holderFrom?_append (above : List Frame) (hindex : index ≤ below.length) :
    holderFrom? root name index (above ++ below) = holderFrom? root name index below := by
  induction above with
  | nil => rfl
  | cons frame above ih =>
    rw [List.cons_append, holderFrom?, if_neg (ne_position_above above hindex), ih]

/-- Whether the frame at a position binds a name. -/
def binds (context : Context) (name : String) (index : Nat) : Bool :=
  Table.contains name (context.bindingsAt index)

/-- Looking a name up from a position finds the first frame on the chain that binds it. -/
theorem holderFrom?_eq_find? (hrooted : context.Rooted) (hindex : index ≤ context.currentIndex) :
    holderFrom? context.root name index context.frames =
      (chainFrom index context.frames).find? (context.binds name) := by
  -- The chain goes on at the parent, whose position is smaller but may be any.
  induction index using Nat.strong_induction_on with
  | h index ih =>
  rcases Nat.eq_zero_or_pos index with rfl | hpos
  · have hroot : holderFrom? context.root name 0 (context.frames ++ []) =
        holderFrom? context.root name 0 [] :=
      holderFrom?_append context.frames (Nat.zero_le _)
    rw [List.append_nil] at hroot
    rw [chainFrom_zero, hroot, holderFrom?, List.find?_singleton, binds, bindingsAt, frameAt?_zero]
  · obtain ⟨frame, hframe⟩ := exists_frameAt? hpos hindex
    have hlt := Nested.parent_lt hrooted hframe
    have hrest := ih frame.parent hlt (hlt.le.trans hindex)
    rw [chainFrom_of_frameAt? hrooted hframe, List.find?_cons, ← hrest]
    have hbinds : context.binds name index = Table.contains name frame.bindings := by
      rw [binds, bindingsAt, hframe]
    obtain ⟨above, under, hframes, rfl⟩ := exists_append_of_frameAt? hframe
    have hnested : Nested (above ++ frame :: under) := hframes ▸ hrooted
    have hskip : holderFrom? context.root name frame.parent ((above ++ [frame]) ++ under) =
        holderFrom? context.root name frame.parent under :=
      holderFrom?_append _ hnested.of_append.1
    rw [List.append_assoc, List.singleton_append] at hskip
    rw [hbinds, hframes, holderFrom?_append above (by simp), hskip, holderFrom?, if_pos rfl]
    cases Table.contains name frame.bindings <;> rfl

theorem holder?_eq_find? (hrooted : context.Rooted) (name : String) :
    context.holder? name = context.chain.find? (context.binds name) :=
  holderFrom?_eq_find? hrooted le_rfl

theorem head?_chain (hrooted : context.Rooted) :
    context.chain.head? = some context.currentIndex :=
  (isChain_chainFrom hrooted le_rfl).head

theorem le_of_holder? (hholder : context.holder? name = some position) :
    position ≤ context.currentIndex :=
  le_of_holderFrom? hholder

/-! ## One binding -/

variable {value : Value}

theorem length_rebindAt : (rebindAt position name value frames).length = frames.length := by
  simpa using congrArg List.length (serials_rebindAt position name value frames)

theorem frameAt?_rebindAt : frameAt? index (rebindAt position name value frames) =
    (frameAt? index frames).map fun frame =>
      if index = position then { frame with bindings := Table.insert name value frame.bindings }
      else frame := by
  induction frames with
  | nil => rfl
  | cons frame below ih =>
    rw [rebindAt]
    by_cases hposition : position = below.length + 1
    · rw [if_pos hposition, frameAt?, frameAt?]
      by_cases hindex : index = below.length + 1
      · rw [if_pos hindex, if_pos hindex, Option.map_some, if_pos (hindex.trans hposition.symm)]
      · have hne : index ≠ position := fun heq => hindex (heq.trans hposition)
        simp [hindex, hne]
    · rw [if_neg hposition, frameAt?, length_rebindAt, frameAt?, ih]
      by_cases hindex : index = below.length + 1
      · have hne : index ≠ position := fun heq => hposition (heq ▸ hindex)
        simp [hindex, hindex ▸ hne]
      · simp [hindex]

theorem parentAt?_bindAt :
    (context.bindAt position name value).parentAt? index = context.parentAt? index := by
  unfold bindAt
  split
  · rfl
  · rw [parentAt?, parentAt?, frameAt?_rebindAt, Option.map_map]
    refine Option.map_congr fun frame _ => ?_
    simp only [Function.comp_apply]
    split <;> rfl

/-- Binding a name changes one entry of one frame. -/
theorem get?_bindingsAt_bindAt (hposition : position ≤ context.currentIndex)
    (hindex : index ≤ context.currentIndex) (other : String) :
    Table.get? other ((context.bindAt position name value).bindingsAt index) =
      if index = position ∧ other = name then some value
      else Table.get? other (context.bindingsAt index) := by
  unfold bindAt
  split
  · next hroot =>
    subst hroot
    rcases Nat.eq_zero_or_pos index with rfl | hpos
    · simp [bindingsAt, frameAt?_zero, Table.get?_insert]
    · obtain ⟨frame, hframe⟩ := exists_frameAt? hpos hindex
      simp [bindingsAt, hframe, hpos.ne']
  · next hroot =>
    rw [bindingsAt, bindingsAt, frameAt?_rebindAt]
    rcases Nat.eq_zero_or_pos index with rfl | hpos
    · simp [frameAt?_zero, Ne.symm hroot]
    · obtain ⟨frame, hframe⟩ := exists_frameAt? hpos hindex
      rw [hframe, Option.map_some]
      by_cases hsame : index = position
      · simp [hsame, Table.get?_insert]
      · simp [hsame]

theorem nested_rebindAt :
    Nested (rebindAt position name value frames) ↔ Nested frames := by
  induction frames with
  | nil => rfl
  | cons frame below ih =>
    rw [rebindAt]
    split
    · rfl
    · exact and_congr (by rw [length_rebindAt]) ih

theorem Rooted.bindAt (hrooted : context.Rooted) (position : Nat) (name : String) (value : Value) :
    (context.bindAt position name value).Rooted := by
  unfold Context.bindAt
  split
  · exact hrooted
  · exact nested_rebindAt.2 hrooted

theorem Rooted.push (hrooted : context.Rooted) {parent : Nat}
    (hparent : parent ≤ context.currentIndex) : (context.push parent).Rooted :=
  ⟨hparent, hrooted⟩

theorem Rooted.pop (hrooted : context.Rooted) : context.pop.Rooted := by
  obtain ⟨identity, root, frames, nextSerial⟩ := context
  cases frames with
  | nil => exact hrooted
  | cons frame below => exact hrooted.2

end Context

end Stencil
