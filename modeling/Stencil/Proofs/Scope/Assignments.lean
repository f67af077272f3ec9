import Stencil.Proofs.Scope.Chains
import Stencil.Proofs.Table

/-!
# Assignments

An assignment reaches the nearest frame that binds its name.  Under a child frame the ancestors keep
the names that they bind, so what is left when the child is closed are the values that were given to
names of the ancestors before the child bound these names itself.
-/

namespace Stencil

namespace Context

variable {index position parent : Nat} {frames : List Frame} {name other : String} {value : Value}
  {context after last : Context}

/-! ## The nearest binding -/

/-- The same frames with the same parents, whatever is bound in them. -/
structure SameFrames (context after : Context) : Prop where
  identity : after.identity = context.identity
  serials : after.serials = context.serials
  parents : ∀ index, after.parentAt? index = context.parentAt? index

theorem SameFrames.refl (context : Context) : context.SameFrames context :=
  ⟨rfl, rfl, fun _ => rfl⟩

theorem SameFrames.trans (hfirst : context.SameFrames after) (hsecond : after.SameFrames last) :
    context.SameFrames last where
  identity := hsecond.identity.trans hfirst.identity
  serials := hsecond.serials.trans hfirst.serials
  parents index := (hsecond.parents index).trans (hfirst.parents index)

theorem SameFrames.currentIndex (hsame : context.SameFrames after) :
    after.currentIndex = context.currentIndex := by
  have hlength := congrArg List.length hsame.serials
  rw [length_serials, length_serials] at hlength
  exact Nat.succ.inj hlength

theorem sameFrames_bindAt (context : Context) (position : Nat) (name : String) (value : Value) :
    context.SameFrames (context.bindAt position name value) where
  identity := (sameStack_bindAt position name value).identity
  serials := (sameStack_bindAt position name value).serials
  parents _ := parentAt?_bindAt

theorem nextSerial_bindAt :
    (context.bindAt position name value).nextSerial = context.nextSerial :=
  (sameStack_bindAt position name value).nextSerial

theorem chainFrom_rebindAt :
    chainFrom index (rebindAt position name value frames) = chainFrom index frames := by
  induction frames generalizing index with
  | nil => rfl
  | cons frame below ih =>
    rw [rebindAt]
    split
    · rfl
    · rw [chainFrom, chainFrom, length_rebindAt, ih, ih]

theorem chainFrom_bindAt :
    chainFrom index (context.bindAt position name value).frames =
      chainFrom index context.frames := by
  unfold bindAt
  split
  · rfl
  · exact chainFrom_rebindAt

theorem binds_bindAt (hposition : position ≤ context.currentIndex)
    (hindex : index ≤ context.currentIndex) :
    (context.bindAt position name value).binds other index =
      (decide (index = position ∧ other = name) || context.binds other index) := by
  rw [binds, binds, Table.contains, Table.contains, get?_bindingsAt_bindAt hposition hindex]
  split
  · next hhere => simp [hhere]
  · next helsewhere => simp [helsewhere]

/-- The position at which a name is found from another position. -/
def nearest? (context : Context) (index : Nat) (name : String) : Option Nat :=
  (chainFrom index context.frames).find? (context.binds name)

theorem nearest?_eq_some_imp (hrooted : context.Rooted) (hindex : index ≤ context.currentIndex)
    (hnearest : context.nearest? index name = some position) :
    position ≤ index ∧ context.binds name position :=
  ⟨(isChain_chainFrom hrooted hindex).le position (List.mem_of_find?_eq_some hnearest),
    List.find?_some hnearest⟩

/-- Only the name that is bound may be found elsewhere than before. -/
theorem nearest?_bindAt_of_unchanged (hrooted : context.Rooted)
    (hposition : position ≤ context.currentIndex) (hindex : index ≤ context.currentIndex)
    (hunchanged : other = name → context.binds name position) :
    (context.bindAt position name value).nearest? index other =
      context.nearest? index other := by
  unfold nearest?
  rw [chainFrom_bindAt]
  refine List.find?_congr fun place hplace => ?_
  have hle := (isChain_chainFrom hrooted hindex).le place hplace
  rw [binds_bindAt hposition (hle.trans hindex), Bool.or_eq_right_iff_imp, decide_eq_true_eq]
  rintro ⟨rfl, rfl⟩
  exact hunchanged rfl

/-- The frame in which an assignment binds its name. -/
def target (context : Context) (name : String) : Nat :=
  (context.nearest? context.currentIndex name).getD context.currentIndex

theorem holder?_eq_nearest? (hrooted : context.Rooted) (name : String) :
    context.holder? name = context.nearest? context.currentIndex name :=
  holder?_eq_find? hrooted name

theorem target_le (hrooted : context.Rooted) (name : String) :
    context.target name ≤ context.currentIndex := by
  unfold target
  cases hnearest : context.nearest? context.currentIndex name with
  | none => exact le_rfl
  | some position => exact (nearest?_eq_some_imp hrooted le_rfl hnearest).1

theorem set_eq_bindAt (hrooted : context.Rooted) (name : String) (value : Value) :
    context.set name value = context.bindAt (context.target name) name value := by
  unfold set overwrite? target
  rw [holder?_eq_nearest? hrooted]
  cases context.nearest? context.currentIndex name <;> rfl

theorem overwrite?_eq_set (name : String) (value : Value) :
    context.overwrite? name value =
      if context.has name then some (context.set name value) else none := by
  unfold overwrite? has set overwrite?
  cases context.holder? name <;> rfl

/-- After an assignment its name is found where it was bound, and all others where they were. -/
theorem holder?_set (hrooted : context.Rooted) (name other : String) (value : Value) :
    (context.set name value).holder? other =
      if other = name then some (context.target name) else context.holder? other := by
  have hset := set_eq_bindAt hrooted name value
  have hrooted' := hrooted.bindAt (context.target name) name value
  have hcurrent :=
    (context.sameFrames_bindAt (context.target name) name value).currentIndex
  have htarget := target_le hrooted name
  rw [hset, holder?_eq_nearest? hrooted', holder?_eq_nearest? hrooted, hcurrent]
  split
  · next hname =>
    subst hname
    cases hnearest : context.nearest? context.currentIndex other with
    | some position =>
      have hbinds := (nearest?_eq_some_imp hrooted le_rfl hnearest).2
      have hposition : context.target other = position := by rw [target, hnearest, Option.getD_some]
      rw [nearest?_bindAt_of_unchanged hrooted htarget le_rfl fun _ => hposition ▸ hbinds,
        hnearest, hposition]
    | none =>
      have hposition : context.target other = context.currentIndex := by
        rw [target, hnearest, Option.getD_none]
      obtain ⟨rest, hrest⟩ := List.head?_eq_some_iff.1 (head?_chain hrooted)
      rw [hposition, nearest?, chainFrom_bindAt, ← chain, hrest, List.find?_cons_of_pos]
      rw [binds_bindAt le_rfl le_rfl]
      simp
  · next hname =>
    exact nearest?_bindAt_of_unchanged hrooted htarget le_rfl fun heq => absurd heq hname

theorem get?_set (hrooted : context.Rooted) (name other : String) (value : Value) :
    (context.set name value).get? other =
      if other = name then some value else context.get? other := by
  have htarget := target_le hrooted name
  unfold get?
  rw [holder?_set hrooted]
  by_cases hname : other = name
  · rw [if_pos hname, if_pos hname, Option.bind_some, set_eq_bindAt hrooted,
      get?_bindingsAt_bindAt htarget htarget, if_pos ⟨rfl, hname⟩]
  · rw [if_neg hname, if_neg hname]
    refine Option.bind_congr fun position hposition => ?_
    rw [set_eq_bindAt hrooted, get?_bindingsAt_bindAt htarget (le_of_holder? hposition),
      if_neg fun hboth => hname hboth.2]

/-! ## Assignments under a child frame -/

/-- One way to bind names. -/
inductive Assignment where
  | set (name : String) (value : Value)
  | overwrite (name : String) (value : Value)
  | define (name : String) (value : Value)
  | update (bindings : List (String × Value))
  | merge (other : Context)

namespace Assignment

def perform (context : Context) : Assignment → Context
  | set name value => context.set name value
  | overwrite name value => (context.overwrite? name value).getD context
  | define name value => context.define name value
  | update bindings => context.update bindings
  | merge other => context.merge other

/-- What is bound in the current frame itself, wherever else a name may be visible. -/
def ownBindings : Assignment → List (String × Value)
  | set _ _ | overwrite _ _ => []
  | define name value => [(name, value)]
  | update bindings => bindings
  | merge other => other.locals

/-- Whether the name is bound in the current frame itself. -/
def shadows (name : String) (assignment : Assignment) : Bool :=
  decide (name ∈ Table.names assignment.ownBindings)

/-- The value that is given to the visible binding of a name. -/
def given? (name : String) : Assignment → Option Value
  | set key value | overwrite key value => if key = name then some value else none
  | _ => none

/-- The last value that is given to a name before it is bound in the current frame itself. -/
def lastGiven? (name : String) : List Assignment → Option Value
  | [] => none
  | assignment :: rest =>
    if assignment.shadows name then none
    else (lastGiven? name rest).or (assignment.given? name)

end Assignment

/-- Performs assignments one after the other. -/
def assignAll (context : Context) (assignments : List Assignment) : Context :=
  assignments.foldl Assignment.perform context

/-- The last value that is given to a name when it is found in a frame below the current one. -/
def lastBelow? (context : Context) (index : Nat) (name : String) : List Assignment → Option Value
  | [] => none
  | assignment :: rest =>
    (lastBelow? (assignment.perform context) index name rest).or
      (if context.holder? name = some index ∧ index < context.currentIndex then
        assignment.given? name
      else none)

/-! ### A frame on top -/

variable {own : Table Value}

theorem holder?_pushBound (hname : Table.contains name own = false) (hrooted : context.Rooted)
    (hparent : parent ≤ context.currentIndex) :
    (context.pushBound parent own).holder? name = context.nearest? parent name := by
  have hskip : holderFrom? context.root name (context.frames.length + 1)
      (⟨context.nextSerial, parent, own⟩ :: context.frames) =
        holderFrom? context.root name parent context.frames := by
    rw [holderFrom?, if_pos rfl, hname]
    rfl
  exact hskip.trans (holderFrom?_eq_find? hrooted hparent)

theorem holder?_pushBound_own (hname : Table.contains name own) :
    (context.pushBound parent own).holder? name = some (context.currentIndex + 1) := by
  have htop : holderFrom? context.root name (context.frames.length + 1)
      (⟨context.nextSerial, parent, own⟩ :: context.frames) =
        some (context.frames.length + 1) := by
    rw [holderFrom?, if_pos rfl, if_pos hname]
  exact htop

theorem bindAt_pushBound_own :
    (context.pushBound parent own).bindAt (context.currentIndex + 1) name value =
      context.pushBound parent (Table.insert name value own) := by
  simp [bindAt, pushBound, currentIndex, rebindAt]

theorem bindAt_pushBound (hposition : position ≤ context.currentIndex) :
    (context.pushBound parent own).bindAt position name value =
      (context.bindAt position name value).pushBound parent own := by
  have hne : position ≠ context.frames.length + 1 := by
    unfold currentIndex at hposition
    omega
  by_cases hroot : position = 0
  · simp [bindAt, pushBound, hroot]
  · simp [bindAt, pushBound, hroot, rebindAt, hne]

/-- What an assignment to a visible name does: it changes the frame on top if that one binds the
name, and otherwise the nearest one below that does. -/
theorem overwrite?_pushBound (hrooted : context.Rooted) (hparent : parent ≤ context.currentIndex)
    (name : String) (value : Value) :
    (context.pushBound parent own).overwrite? name value =
      if Table.contains name own then
        some (context.pushBound parent (Table.insert name value own))
      else
        (context.nearest? parent name).map fun position =>
          (context.bindAt position name value).pushBound parent own := by
  unfold overwrite?
  split
  · next hname => rw [holder?_pushBound_own hname, Option.map_some, bindAt_pushBound_own]
  · next hname =>
    rw [holder?_pushBound (Bool.eq_false_iff.2 hname) hrooted hparent]
    refine Option.map_congr fun position hposition => ?_
    exact bindAt_pushBound ((nearest?_eq_some_imp hrooted hparent hposition).1.trans hparent)

/-! ### What the frames below keep -/

/-- What some assignments under a child frame make of the frames below and of the bindings of the
child itself. -/
structure Leaves (context : Context) (parent : Nat) (own : Table Value)
    (assignments : List Assignment) (after : Context) (own' : Table Value) : Prop where
  frames : context.SameFrames after
  nextSerial : after.nextSerial = context.nextSerial
  rooted : after.Rooted
  nearest? : ∀ name, after.nearest? parent name = context.nearest? parent name
  /-- A name of an ancestor is bound in the child if and only if an assignment does so. -/
  contains : ∀ name, (context.nearest? parent name).isSome →
    Table.contains name own' =
      (Table.contains name own || assignments.any (Assignment.shadows name))
  bindings : ∀ index ≤ context.currentIndex, ∀ name,
    Table.get? name (after.bindingsAt index) =
      if context.nearest? parent name = some index ∧ Table.contains name own = false then
        (Assignment.lastGiven? name assignments).or (Table.get? name (context.bindingsAt index))
      else
        Table.get? name (context.bindingsAt index)

namespace Leaves

variable {own' own'' : Table Value} {assignment : Assignment} {rest : List Assignment}

/-- An assignment that gives no value to a name of an ancestor leaves the ancestors alone. -/
theorem of_own (hrooted : context.Rooted)
    (hcontains : ∀ name, (context.nearest? parent name).isSome →
      Table.contains name own' = (Table.contains name own || assignment.shadows name))
    (hgiven : ∀ name, (context.nearest? parent name).isSome → Table.contains name own = false →
      Assignment.lastGiven? name [assignment] = none) :
    context.Leaves parent own [assignment] context own' where
  frames := .refl context
  nextSerial := rfl
  rooted := hrooted
  nearest? _ := rfl
  contains name hname := by simpa using hcontains name hname
  bindings index _ name := by
    split
    · next hboth =>
      rw [hgiven name (by simp [hboth.1]) hboth.2, Option.none_or]
    · rfl

section

variable (hname : Table.contains name own ∨ context.nearest? parent name = none)
  (hshadows : ∀ other, assignment.shadows other = false)
  (hgiven : ∀ other, assignment.given? other = if name = other then some value else none)
include hname hshadows hgiven

/-- A name that the child binds, or that is not visible at all, is no name of an ancestor. -/
theorem lastGiven?_eq_none (hother : (context.nearest? parent other).isSome)
    (hown : Table.contains other own = false) :
    Assignment.lastGiven? other [assignment] = none := by
  have hne : name ≠ other := by
    rintro rfl
    rcases hname with hname | hname
    · simp [hname] at hown
    · simp [hname] at hother
  simp [Assignment.lastGiven?, hshadows, hgiven, hne]

/-- Such a name is given a value in the child. -/
theorem of_insert (hrooted : context.Rooted) :
    context.Leaves parent own [assignment] context (Table.insert name value own) := by
  refine of_own hrooted (fun other hother => ?_)
    fun other => lastGiven?_eq_none hname hshadows hgiven
  rw [Table.contains_insert, hshadows, Bool.or_false]
  by_cases hsame : other = name
  · subst hsame
    rcases hname with hname | hname
    · simp [hname]
    · simp [hname] at hother
  · simp [hsame]

end

/-- A name that an ancestor binds and the child does not is given a value in the ancestor. -/
theorem of_ancestor (hrooted : context.Rooted) (hparent : parent ≤ context.currentIndex)
    (hname : Table.contains name own = false)
    (hnearest : context.nearest? parent name = some position)
    (hshadows : ∀ other, assignment.shadows other = false)
    (hgiven : ∀ other, assignment.given? other = if name = other then some value else none) :
    context.Leaves parent own [assignment] (context.bindAt position name value) own where
  frames := context.sameFrames_bindAt position name value
  nextSerial := nextSerial_bindAt
  rooted := hrooted.bindAt position name value
  nearest? other := by
    obtain ⟨hle, hbinds⟩ := nearest?_eq_some_imp hrooted hparent hnearest
    exact nearest?_bindAt_of_unchanged hrooted (hle.trans hparent) hparent fun _ => hbinds
  contains other _ := by simp [hshadows]
  bindings index hindex other := by
    have hle := (nearest?_eq_some_imp hrooted hparent hnearest).1
    have hlast : Assignment.lastGiven? other [assignment] =
        if name = other then some value else none := by
      simp [Assignment.lastGiven?, hshadows, hgiven]
    rw [get?_bindingsAt_bindAt (hle.trans hparent) hindex, hlast]
    by_cases hsame : name = other
    · subst hsame
      simp [hnearest, hname, eq_comm]
    · simp [hsame, Ne.symm hsame]

theorem trans (hfirst : context.Leaves parent own [assignment] after own')
    (hrest : after.Leaves parent own' rest last own'') :
    context.Leaves parent own (assignment :: rest) last own'' where
  frames := hfirst.frames.trans hrest.frames
  nextSerial := hrest.nextSerial.trans hfirst.nextSerial
  rooted := hrest.rooted
  nearest? name := (hrest.nearest? name).trans (hfirst.nearest? name)
  contains name hname := by
    have hname' : (after.nearest? parent name).isSome := by rwa [hfirst.nearest?]
    rw [hrest.contains name hname', hfirst.contains name hname]
    simp [Bool.or_assoc]
  bindings index hindex name := by
    have hindex' : index ≤ after.currentIndex := hfirst.frames.currentIndex ▸ hindex
    rw [hrest.bindings index hindex' name, hfirst.bindings index hindex name, hfirst.nearest?]
    by_cases hnearest : context.nearest? parent name = some index
    · have hcontains := hfirst.contains name (by simp [hnearest])
      cases hown : Table.contains name own <;> cases hshadows : assignment.shadows name <;>
        simp [hnearest, hcontains, hown, hshadows, Assignment.lastGiven?, Option.or_assoc]
    · simp [hnearest]

end Leaves

/-- A visible name is given a value in the child or in an ancestor.  For any other one the child is
left with the bindings which an assignment falls back to. -/
theorem exists_leaves_overwrite (hrooted : context.Rooted)
    (hparent : parent ≤ context.currentIndex) {own fallback : Table Value}
    {assignment : Assignment} (hshadows : ∀ other, assignment.shadows other = false)
    (hgiven : ∀ other, assignment.given? other = if name = other then some value else none)
    (hfallback : context.nearest? parent name = none →
      context.Leaves parent own [assignment] context fallback) :
    ∃ after own', ((context.pushBound parent own).overwrite? name value).getD
        (context.pushBound parent fallback) = after.pushBound parent own' ∧
      context.Leaves parent own [assignment] after own' := by
  rw [overwrite?_pushBound hrooted hparent]
  by_cases hown : Table.contains name own
  · rw [if_pos hown]
    exact ⟨context, _, rfl, .of_insert (.inl hown) hshadows hgiven hrooted⟩
  · rw [if_neg hown]
    cases hnearest : context.nearest? parent name with
    | some position =>
      exact ⟨_, own, rfl,
        .of_ancestor hrooted hparent (Bool.eq_false_iff.2 hown) hnearest hshadows hgiven⟩
    | none => exact ⟨context, fallback, rfl, hfallback hnearest⟩

open Assignment in
theorem exists_leaves_perform (hrooted : context.Rooted) (hparent : parent ≤ context.currentIndex)
    (own : Table Value) (assignment : Assignment) :
    ∃ after own', assignment.perform (context.pushBound parent own) =
        after.pushBound parent own' ∧ context.Leaves parent own [assignment] after own' := by
  -- All assignments but two bind names of the child and never reach below it.
  have hnever (bindings : List (String × Value)) (hbindings : assignment.ownBindings = bindings)
      (hgiven : ∀ name, assignment.given? name = none) :
      context.Leaves parent own [assignment] context (Table.insertAll own bindings) :=
    .of_own hrooted (fun name _ => by rw [Table.contains_insertAll, Assignment.shadows, hbindings])
      fun name _ _ => by simp [Assignment.lastGiven?, hgiven]
  cases assignment with
  | define name value =>
    exact ⟨context, _, update_pushBound parent own [(name, value)], hnever _ rfl fun _ => rfl⟩
  | update bindings =>
    exact ⟨context, _, update_pushBound parent own bindings, hnever _ rfl fun _ => rfl⟩
  | merge other =>
    exact ⟨context, _, update_pushBound parent own other.locals, hnever _ rfl fun _ => rfl⟩
  | set name value =>
    have hset : (Assignment.set name value).perform (context.pushBound parent own) =
        ((context.pushBound parent own).overwrite? name value).getD
          (context.pushBound parent (Table.insert name value own)) := by
      rw [← bindAt_pushBound_own]
      rfl
    rw [hset]
    exact exists_leaves_overwrite hrooted hparent (fun _ => rfl) (fun _ => rfl) fun hnearest =>
      .of_insert (.inr hnearest) (fun _ => rfl) (fun _ => rfl) hrooted
  | overwrite name value =>
    exact exists_leaves_overwrite hrooted hparent (fun _ => rfl) (fun _ => rfl) fun hnearest =>
      .of_own hrooted (fun _ _ => (Bool.or_false _).symm) fun other =>
        Leaves.lastGiven?_eq_none (.inr hnearest) (fun _ => rfl) fun _ => rfl

theorem exists_leaves_assignAll (hrooted : context.Rooted)
    (hparent : parent ≤ context.currentIndex) (own : Table Value)
    (assignments : List Assignment) :
    ∃ after own', (context.pushBound parent own).assignAll assignments =
        after.pushBound parent own' ∧ context.Leaves parent own assignments after own' := by
  induction assignments generalizing context own with
  | nil =>
    exact ⟨context, own, rfl, .refl context, rfl, hrooted, fun _ => rfl, by simp,
      by simp [Assignment.lastGiven?]⟩
  | cons assignment rest ih =>
    obtain ⟨between, ownBetween, hperform, hfirst⟩ :=
      exists_leaves_perform hrooted hparent own assignment
    have hparent' : parent ≤ between.currentIndex := hfirst.frames.currentIndex ▸ hparent
    obtain ⟨after, own', hassign, hrest⟩ := ih hfirst.rooted hparent' ownBetween
    refine ⟨after, own', ?_, hfirst.trans hrest⟩
    rw [← hassign, ← hperform]
    rfl

/-- The child gives values to the frames below it as long as it does not bind the name itself. -/
theorem lastBelow?_pushBound (hrooted : context.Rooted) (hparent : parent ≤ context.currentIndex)
    (hindex : index ≤ context.currentIndex) (own : Table Value) (assignments : List Assignment) :
    (context.pushBound parent own).lastBelow? index name assignments =
      if context.nearest? parent name = some index ∧ Table.contains name own = false then
        Assignment.lastGiven? name assignments
      else none := by
  induction assignments generalizing context own with
  | nil => simp [lastBelow?, Assignment.lastGiven?]
  | cons assignment rest ih =>
    obtain ⟨between, ownBetween, hperform, hleaves⟩ :=
      exists_leaves_perform hrooted hparent own assignment
    have hcurrent := hleaves.frames.currentIndex
    have hbelow : index < (context.pushBound parent own).currentIndex := Nat.lt_succ_of_le hindex
    rw [lastBelow?, hperform, ih hleaves.rooted (hcurrent ▸ hparent) (hcurrent ▸ hindex),
      hleaves.nearest?]
    cases hown : Table.contains name own with
    | true =>
      have hholder : (context.pushBound parent own).holder? name =
          some (context.currentIndex + 1) :=
        holder?_pushBound_own hown
      have hne : context.currentIndex + 1 ≠ index := by omega
      by_cases hnearest : context.nearest? parent name = some index
      · have hcontains := hleaves.contains name (by simp [hnearest])
        simp [hholder, hne, hcontains, hown]
      · simp [hholder, hne, hnearest]
    | false =>
      have hholder := holder?_pushBound hown hrooted hparent
      by_cases hnearest : context.nearest? parent name = some index
      · have hcontains := hleaves.contains name (by simp [hnearest])
        have hnever : assignment.shadows name → assignment.given? name = none := by
          cases assignment <;> simp [Assignment.shadows, Assignment.given?,
            Assignment.ownBindings, Table.names]
        cases hshadows : assignment.shadows name with
        | true => simp [hholder, hnearest, hcontains, hown, hshadows, hbelow, hnever hshadows,
            Assignment.lastGiven?]
        | false => simp [hholder, hnearest, hcontains, hown, hshadows, hbelow,
            Assignment.lastGiven?]
      · simp [hholder, hnearest]

end Context

end Stencil
