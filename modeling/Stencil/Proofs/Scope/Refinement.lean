import Stencil.Proofs.Scope.Assignments
import Stencil.Proofs.Scope.Histories

/-!
# Contexts as chained scopes

In every context that a host can bring about the parents of a frame lie below it, so that lookups
come to an end and nothing is left behind without a parent.  An assignment is one change of one
frame, and a child frame that has been closed leaves nothing but the values given to its ancestors.
-/

namespace Stencil

namespace Context

/-- What all actions on a context keep. -/
structure Kept (Holds : Context → Prop) : Prop where
  ofBindings : ∀ identity bindings, Holds (.ofBindings identity bindings)
  bindAt : ∀ context position name value, Holds context → Holds (context.bindAt position name value)
  push : ∀ context parent, parent ≤ context.currentIndex → Holds context →
    Holds (context.push parent)
  pop : ∀ context, Holds context → Holds context.pop
  ages : ∀ context after, context.AgesTo after → Holds context → Holds after

theorem kept_rooted : Kept Rooted where
  ofBindings _ _ := trivial
  bindAt _ position name value hrooted := hrooted.bindAt position name value
  push _ _ hparent hrooted := hrooted.push hparent
  pop _ hrooted := hrooted.pop
  ages _ _ hages hrooted := by
    unfold Rooted
    rwa [hages.frames]

namespace Kept

variable {Holds : Context → Prop} {context : Context}

theorem set (hkept : Kept Holds) (hcontext : Holds context) (name : String) (value : Value) :
    Holds (context.set name value) := by
  unfold Context.set overwrite?
  cases context.holder? name <;> exact hkept.bindAt context _ name value hcontext

theorem overwrite? (hkept : Kept Holds) (hcontext : Holds context) (name : String)
    (value : Value) : Holds ((context.overwrite? name value).getD context) := by
  unfold Context.overwrite?
  cases context.holder? name with
  | none => exact hcontext
  | some position => exact hkept.bindAt context position name value hcontext

theorem update (hkept : Kept Holds) (hcontext : Holds context)
    (bindings : List (String × Value)) : Holds (context.update bindings) := by
  induction bindings generalizing context with
  | nil => exact hcontext
  | cons binding rest ih => exact ih (hkept.bindAt context _ binding.1 binding.2 hcontext)

theorem inheritFrom? (hkept : Kept Holds) (hcontext : Holds context) (handle : ScopeHandle) :
    Holds ((context.inheritFrom? handle).getD context) := by
  unfold Context.inheritFrom?
  split
  · next hlive =>
    have hindex := (List.getElem?_eq_some_iff.1 (isLive_iff.1 hlive).2).1
    rw [length_serials] at hindex
    exact hkept.push context handle.index (Nat.le_of_lt_succ hindex) hcontext
  · exact hcontext

end Kept

/-! ## What assignments and children come to -/

variable {context opened after : Context} {parent : Nat}

/-- What an assignment to a name makes of a context: one binding of one frame is another. -/
structure Assigns (context : Context) (name : String) (value : Value) (after : Context) :
    Prop where
  frames : context.SameFrames after
  nextSerial : after.nextSerial = context.nextSerial
  bindings : ∀ index ≤ context.currentIndex, ∀ other,
    Table.get? other (after.bindingsAt index) =
      if index = (context.chain.find? (context.binds name)).getD context.currentIndex ∧
          other = name then
        some value
      else Table.get? other (context.bindingsAt index)
  get? : ∀ other, after.get? other = if other = name then some value else context.get? other
  has : ∀ other, after.has other = (decide (other = name) || context.has other)

theorem assigns_set (hrooted : context.Rooted) (name : String) (value : Value) :
    context.Assigns name value (context.set name value) := by
  have hset := set_eq_bindAt hrooted name value
  refine ⟨?_, ?_, fun index hindex other => ?_, fun other => get?_set hrooted name other value,
    fun other => ?_⟩
  · exact hset ▸ context.sameFrames_bindAt _ name value
  · exact hset ▸ nextSerial_bindAt
  · rw [hset, get?_bindingsAt_bindAt (target_le hrooted name) hindex]
    rfl
  · rw [has, has, holder?_set hrooted]
    split
    · next hname => simp [hname]
    · next hname => simp [hname]

/-- A child is opened on the current frame, or on the frame of a handle. -/
inductive OpensChild (context : Context) : Context → Prop
  | current : OpensChild context context.inherit
  | handle {handle : ScopeHandle} {opened : Context} :
      context.inheritFrom? handle = some opened → OpensChild context opened

theorem OpensChild.exists_pushBound (hopens : context.OpensChild opened) :
    ∃ parent ≤ context.currentIndex, opened = context.pushBound parent [] := by
  cases hopens with
  | current => exact ⟨_, le_rfl, rfl⟩
  | @handle handle _ hopens =>
    unfold Context.inheritFrom? at hopens
    split at hopens
    · next hlive =>
      cases hopens
      have hindex := (List.getElem?_eq_some_iff.1 (isLive_iff.1 hlive).2).1
      rw [length_serials] at hindex
      exact ⟨handle.index, Nat.le_of_lt_succ hindex, rfl⟩
    · cases hopens

/-- What is left of some assignments in a child when the child is closed: the values that were
given to names found below the child. -/
structure Forgets (context opened : Context) (assignments : List Assignment) (after : Context) :
    Prop where
  frames : context.SameFrames after
  nextSerial : after.nextSerial = context.nextSerial + 1
  bindings : ∀ index ≤ context.currentIndex, ∀ name,
    Table.get? name (after.bindingsAt index) =
      (opened.lastBelow? index name assignments).or (Table.get? name (context.bindingsAt index))

theorem forgets_assignAll (hrooted : context.Rooted) (hopens : context.OpensChild opened)
    (assignments : List Assignment) :
    context.Forgets opened assignments (opened.assignAll assignments).pop := by
  obtain ⟨parent, hparent, rfl⟩ := hopens.exists_pushBound
  obtain ⟨after, own, hassign, hleaves⟩ := exists_leaves_assignAll hrooted hparent [] assignments
  have hpop : (after.pushBound parent own).pop =
      { after with nextSerial := after.nextSerial + 1 } := rfl
  rw [hassign, hpop]
  refine ⟨⟨hleaves.frames.identity, hleaves.frames.serials, hleaves.frames.parents⟩,
    congrArg (· + 1) hleaves.nextSerial, fun index hindex name => ?_⟩
  rw [lastBelow?_pushBound hrooted hparent hindex]
  refine (hleaves.bindings index hindex name).trans ?_
  split <;> rfl

end Context

namespace Workspace

variable {Holds : Context → Prop} {workspace after : Workspace} {action : Action}

/-- All contexts of the workspace are of a kind. -/
def Throughout (Holds : Context → Prop) (workspace : Workspace) : Prop :=
  ∀ name context, workspace.context? name = some context → Holds context

theorem Throughout.putContext (hworkspace : workspace.Throughout Holds) {context : Context}
    (hcontext : Holds context) (name : String) :
    (workspace.putContext name context).Throughout Holds := by
  intro other next hnext
  rw [context?_putContext] at hnext
  split at hnext
  · cases hnext
    exact hcontext
  · exact hworkspace other next hnext

theorem Throughout.change (hworkspace : workspace.Throughout Holds) {name : String}
    {next : Context → Context} (hnext : ∀ context, Holds context → Holds (next context))
    (hchange : workspace.change name next = some after) : after.Throughout Holds := by
  obtain ⟨context, hcontext, rfl⟩ := Option.map_eq_some_iff.1 hchange
  exact hworkspace.putContext (hnext context (hworkspace name context hcontext)) name

theorem Throughout.run {α : Type} (hworkspace : workspace.Throughout Holds) {name : String}
    {computation : Run α} {result : α}
    (hnext : ∀ context result next, computation.run context = some (result, next) →
      Holds context → Holds next)
    (hrun : workspace.run name computation = some (result, after)) : after.Throughout Holds := by
  obtain ⟨context, hcontext, hrest⟩ := Option.bind_eq_some_iff.1 hrun
  obtain ⟨⟨_, next⟩, hcomputed, hlast⟩ := Option.bind_eq_some_iff.1 hrest
  cases hlast
  exact hworkspace.putContext (hnext context _ next hcomputed (hworkspace name context hcontext))
    name

theorem Throughout.declaration {α : Type} (hkept : Context.Kept Holds)
    (hworkspace : workspace.Throughout Holds) {name key : String} {depth : Nat}
    {definition : Macro Token} {next : Value → α} {result : Except Failure α}
    (hmaking : workspace.runMaking name (fun identity => Evaluation.outcome do
        let value ← Evaluation.closeMacro workspace.evaluator depth identity definition
        modifyThe Context fun context => context.define key value
        return next value) = some (result, after)) : after.Throughout Holds := by
  obtain ⟨⟨_, between⟩, hrun, hlast⟩ := Option.bind_eq_some_iff.1 hmaking
  cases hlast
  have hbetween : between.Throughout Holds := by
    refine hworkspace.run (fun context result next hcomputed hcontext => ?_) hrun
    rcases Evaluation.run_closeMacro_define hcomputed with
      ⟨failure, hclosing⟩ | ⟨value, aged, hclosing, rfl⟩
    · exact hkept.ages context next (Evaluation.agesTo_of_closeMacro hclosing) hcontext
    · exact hkept.bindAt aged _ key value
        (hkept.ages context aged (Evaluation.agesTo_of_closeMacro hclosing) hcontext)
  exact hbetween

/-- What all actions on a context keep is kept by all actions of a host. -/
theorem Throughout.perform (hkept : Context.Kept Holds) (hworkspace : workspace.Throughout Holds)
    (hperform : workspace.perform action = some after) : after.Throughout Holds := by
  cases action with
  | create name bindings =>
    cases hperform
    intro other next hnext
    rw [context?_create] at hnext
    split at hnext
    · cases hnext
      exact hkept.ofBindings _ bindings
    · exact hworkspace other next hnext
  | inherit name =>
    exact hworkspace.change (fun context => hkept.push context _ le_rfl) hperform
  | inheritFrom name handle =>
    exact hworkspace.change (fun _ hcontext => hkept.inheritFrom? hcontext handle) hperform
  | pop name => exact hworkspace.change hkept.pop hperform
  | define name key value =>
    exact hworkspace.change (fun context => hkept.bindAt context _ key value) hperform
  | set name key value =>
    exact hworkspace.change (fun _ hcontext => hkept.set hcontext key value) hperform
  | overwrite name key value =>
    exact hworkspace.change (fun _ hcontext => hkept.overwrite? hcontext key value) hperform
  | update name bindings =>
    exact hworkspace.change (fun _ hcontext => hkept.update hcontext bindings) hperform
  | merge name other =>
    obtain ⟨source, -, hchange⟩ := Option.bind_eq_some_iff.1 hperform
    exact hworkspace.change (fun _ hcontext => hkept.update hcontext source.locals) hchange
  | exportMacros name =>
    exact hworkspace.change (fun _ hcontext => hkept.update hcontext workspace.macros.entries)
      hperform
  | declareMacro name depth definition =>
    obtain ⟨⟨result, last⟩, hdeclared, rfl⟩ := Option.map_eq_some_iff.1 hperform
    simp only [declareMacro, Evaluation.declareMacro_eq] at hdeclared
    exact hworkspace.declaration hkept hdeclared
  | bindMacro name binding depth definition =>
    obtain ⟨⟨result, last⟩, hdeclared, rfl⟩ := Option.map_eq_some_iff.1 hperform
    exact hworkspace.declaration hkept hdeclared
  | evaluate name depth expr =>
    obtain ⟨⟨result, last⟩, hrun, rfl⟩ := Option.map_eq_some_iff.1 hperform
    exact hworkspace.run (fun context _ next hcomputed =>
      hkept.ages context next (Evaluation.agesTo_of_evaluateExpr hcomputed)) hrun
  | execute name depth written body =>
    obtain ⟨⟨result, last⟩, hrun, rfl⟩ := Option.map_eq_some_iff.1 hperform
    exact hworkspace.run (fun context _ next hcomputed =>
      hkept.ages context next (Evaluation.agesTo_of_executeBody hcomputed)) hrun
  | keepMacro key value =>
    cases hperform
    exact hworkspace
  | equip evaluator =>
    cases hperform
    exact hworkspace

end Workspace

namespace History

open Context

variable {history : History} {time : Nat} {label : String} {context : Context}

/-- What all actions on a context keep holds of every context at every time. -/
theorem throughout {Holds : Context → Prop} (hkept : Kept Holds) (htime : time ≤ history.length) :
    (history.state time).Throughout Holds := by
  induction time with
  | zero =>
    obtain ⟨evaluator, hstart⟩ := history.start
    rw [hstart]
    exact fun _ _ hcontext => nomatch hcontext
  | succ time ih => exact (ih (Nat.le_of_lt htime)).perform hkept (history.step time htime)

theorem rooted (htime : time ≤ history.length)
    (hcontext : (history.state time).context? label = some context) : context.Rooted :=
  throughout kept_rooted htime label context hcontext

/-- The frames of a context are chained scopes.  The root alone has no parent, and every chain of
parents descends to it; a name is what the first frame on the chain that binds it says.  An
assignment changes this binding and no other one, and a child frame that is closed leaves nothing
but the values that were given to names found below it. -/
theorem frames_are_chained_scopes (history : History) :
    ∀ time ≤ history.length, ∀ label context, (history.state time).context? label = some context →
      (∀ index ≤ context.currentIndex,
        (context.parentAt? index = none ↔ index = 0) ∧
          (∀ parent ∈ context.parentAt? index, parent < index) ∧
          context.IsChain index (chainFrom index context.frames)) ∧
      (∀ name, context.holder? name = context.chain.find? (context.binds name)) ∧
      (∀ name value,
        context.Assigns name value (context.set name value) ∧
          context.overwrite? name value =
            if context.has name then some (context.set name value) else none) ∧
      ∀ opened, context.OpensChild opened → ∀ assignments,
        context.Forgets opened assignments (opened.assignAll assignments).pop := by
  intro time htime label context hcontext
  have hrooted := rooted htime hcontext
  refine ⟨fun index hindex => ?_, holder?_eq_find? hrooted,
    fun name value => ⟨assigns_set hrooted name value, overwrite?_eq_set name value⟩,
    fun opened hopens => forgets_assignAll hrooted hopens⟩
  have hparent := hrooted.parentAt? hindex
  exact ⟨hparent.1, hparent.2, isChain_chainFrom hrooted hindex⟩

/-- A frame on the root that binds a name anew, and on top of it a child of the root. -/
def branch : Context :=
  ((Context.ofBindings 0 [("name", .null)]).inherit.define "name" (.bool true)).push 0

def branched : History where
  length := 4
  state
    | 0 => .empty .bare
    | 1 => .ofContext (.ofBindings 0 [("name", .null)])
    | 2 => .ofContext (Context.ofBindings 0 [("name", .null)]).inherit
    | 3 => .ofContext ((Context.ofBindings 0 [("name", .null)]).inherit.define "name" (.bool true))
    | _ => .ofContext branch
  action
    | 0 => .create "main" [("name", .null)]
    | 1 => .inherit "main"
    | 2 => .define "main" "name" (.bool true)
    | _ => .inheritFrom "main" ⟨0, 0, rootSerial⟩
  start := ⟨.bare, rfl⟩
  step index hindex := by
    obtain rfl | rfl | rfl | rfl : index = 0 ∨ index = 1 ∨ index = 2 ∨ index = 3 := by omega
    all_goals rfl

/-- The frame beneath the current one is not its parent, so the name is looked up and assigned in
the root.  A child of that frame does the same to it, until the child binds the name itself. -/
theorem frames_are_chained_scopes_branched :
    (branch.parentAt? 2 = some 0 ∧ branch.IsChain 2 [2, 0]) ∧
    branch.holder? "name" = some 0 ∧
    (Table.get? "name" ((branch.set "name" (.integer 1)).bindingsAt 0) = some (.integer 1) ∧
      Table.get? "name" ((branch.set "name" (.integer 1)).bindingsAt 1) = some (.bool true)) ∧
    ∃ opened, branch.inheritFrom? ⟨0, 1, 1⟩ = some opened ∧
      let closed := (opened.assignAll [.set "name" (.bool false), .define "name" .null,
        .set "name" (.integer 1)]).pop
      Table.get? "name" (closed.bindingsAt 1) = some (.bool false) ∧
        Table.get? "name" (closed.bindingsAt 0) = some .null := by
  obtain ⟨hparents, hholder, hassigns, hforgets⟩ :=
    frames_are_chained_scopes branched 4 le_rfl "main" branch rfl
  obtain ⟨-, -, hchain⟩ := hparents 2 le_rfl
  obtain ⟨hassigned, -⟩ := hassigns "name" (.integer 1)
  have hopened : branch.inheritFrom? ⟨0, 1, 1⟩ = some (branch.push 1) := rfl
  have hclosed := hforgets _ (.handle hopened) [.set "name" (.bool false),
    .define "name" .null, .set "name" (.integer 1)]
  refine ⟨⟨rfl, hchain⟩, (hholder "name").trans rfl, ⟨?_, ?_⟩, _, hopened, ?_, ?_⟩
  · exact (hassigned.bindings 0 (by decide) "name").trans rfl
  · exact (hassigned.bindings 1 (by decide) "name").trans rfl
  · exact (hclosed.bindings 1 (by decide) "name").trans rfl
  · exact (hclosed.bindings 0 (by decide) "name").trans rfl

end History

end Stencil
