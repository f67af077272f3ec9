import Stencil.Proofs.Evaluation.Restoration
import Stencil.Proofs.Scope.Serials
import Stencil.Workspace

/-!
# Histories of a workspace

What a host does with its contexts, one action after the other.  Every action either makes a context
of an identity that was never given before, or moves the stack of one context by at most one frame;
evaluations and declarations leave the stack as they find it.
-/

namespace Stencil

/-- What a host does in one step, and to the context of which name. -/
inductive Action where
  | create (name : String) (bindings : Table Value)
  | inherit (name : String)
  | inheritFrom (name : String) (handle : ScopeHandle)
  | pop (name : String)
  | define (name key : String) (value : Value)
  | set (name key : String) (value : Value)
  | overwrite (name key : String) (value : Value)
  | update (name : String) (bindings : List (String × Value))
  | merge (name other : String)
  | exportMacros (name : String)
  | declareMacro (name : String) (depth : Nat) (definition : Macro Token)
  | bindMacro (name binding : String) (depth : Nat) (definition : Macro Token)
  | evaluate (name : String) (depth : Nat) (expr : Expr Token)
  | execute (name : String) (depth : Nat) (written : String) (body : List (Node Token))
  /-- Puts a value into the set of macros. -/
  | keepMacro (key : String) (value : Value)
  /-- Changes what the host adds to the language. -/
  | equip (evaluator : Evaluator)

namespace Workspace

/-- Replaces the context of a name by what a function makes of it. -/
def change (workspace : Workspace) (name : String) (next : Context → Context) :
    Option Workspace :=
  (workspace.context? name).map fun context => workspace.putContext name (next context)

/-- The workspace after an action, unless there is no context of the name or calls nest too
deeply. -/
def perform (workspace : Workspace) : Action → Option Workspace
  | .create name bindings => some (workspace.create name bindings)
  | .inherit name => workspace.change name Context.inherit
  | .inheritFrom name handle =>
    workspace.change name fun context => (context.inheritFrom? handle).getD context
  | .pop name => workspace.change name Context.pop
  | .define name key value => workspace.change name fun context => context.define key value
  | .set name key value => workspace.change name fun context => context.set key value
  | .overwrite name key value =>
    workspace.change name fun context => (context.overwrite? key value).getD context
  | .update name bindings => workspace.change name fun context => context.update bindings
  | .merge name other =>
    (workspace.context? other).bind fun other =>
      workspace.change name fun context => context.merge other
  | .exportMacros name => workspace.change name workspace.exportMacros
  | .declareMacro name depth definition =>
    (workspace.declareMacro depth name definition).map Prod.snd
  | .bindMacro name binding depth definition =>
    (workspace.bindMacro depth name binding definition).map Prod.snd
  | .evaluate name depth expr =>
    (workspace.run name
      (Evaluation.outcome (Evaluation.evaluateExpr workspace.evaluator depth expr))).map Prod.snd
  | .execute name depth written body =>
    (workspace.run name
      (Evaluation.executeBody workspace.evaluator depth written body)).map Prod.snd
  | .keepMacro key value => some { workspace with macros := workspace.macros.insert key value }
  | .equip evaluator => some { workspace with evaluator := evaluator }

end Workspace

/-- A workspace that starts without contexts, and the actions it goes through. -/
structure History where
  length : Nat
  state : Nat → Workspace
  action : Nat → Action
  start : ∃ evaluator, state 0 = Workspace.empty evaluator
  step : ∀ index < length, (state index).perform (action index) = some (state (index + 1))

namespace Workspace

/-- A bare workspace whose one context is the first that it made. -/
def ofContext (context : Context) : Workspace :=
  { empty .bare with contexts := [("main", context)], nextContext := 1 }

variable {workspace after : Workspace} {action : Action} {name : String} {context : Context}

/-! ## What an action does -/

theorem context?_putContext (other : String) :
    (workspace.putContext name context).context? other =
      if other = name then some context else workspace.context? other :=
  Table.get?_insert name other context workspace.contexts

theorem context?_create (bindings : Table Value) (other : String) :
    (workspace.create name bindings).context? other =
      if other = name then some (Context.ofBindings workspace.nextContext bindings)
      else workspace.context? other :=
  Table.get?_insert name other _ workspace.contexts

/-- All macros in the contexts and in the set of macros have a scope of this kind. -/
structure Within (Holds : ScopeHandle → Prop) (workspace : Workspace) : Prop where
  contexts : ∀ name context, workspace.context? name = some context → context.Within Holds
  macros : Table.Within Holds workspace.macros.entries

theorem Within.imp {Holds Holds' : ScopeHandle → Prop} (hwithin : workspace.Within Holds)
    (himp : ∀ handle, Holds handle → Holds' handle) : workspace.Within Holds' where
  contexts name context hcontext := (hwithin.contexts name context hcontext).imp himp
  macros := hwithin.macros.imp himp

/-- All macros that an action brings into a workspace have a scope of this kind. -/
def Brings (workspace : Workspace) (Holds : ScopeHandle → Prop) : Action → Prop
  | .create _ bindings => Table.Within Holds bindings
  | .define _ _ value | .set _ _ value | .overwrite _ _ value | .keepMacro _ value =>
    value.Within Holds
  | .update _ bindings => Table.Within Holds bindings
  | .declareMacro _ _ _ | .bindMacro _ _ _ _ => workspace.evaluator.Keeps Holds
  | _ => True

/-- An action makes a context, or moves the stack of one, or touches none.  What it binds is what
was bound before, what it brings along, or a macro declared in the current frame. -/
inductive Effect (workspace : Workspace) (action : Action) (after : Workspace) : Prop where
  | creates {name : String} {bindings : Table Value} : action = .create name bindings →
      after = workspace.create name bindings → Effect workspace action after
  | moves {name : String} {context next : Context} : workspace.context? name = some context →
      context.Moves (action = .pop name) next → (∀ other, action = .pop other → other = name) →
      (∀ Holds, workspace.Within Holds → workspace.Brings Holds action → Holds context.current →
        next.Within Holds) →
      after.contexts = (workspace.putContext name next).contexts →
      after.nextContext = workspace.nextContext → after.macros = workspace.macros →
      Effect workspace action after
  | rests : (∀ name, action ≠ .pop name) → after.contexts = workspace.contexts →
      after.nextContext = workspace.nextContext →
      (∀ Holds, workspace.Within Holds → workspace.Brings Holds action →
        Table.Within Holds after.macros.entries) →
      Effect workspace action after

theorem effect_of_change {next : Context → Context}
    (hname : ∀ other, action = .pop other → other = name)
    (hmoves : ∀ context : Context, context.Moves (action = .pop name) (next context))
    (hwithin : ∀ Holds, workspace.Within Holds → workspace.Brings Holds action →
      ∀ context : Context, context.Within Holds → (next context).Within Holds)
    (hchange : workspace.change name next = some after) : Effect workspace action after := by
  obtain ⟨context, hcontext, rfl⟩ := Option.map_eq_some_iff.1 hchange
  exact .moves hcontext (hmoves context) hname
    (fun Holds hworkspace hbrings _ => hwithin Holds hworkspace hbrings context
      (hworkspace.contexts name context hcontext)) rfl rfl rfl

theorem effect_of_run {α : Type} {computation : Run α}
    (hopen : ∀ other, action ≠ .pop other)
    (hages : ∀ context result next, computation.run context = some (result, next) →
      context.AgesTo next)
    (hperform : (workspace.run name computation).map Prod.snd = some after) :
    Effect workspace action after := by
  obtain ⟨⟨result, last⟩, hrun, rfl⟩ := Option.map_eq_some_iff.1 hperform
  obtain ⟨context, hcontext, hrest⟩ := Option.bind_eq_some_iff.1 hrun
  obtain ⟨⟨result, next⟩, hcomputed, hlast⟩ := Option.bind_eq_some_iff.1 hrest
  cases hlast
  have hnext := hages context result next hcomputed
  refine .moves hcontext (hnext.moves (hopen name)) (fun _ hpop => absurd hpop (hopen _))
    (fun Holds hworkspace _ _ => ?_) rfl rfl rfl
  exact hnext.within (hworkspace.contexts name context hcontext)

theorem effect_of_declaration {α : Type} {key : String} {depth : Nat} {definition : Macro Token}
    {next : Value → α} (hopen : ∀ other, action ≠ .pop other)
    (hbrings : ∀ Holds, workspace.Brings Holds action → workspace.evaluator.Keeps Holds)
    (hmaking : (workspace.runMaking name fun identity => Evaluation.outcome do
        let value ← Evaluation.closeMacro workspace.evaluator depth identity definition
        modifyThe Context fun context => context.define key value
        return next value).map Prod.snd = some after) :
    Effect workspace action after := by
  obtain ⟨⟨result, last⟩, hmade, rfl⟩ := Option.map_eq_some_iff.1 hmaking
  obtain ⟨⟨result, last⟩, hrun, hlast⟩ := Option.bind_eq_some_iff.1 hmade
  cases hlast
  obtain ⟨context, hcontext, hrest⟩ := Option.bind_eq_some_iff.1 hrun
  obtain ⟨⟨result, changed⟩, hcomputed, hlast⟩ := Option.bind_eq_some_iff.1 hrest
  cases hlast
  rcases Evaluation.run_closeMacro_define hcomputed with
    ⟨failure, hclosing⟩ | ⟨value, aged, hclosing, rfl⟩
  · have hages := Evaluation.agesTo_of_closeMacro hclosing
    refine .moves hcontext (hages.moves (hopen name)) (fun _ hpop => absurd hpop (hopen _))
      (fun Holds hworkspace _ _ => ?_) rfl rfl rfl
    exact hages.within (hworkspace.contexts name context hcontext)
  · have hages := Evaluation.agesTo_of_closeMacro hclosing
    have hsame : aged.SameStack (aged.define key value) := Context.sameStack_bindAt _ key value
    refine .moves hcontext (.stays (hopen name) (hsame.identity.trans hages.identity)
      (hsame.serials.trans hages.serials) (hages.nextSerial.trans hsame.nextSerial.ge))
      (fun _ hpop => absurd hpop (hopen _)) (fun Holds hworkspace hholds hcurrent => ?_) rfl rfl rfl
    have hwithin := hworkspace.contexts name context hcontext
    obtain ⟨signature, rfl, hdefaults⟩ :=
      Evaluation.within_of_closeMacro (hbrings Holds hholds) hwithin hclosing
    exact (hages.within hwithin).bindAt _ key (Value.within_procedure.2 ⟨hcurrent, hdefaults⟩)

theorem effect_of_perform (hperform : workspace.perform action = some after) :
    Effect workspace action after := by
  cases action with
  | create name bindings =>
    cases hperform
    exact .creates rfl rfl
  | inherit name =>
    exact effect_of_change nofun (fun context => .opens _ nofun)
      (fun _ _ _ _ hwithin => hwithin.push _) hperform
  | inheritFrom name handle =>
    refine effect_of_change nofun (fun context => ?_) (fun Holds _ _ context hwithin => ?_) hperform
    · unfold Context.inheritFrom?
      split
      · exact .opens _ nofun
      · exact (Context.SameStack.refl context).moves nofun
    · unfold Context.inheritFrom?
      split
      · exact hwithin.push _
      · exact hwithin
  | pop name =>
    exact effect_of_change (fun _ hpop => (Action.pop.inj hpop).symm) (fun context => .closes rfl)
      (fun _ _ _ _ hwithin => hwithin.pop) hperform
  | define name key value =>
    exact effect_of_change nofun (fun context => (Context.sameStack_bindAt _ key value).moves nofun)
      (fun _ _ hvalue _ hwithin => hwithin.bindAt _ key hvalue) hperform
  | set name key value =>
    exact effect_of_change nofun (fun context => (Context.sameStack_set key value).moves nofun)
      (fun _ _ hvalue _ hwithin => hwithin.set key hvalue) hperform
  | overwrite name key value =>
    refine effect_of_change nofun (fun context => ?_) (fun Holds _ hvalue context hwithin => ?_)
      hperform
    · unfold Context.overwrite?
      cases context.holder? key with
      | none => exact (Context.SameStack.refl context).moves nofun
      | some position => exact (Context.sameStack_bindAt position key value).moves nofun
    · unfold Context.overwrite?
      cases context.holder? key with
      | none => exact hwithin
      | some position => exact hwithin.bindAt position key hvalue
  | update name bindings =>
    exact effect_of_change nofun (fun context => (Context.sameStack_update bindings).moves nofun)
      (fun _ _ hbindings _ hwithin => hwithin.update hbindings) hperform
  | merge name other =>
    obtain ⟨source, hsource, hchange⟩ := Option.bind_eq_some_iff.1 hperform
    exact effect_of_change nofun (fun context => (Context.sameStack_update _).moves nofun)
      (fun _ hworkspace _ _ hwithin =>
        hwithin.update ((hworkspace.contexts other source hsource).bindingsAt _)) hchange
  | exportMacros name =>
    exact effect_of_change nofun (fun context => (Context.sameStack_update _).moves nofun)
      (fun _ hworkspace _ _ hwithin => hwithin.update hworkspace.macros) hperform
  | declareMacro name depth definition =>
    have hdeclared : (workspace.declareMacro depth name definition).map Prod.snd = some after :=
      hperform
    simp only [declareMacro, Evaluation.declareMacro_eq] at hdeclared
    exact effect_of_declaration nofun (fun _ hbrings => hbrings) hdeclared
  | bindMacro name binding depth definition =>
    exact effect_of_declaration nofun (fun _ hbrings => hbrings) hperform
  | evaluate name depth expr =>
    exact effect_of_run nofun (fun _ _ _ hrun => Evaluation.agesTo_of_evaluateExpr hrun) hperform
  | execute name depth written body =>
    exact effect_of_run nofun (fun _ _ _ hrun => Evaluation.agesTo_of_executeBody hrun) hperform
  | keepMacro key value =>
    cases hperform
    exact .rests nofun rfl rfl fun Holds hworkspace hvalue => hworkspace.macros.insert key hvalue
  | equip evaluator =>
    cases hperform
    exact .rests nofun rfl rfl fun Holds hworkspace _ => hworkspace.macros

/-! ## Identities and serial numbers -/

/-- The contexts have identities and serial numbers of their own, all of them given out before. -/
structure Formed (workspace : Workspace) : Prop where
  identity : ∀ name context, workspace.context? name = some context →
    context.identity < workspace.nextContext
  distinct : ∀ name context name' context', workspace.context? name = some context →
    workspace.context? name' = some context' → context.identity = context'.identity → name = name'
  serials : ∀ name context, workspace.context? name = some context →
    ∀ serial ∈ context.serials, serial < context.nextSerial

/-- A handle that the workspace has not still to give out: no context will be made with its
identity, and the context of its identity will open no frame with its serial number. -/
structure Past (workspace : Workspace) (handle : ScopeHandle) : Prop where
  context : handle.context < workspace.nextContext
  serial : ∀ name context, workspace.context? name = some context →
    handle.context = context.identity → handle.serial < context.nextSerial

theorem formed_empty (evaluator : Evaluator) : Formed (.empty evaluator) where
  identity _ _ hcontext := nomatch hcontext
  distinct _ _ _ _ hcontext := nomatch hcontext
  serials _ _ hcontext := nomatch hcontext

theorem Formed.past_of_isLive {handle : ScopeHandle} (hformed : workspace.Formed)
    (hcontext : workspace.context? name = some context) (hlive : context.isLive handle) :
    workspace.Past handle := by
  obtain ⟨hidentity, hserial⟩ := Context.isLive_iff.1 hlive
  refine ⟨hidentity ▸ hformed.identity name context hcontext,
    fun name' context' hcontext' hsame => ?_⟩
  obtain rfl := hformed.distinct name context name' context' hcontext hcontext'
    (hidentity.symm.trans hsame)
  obtain rfl := Option.some.inj (hcontext.symm.trans hcontext')
  exact hformed.serials name context hcontext _ (List.mem_of_getElem? hserial)

theorem within_empty {Holds : ScopeHandle → Prop} (evaluator : Evaluator) :
    Within Holds (.empty evaluator) where
  contexts _ _ hcontext := nomatch hcontext
  macros := Table.within_nil

theorem past_current (hformed : workspace.Formed)
    (hcontext : workspace.context? name = some context) :
    workspace.Past context.current :=
  hformed.past_of_isLive hcontext context.isLive_current

/-! ## One step -/

namespace Effect

variable {next : Context} {handle : ScopeHandle}

theorem nextContext_le (heffect : Effect workspace action after) :
    workspace.nextContext ≤ after.nextContext := by
  cases heffect with
  | creates _ hafter => rw [hafter]; exact Nat.le_succ _
  | moves _ _ _ _ _ hnext | rests _ _ hnext => exact hnext.ge

/-- The context of a name is new, or it was there and moved. -/
theorem origin (heffect : Effect workspace action after)
    (hnext : after.context? name = some next) :
    (∃ bindings, next = .ofBindings workspace.nextContext bindings ∧
        after = workspace.create name bindings) ∨
      ∃ context, workspace.context? name = some context ∧
        context.Moves (action = .pop name) next := by
  have hstays (hcontext : workspace.context? name = some next) (hopen : action ≠ .pop name) :
      ∃ context, workspace.context? name = some context ∧
        context.Moves (action = .pop name) next :=
    ⟨next, hcontext, (Context.SameStack.refl next).moves hopen⟩
  cases heffect with
  | @creates created bindings haction hafter =>
    subst haction hafter
    rw [context?_create] at hnext
    split at hnext
    · next hname =>
      subst hname
      exact .inl ⟨bindings, (Option.some.inj hnext).symm, rfl⟩
    · exact .inr (hstays hnext nofun)
  | @moves moved context last hcontext hmoves hpop _ hafter =>
    rw [context?, hafter] at hnext
    rw [← context?, context?_putContext] at hnext
    split at hnext
    · next hname =>
      subst hname
      obtain rfl := Option.some.inj hnext
      exact .inr ⟨context, hcontext, hmoves⟩
    · next hname => exact .inr (hstays hnext fun haction => hname (hpop name haction))
  | rests hopen hafter =>
    rw [context?, hafter] at hnext
    exact .inr (hstays hnext (hopen name))

theorem formed (heffect : Effect workspace action after) (hformed : workspace.Formed) :
    after.Formed where
  identity name next hnext := by
    rcases heffect.origin hnext with ⟨bindings, rfl, rfl⟩ | ⟨context, hcontext, hmoves⟩
    · exact Nat.lt_succ_self _
    · rw [hmoves.identity]
      exact (hformed.identity name context hcontext).trans_le heffect.nextContext_le
  distinct name next name' next' hnext hnext' hsame := by
    rcases heffect.origin hnext with ⟨bindings, rfl, rfl⟩ | ⟨context, hcontext, hmoves⟩
    · rw [context?_create] at hnext'
      split at hnext'
      · next hname => exact hname.symm
      · have hlt := hformed.identity name' next' hnext'
        rw [← hsame] at hlt
        exact absurd hlt (Nat.lt_irrefl _)
    · rcases heffect.origin hnext' with ⟨bindings', rfl, rfl⟩ | ⟨context', hcontext', hmoves'⟩
      · have hlt := hformed.identity name context hcontext
        rw [← hmoves.identity, hsame] at hlt
        exact absurd hlt (Nat.lt_irrefl _)
      · exact hformed.distinct name context name' context' hcontext hcontext'
          (hmoves.identity.symm.trans (hsame.trans hmoves'.identity))
  serials name next hnext := by
    rcases heffect.origin hnext with ⟨bindings, rfl, rfl⟩ | ⟨context, hcontext, hmoves⟩
    · exact List.forall_mem_singleton.2 (Nat.lt_succ_self _)
    · exact hmoves.serial_lt (hformed.serials name context hcontext)

theorem past (heffect : Effect workspace action after) (hpast : workspace.Past handle) :
    after.Past handle where
  context := hpast.context.trans_le heffect.nextContext_le
  serial name next hnext hsame := by
    rcases heffect.origin hnext with ⟨bindings, rfl, rfl⟩ | ⟨context, hcontext, hmoves⟩
    · exact absurd (hsame ▸ hpast.context) (Nat.lt_irrefl _)
    · rw [hmoves.identity] at hsame
      exact (hpast.serial name context hcontext hsame).trans_le hmoves.nextSerial_le

/-- A live handle was live before and its frame has survived, or it has just been given out. -/
theorem isLive_or_issued (heffect : Effect workspace action after)
    (hnext : after.context? name = some next) (hlive : next.isLive handle) :
    (∃ context, workspace.context? name = some context ∧ context.identity = next.identity ∧
        context.isLive handle ∧ context.Survives (action = .pop name) handle) ∨
      handle = next.current ∧ ¬workspace.Past handle := by
  rcases heffect.origin hnext with ⟨bindings, rfl, rfl⟩ | ⟨context, hcontext, hmoves⟩
  · obtain ⟨hidentity, hserial⟩ := Context.isLive_iff.1 hlive
    obtain ⟨hindex, hroot⟩ := List.getElem?_eq_some_iff.1 hserial
    obtain ⟨identity, index, serial⟩ := handle
    obtain rfl : index = 0 := Nat.lt_one_iff.1 hindex
    obtain rfl : identity = workspace.nextContext := hidentity
    obtain rfl : Context.rootSerial = serial := hroot
    exact .inr ⟨rfl, fun hpast => absurd hpast.context (Nat.lt_irrefl _)⟩
  · rcases hmoves.isLive_or_eq_current hlive with ⟨hbefore, hsurvives⟩ | ⟨rfl, hserial⟩
    · exact .inl ⟨context, hcontext, hmoves.identity.symm, hbefore, hsurvives⟩
    · refine .inr ⟨rfl, fun hpast => ?_⟩
      have hlt := hpast.serial name context hcontext hmoves.identity
      exact absurd (hserial ▸ hlt) (Nat.lt_irrefl _)

/-- All macros stay within the scopes given out before. -/
theorem within (heffect : Effect workspace action after) {Holds : ScopeHandle → Prop}
    (hwithin : workspace.Within Holds) (hbrings : workspace.Brings Holds action)
    (hcurrent : ∀ name context, workspace.context? name = some context → Holds context.current) :
    after.Within Holds := by
  cases heffect with
  | @creates name bindings haction hafter =>
    subst haction hafter
    refine ⟨fun other next hnext => ?_, hwithin.macros⟩
    rw [context?_create] at hnext
    split at hnext
    · cases hnext
      exact ⟨hbrings, nofun⟩
    · exact hwithin.contexts other next hnext
  | @moves name context next hcontext hmoves _ hnext hcontexts _ hmacros =>
    refine ⟨fun other last hlast => ?_, hmacros ▸ hwithin.macros⟩
    rw [context?, hcontexts] at hlast
    rw [← context?, context?_putContext] at hlast
    split at hlast
    · cases hlast
      exact hnext Holds hwithin hbrings (hcurrent name context hcontext)
    · exact hwithin.contexts other last hlast
  | rests _ hcontexts _ hmacros =>
    refine ⟨fun other next hnext => hwithin.contexts other next ?_, hmacros Holds hwithin hbrings⟩
    rwa [context?, hcontexts] at hnext

end Effect

/-! ## Reachable workspaces -/

/-- A workspace that a host can bring about, if no value that it brings in holds a macro whose scope
is still to be given out. -/
inductive Reachable : Workspace → Prop where
  | empty (evaluator : Evaluator) : Reachable (.empty evaluator)
  | step {workspace after : Workspace} (action : Action) : Reachable workspace →
      workspace.Brings workspace.Past action → workspace.perform action = some after →
      Reachable after

theorem Reachable.formed (hreachable : workspace.Reachable) : workspace.Formed := by
  induction hreachable with
  | empty evaluator => exact formed_empty evaluator
  | step action _ _ hperform ih => exact (effect_of_perform hperform).formed ih

/-- No macro in a reachable workspace has a scope that is still to be given out. -/
theorem Reachable.within (hreachable : workspace.Reachable) : workspace.Within workspace.Past := by
  induction hreachable with
  | empty evaluator => exact within_empty evaluator
  | step action hbefore hbrings hperform ih =>
    have heffect := effect_of_perform hperform
    exact (heffect.within ih hbrings fun _ _ => past_current hbefore.formed).imp
      fun _ => heffect.past

end Workspace

end Stencil
