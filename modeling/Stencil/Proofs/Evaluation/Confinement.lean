import Stencil.Proofs.Evaluation.Alike
import Stencil.Proofs.Scope.Liveness

/-!
# Where calls are made

Every call that an evaluation comes to is made on top of the frames in which the evaluation started,
and a scope that was given out before is live there if and only if it was live at the start.
-/

namespace Stencil

/-- A call in the middle of an evaluation: the frames from which the evaluation started are still
there, and the scope of the macro is live if it was live then. -/
structure Context.Confines (start context : Context) (call : MacroCall) : Prop where
  identity : context.identity = start.identity
  root : context.root = start.root
  frames : start.frames <:+ context.frames
  scope : context.isLive call.scope = start.isLive call.scope

namespace Evaluation

open Context

open Classical in
/-- Calls macros in the given way only where a condition holds, and in any other way elsewhere. -/
noncomputable def invokeWhere (evaluator : Evaluator) (Allows : Context → MacroCall → Prop)
    (other : MacroCall → Evaluation Value) : Nat → MacroCall → Evaluation Value
  | 0, _ => exhausted
  | depth + 1, call => do
    let context ← getThe Context
    if Allows context call then
      callMacro evaluator (invokeWhere evaluator Allows other depth) call
    else
      other call

open Classical in
theorem run_invokeWhere {evaluator : Evaluator} {Allows : Context → MacroCall → Prop}
    {other : MacroCall → Evaluation Value} {depth : Nat} {call : MacroCall} {context : Context}
    (hallows : Allows context call) :
    (ExceptT.run (invokeWhere evaluator Allows other (depth + 1) call)).run context =
      (ExceptT.run (callMacro evaluator (invokeWhere evaluator Allows other depth) call)).run
        context := by
  have hunfold : (ExceptT.run (invokeWhere evaluator Allows other (depth + 1) call)).run context =
      (ExceptT.run (if Allows context call then
        callMacro evaluator (invokeWhere evaluator Allows other depth) call
      else other call)).run context := rfl
  rw [hunfold, if_pos hallows]

/-- A run against itself, in a context with known frames on top of those it started from. -/
def Stands (start : Context) (top : List Frame) (context context' : Context) : Prop :=
  context' = context ∧ start.Above context top ∧ context.Within start.Past

variable {evaluator : Evaluator} {start : Context} {other : MacroCall → Evaluation Value}

theorem lawful_stands (hkeeps : evaluator.Keeps start.Past) (top : List Frame) :
    (Coupling.mk (Stands start top) start.Past Eq).Lawful evaluator id where
  get? := by
    rintro _ context ⟨rfl, -, hwithin⟩ name
    exact ⟨rfl, fun _ hvalue => hwithin.get? hvalue⟩
  keeps := hkeeps
  refl _ := rfl
  moved _ _ := rfl
  text _ := rfl

theorem nests_stands : Nests (Stands start) start.Past where
  isLive := by
    rintro top _ context ⟨rfl, -, -⟩ handle -
    rfl
  opened := by
    rintro top _ context ⟨rfl, habove, hwithin⟩ handle - - bound hbound
    refine ⟨⟨context.nextSerial, handle.index, bound⟩ :: top,
      ⟨rfl, habove.pushBound _ bound, hwithin.pushBound _ hbound⟩, ?_⟩
    rintro _ after ⟨rfl, hafter, hafterWithin⟩
    exact ⟨rfl, hafter.pop, hafterWithin.pop⟩

theorem couples_invokeWhere (hkeeps : evaluator.Keeps start.Past) (depth : Nat) (top : List Frame)
    {call : MacroCall} (hcall : call.Within start.Past) :
    (Coupling.mk (Stands start top) start.Past Eq).Couples (Value.Within start.Past)
      (invoke evaluator depth call) (invokeWhere evaluator start.Confines other depth call) := by
  induction depth generalizing top call with
  | zero => exact fun _ _ _ => .exhausted
  | succ depth ih =>
    rintro _ context ⟨rfl, habove, hwithin⟩
    have hconfines : start.Confines context call :=
      ⟨habove.identity, habove.root, ⟨top, habove.frames.symm⟩, habove.isLive hcall.scope⟩
    dsimp only
    rw [run_invokeWhere hconfines]
    exact couples_callMacro (lawful_stands hkeeps) (nests_stands.opens top)
      (fun top _ hcall => ih top hcall) hcall ⟨rfl, habove, hwithin⟩

/-- No call of an evaluation is made elsewhere, for what is done there makes no difference. -/
theorem evaluate_invokeWhere_confines (hkeeps : evaluator.Keeps start.Past)
    (hwithin : start.Within start.Past) (depth : Nat) (expr : Expr Token) :
    (ExceptT.run (evaluate evaluator (invokeWhere evaluator start.Confines other depth) expr)).run
        start =
      (ExceptT.run (evaluateExpr evaluator depth expr)).run start := by
  have hinvoke (call : MacroCall) (hcall : call.Within start.Past) :
      (Coupling.mk (Stands start []) start.Past Eq).Couples (Value.Within start.Past)
        (invoke evaluator depth call) (invokeWhere evaluator start.Confines other depth call) :=
    couples_invokeWhere hkeeps depth [] hcall
  have hcouples := couples_evaluate (lawful_stands hkeeps []) hinvoke expr
  rw [Expr.mapMarks_id] at hcouples
  exact eq_of_tiedOutcome (hcouples ⟨rfl, (AgesTo.refl start).above, hwithin⟩)
    (fun _ _ => eq_of_sameResult) fun _ _ hstands => hstands.1

theorem execute_invokeWhere_confines (hkeeps : evaluator.Keeps start.Past)
    (hwithin : start.Within start.Past) (depth : Nat) (written : String)
    (body : List (Node Token)) :
    (execute evaluator (invokeWhere evaluator start.Confines other depth) written body).run start =
      (executeBody evaluator depth written body).run start :=
  eq_of_tiedOutcome (tied_execute (lawful_stands hkeeps [])
      (fun _ => couples_invokeWhere hkeeps depth []) written body
      ⟨rfl, (AgesTo.refl start).above, hwithin⟩)
    (fun _ _ => eq_of_sameOutput) fun _ _ hstands => hstands.1

end Evaluation

namespace Context

variable {start context : Context} {call : MacroCall}

/-- The frame of a live scope is the one that was there when the evaluation started. -/
theorem Confines.frameAt? (hconfines : start.Confines context call)
    (hlive : start.isLive call.scope) :
    context.serialAt? call.scope.index = some call.scope.serial ∧
      Context.frameAt? call.scope.index context.frames =
        Context.frameAt? call.scope.index start.frames := by
  constructor
  · rw [serialAt?_eq_getElem?]
    exact (isLive_iff.1 (hconfines.scope.trans hlive)).2
  · obtain ⟨top, hframes⟩ := hconfines.frames
    rw [← hframes, frameAt?_append top (index_le_of_isLive hlive)]

theorem inheritFrom?_of_isLive {handle : ScopeHandle} (hlive : context.isLive handle) :
    ∃ child, context.inheritFrom? handle = some child ∧
      child.frames = ⟨context.nextSerial, handle.index, []⟩ :: context.frames ∧
      context.serialAt? handle.index = some handle.serial := by
  refine ⟨context.push handle.index, if_pos hlive, rfl, ?_⟩
  rw [serialAt?_eq_getElem?]
  exact (isLive_iff.1 hlive).2

end Context

namespace History

open Evaluation

/-- In every history, of any length and over any number of contexts:

* a handle is live in a context exactly if that context gave it out and its frame has not been
  closed since; it is live in no second context, and once it is dead it stays dead;
* the handle of the root is always live;
* a child of a live handle is opened under the frame of the handle, and of another one not at all;
* a declared macro has the current frame as its scope;
* no evaluation makes a call elsewhere than on top of the frames that it started from, and there the
  body of a macro runs under the frame of its scope, as it was live at the start, or the call is
  refused and changes nothing. -/
theorem scope_handles_never_alias (history : History) :
    ∀ time ≤ history.length,
      (∀ handle, ¬history.Live time handle → ∀ earlier ≤ time, history.Live earlier handle →
        ∀ later, time ≤ later → later ≤ history.length → ¬history.Live later handle) ∧
      ∀ name context, (history.state time).context? name = some context →
        (∀ handle, context.isLive handle ↔ handle.context = context.identity ∧
          (∃ issued ≤ time, history.Issues issued name handle) ∧
          ∀ issued ≤ time, history.Issues issued name handle →
            history.OpenSince issued time name handle) ∧
        (∀ handle name' context', context.isLive handle →
          (history.state time).context? name' = some context' → context'.isLive handle →
            name' = name) ∧
        context.isLive ⟨context.identity, 0, Context.rootSerial⟩ ∧
        (∀ handle, context.isLive handle = false → context.inheritFrom? handle = none) ∧
        (∀ handle, context.isLive handle → ∃ child, context.inheritFrom? handle = some child ∧
          child.frames = ⟨context.nextSerial, handle.index, []⟩ :: context.frames ∧
          context.serialAt? handle.index = some handle.serial) ∧
        (∀ evaluator depth identity definition value after,
          (ExceptT.run (closeMacro evaluator depth identity definition)).run context =
              some (.ok value, after) →
            (∃ signature, value = .procedure identity definition signature context.current) ∧
              history.Issues time name context.current) ∧
        (history.Sound → ∀ evaluator : Evaluator, evaluator.Keeps context.Past →
          ∀ other depth,
            (∀ expr, (ExceptT.run (evaluate evaluator
                (invokeWhere evaluator context.Confines other depth) expr)).run context =
              (ExceptT.run (evaluateExpr evaluator depth expr)).run context) ∧
            ∀ written body, (execute evaluator
                (invokeWhere evaluator context.Confines other depth) written body).run context =
              (executeBody evaluator depth written body).run context) ∧
        ∀ (middle : Context) (call : MacroCall), context.Confines middle call →
          (context.isLive call.scope = false → ∀ evaluator depth,
            (ExceptT.run (invoke evaluator (depth + 1) call)).run middle =
              some (.error (.staleScope call.definition.name), middle)) ∧
          (context.isLive call.scope →
            middle.serialAt? call.scope.index = some call.scope.serial ∧
            Context.frameAt? call.scope.index middle.frames =
              Context.frameAt? call.scope.index context.frames ∧
            ∀ evaluator depth,
              (ExceptT.run (invoke evaluator (depth + 1) call)).run middle =
                match call.signature.bind call.arguments with
                | .error fault => some (.error (.signature call.definition.name fault),
                    (middle.push call.scope.index).pop)
                | .ok bound => ((executeBody evaluator depth "" call.definition.body).run
                    (middle.pushBound call.scope.index (Table.ofList bound))).map
                      fun (output, after) => (bodyResult call.definition output, after.pop)) := by
  intro time htime
  refine ⟨fun handle hdead earlier hearlier hbefore later hle hlater hlive => ?_,
    fun name context hcontext => ⟨fun handle => isLive_iff_issued htime hcontext, ?_, ?_, ?_, ?_, ?_,
      ?_, ?_⟩⟩
  · have hpast := past_of_le hearlier htime (past_of_live (hearlier.trans htime) hbefore)
    exact hdead (live_of_live_of_past hle hlater hpast hlive)
  · intro handle name' context' hlive hcontext' hlive'
    exact eq_of_isLive htime hcontext' hcontext hlive' hlive
  · exact Context.isLive_iff.2 ⟨rfl, rfl⟩
  · intro handle hdead
    rw [Context.inheritFrom?, hdead]
    rfl
  · exact fun handle => Context.inheritFrom?_of_isLive
  · intro evaluator depth identity definition value after hclosing
    obtain ⟨signature, hvalue, -⟩ :=
      within_of_closeMacro evaluator.keeps_true context.within_true hclosing
    exact ⟨⟨signature, hvalue⟩, context, hcontext, rfl⟩
  · intro hsound evaluator hkeeps other depth
    have hwithin := (reachable hsound htime).within_past hcontext
    exact ⟨evaluate_invokeWhere_confines hkeeps hwithin depth,
      execute_invokeWhere_confines hkeeps hwithin depth⟩
  · intro middle call hconfines
    constructor
    · intro hdead evaluator depth
      rw [invoke, run_callMacro, hconfines.scope, hdead, if_neg Bool.false_ne_true]
    · intro hlive
      obtain ⟨hserial, hframe⟩ := hconfines.frameAt? hlive
      refine ⟨hserial, hframe, fun evaluator depth => ?_⟩
      rw [invoke, run_callMacro, hconfines.scope, if_pos hlive]
      rfl

/-- A macro with the body `{{ x }}`. -/
def showX : Macro Token where
  name := "show"
  required := []
  defaulted := []
  body := [.output (.name ⟨.name, "x", ⟨3, 4, 1, 4⟩⟩ "x")]

/-- A frame above the root, and in the root a macro that was declared in this frame. -/
def captured : Context :=
  ((Context.ofBindings 0 [("show", .null)]).inherit.define "x" (.string "inner")).set "show"
    (.procedure 0 showX ⟨[], [], false, false⟩ ⟨0, 1, 1⟩)

/-- A macro keeps the handle of a frame, the frame is closed, and its position used again. -/
def reuse : History where
  length := 6
  state
    | 0 => .empty .bare
    | 1 => .ofContext (.ofBindings 0 [("show", .null)])
    | 2 => .ofContext (Context.ofBindings 0 [("show", .null)]).inherit
    | 3 => .ofContext
        ((Context.ofBindings 0 [("show", .null)]).inherit.define "x" (.string "inner"))
    | 4 => .ofContext captured
    | 5 => .ofContext captured.pop
    | _ => .ofContext captured.pop.inherit
  action
    | 0 => .create "main" [("show", .null)]
    | 1 | 5 => .inherit "main"
    | 2 => .define "main" "x" (.string "inner")
    | 3 => .set "main" "show" (.procedure 0 showX ⟨[], [], false, false⟩ ⟨0, 1, 1⟩)
    | _ => .pop "main"
  start := ⟨.bare, rfl⟩
  step index hindex := by
    obtain rfl | rfl | rfl | rfl | rfl | rfl :
      index = 0 ∨ index = 1 ∨ index = 2 ∨ index = 3 ∨ index = 4 ∨ index = 5 := by omega
    all_goals rfl

theorem sound_reuse : reuse.Sound := by
  intro time htime
  have htime : time < 6 := htime
  obtain rfl | rfl | rfl | rfl | rfl | rfl :
    time = 0 ∨ time = 1 ∨ time = 2 ∨ time = 3 ∨ time = 4 ∨ time = 5 := by omega
  · exact List.forall_mem_singleton.2 (Value.within_of_isPlain rfl)
  · exact trivial
  · have hplain : (Value.string "inner").isPlain := rfl
    exact Value.within_of_isPlain hplain
  · have hlive : reuse.Live 3 ⟨0, 1, 1⟩ := ⟨"main", _, rfl, rfl⟩
    exact List.forall_mem_singleton.2 (past_of_live (by decide) hlive)
  · exact trivial
  · exact trivial

/-- The handle that the macro keeps is dead for good once its frame is closed, although the position
is taken again.  Until then a call runs under that frame, even from above another one that binds
the name; afterwards it fails. -/
theorem scope_handles_never_alias_reuse :
    let call : Expr Token := .call ⟨.leftParen, "(", ⟨4, 5, 1, 5⟩⟩
      (.name ⟨.name, "show", ⟨0, 4, 1, 1⟩⟩ "show") [] []
    let above := captured.inherit.define "x" (.string "outer")
    let showing : MacroCall := ⟨showX, ⟨[], [], false, false⟩, ⟨0, 1, 1⟩, {}⟩
    let stale : Failure := .staleScope "show"
    ¬reuse.Live 6 ⟨0, 1, 1⟩ ∧
    (((ExceptT.run (evaluate .bare (invokeWhere .bare captured.Confines (fun _ => exhausted) 1)
          call)).run captured).map Prod.fst = some (.ok (.safe "inner")) ∧
      ((ExceptT.run (invoke .bare 1 showing)).run above).map Prod.fst =
        some (.ok (.safe "inner"))) ∧
    (((ExceptT.run (evaluate .bare (invokeWhere .bare captured.pop.inherit.Confines
          (fun _ => exhausted) 1) call)).run captured.pop.inherit).map Prod.fst =
        some (.error stale) ∧
      (ExceptT.run (invoke .bare 1 showing)).run captured.pop.inherit =
        some (.error stale, captured.pop.inherit)) := by
  intro call above showing stale
  have hlive : reuse.Live 4 ⟨0, 1, 1⟩ := ⟨"main", captured, rfl, rfl⟩
  have hdead : ¬reuse.Live 5 ⟨0, 1, 1⟩ := by
    rintro ⟨name, context, hcontext, hlive⟩
    have hcontext : (if "main" = name then some captured.pop else none) = some context := hcontext
    split at hcontext
    · cases hcontext
      cases hlive
    · cases hcontext
  have hkeeps (context : Context) : Evaluator.bare.Keeps context.Past := Evaluator.keeps_bare _
  obtain ⟨hnever, -⟩ := scope_handles_never_alias reuse 5 (by decide)
  obtain ⟨-, hbefore⟩ := scope_handles_never_alias reuse 4 (by decide)
  obtain ⟨-, hafter⟩ := scope_handles_never_alias reuse 6 (by decide)
  obtain ⟨-, -, -, -, -, -, hcalls, hcall⟩ := hbefore "main" captured rfl
  obtain ⟨-, -, -, -, -, -, hcalls', hcall'⟩ := hafter "main" captured.pop.inherit rfl
  obtain ⟨-, hruns⟩ := hcall above showing ⟨rfl, rfl, ⟨[_], rfl⟩, rfl⟩
  obtain ⟨hfails, -⟩ := hcall' captured.pop.inherit showing ⟨rfl, rfl, List.suffix_rfl, rfl⟩
  obtain ⟨-, -, hruns⟩ := hruns rfl
  refine ⟨hnever _ hdead 4 (by decide) hlive 6 (by decide) le_rfl, ⟨?_, ?_⟩, ?_, hfails rfl _ _⟩
  · rw [(hcalls sound_reuse .bare (hkeeps _) _ 1).1]
    rfl
  · rw [hruns]
    rfl
  · rw [(hcalls' sound_reuse .bare (hkeeps _) _ 1).1]
    rfl

end History

end Stencil
