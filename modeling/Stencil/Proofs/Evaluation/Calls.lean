import Stencil.Proofs.Evaluation.Coupling
import Stencil.Proofs.Scope.Frames

/-!
# Calls of macros

What one call of a macro does to the context it is made in, and coupled calls to any depth: the body
of a macro runs under one more frame on either side, and that frame is gone when the call ends.
-/

namespace Stencil

namespace Evaluation

variable {evaluator : Evaluator}

/-- The result of a call whose body has been run. -/
def bodyResult (definition : Macro Token) (output : String × Option Failure) :
    Except Failure Value :=
  match output.2 with
  | none => .ok (.safe output.1)
  | some failure => .error (.execution definition.name failure)

theorem map_fst_bodyResult (definition : Macro Token)
    (outcome : Option ((String × Option Failure) × Context)) :
    (outcome.map fun (output, after) => (bodyResult definition output, after.pop)).map Prod.fst =
      (outcome.map Prod.fst).map (bodyResult definition) := by
  rw [Option.map_map, Option.map_map]
  rfl

theorem run_runBody (invoke : MacroCall → Evaluation Value) (definition : Macro Token)
    (context : Context) :
    (ExceptT.run (runBody evaluator invoke definition)).run context =
      ((execute evaluator invoke "" definition.body).run context).map
        fun (output, after) => (bodyResult definition output, after.pop) := by
  unfold runBody ofRun
  simp only [ExceptT.run_bind, ExceptT.run_lift, map_eq_pure_bind, bind_assoc, StateT.run_bind]
  rcases (execute evaluator invoke "" definition.body).run context with
    _ | ⟨⟨written, failure?⟩, after⟩
  · rfl
  · cases failure? <;> rfl

/-- The context is read first. -/
theorem run_callMacro_eq (invoke : MacroCall → Evaluation Value) (call : MacroCall)
    (context : Context) :
    (ExceptT.run (callMacro evaluator invoke call)).run context =
      (ExceptT.run (match context.inheritFrom? call.scope with
        | none => throw (.staleScope call.definition.name)
        | some child =>
          match call.signature.bind call.arguments with
          | .error fault => do
            set child.pop
            throw (.signature call.definition.name fault)
          | .ok bound => do
            set (child.update bound)
            runBody evaluator invoke call.definition : Evaluation Value)).run context :=
  rfl

theorem run_callMacro (invoke : MacroCall → Evaluation Value) (call : MacroCall)
    (context : Context) :
    (ExceptT.run (callMacro evaluator invoke call)).run context =
      if context.isLive call.scope then
        match call.signature.bind call.arguments with
        | .error fault =>
          some (.error (.signature call.definition.name fault),
            (context.push call.scope.index).pop)
        | .ok bound =>
          ((execute evaluator invoke "" call.definition.body).run
            (context.pushBound call.scope.index (Table.ofList bound))).map
              fun (output, after) => (bodyResult call.definition output, after.pop)
      else
        some (.error (.staleScope call.definition.name), context) := by
  rw [run_callMacro_eq, Context.inheritFrom?]
  by_cases hlive : context.isLive call.scope
  · rw [if_pos hlive, if_pos hlive]
    cases call.signature.bind call.arguments with
    | error fault => rfl
    | ok bound =>
      dsimp only
      rw [← run_runBody, ← Context.update_push]
      rfl
  · rw [if_neg hlive, if_neg hlive]
    rfl

theorem run_invoke (depth : Nat) (call : MacroCall) (context : Context) :
    (ExceptT.run (invoke evaluator (depth + 1) call)).run context =
      if context.isLive call.scope then
        match call.signature.bind call.arguments with
        | .error fault =>
          some (.error (.signature call.definition.name fault),
            (context.push call.scope.index).pop)
        | .ok bound =>
          ((executeBody evaluator depth "" call.definition.body).run
            (context.pushBound call.scope.index (Table.ofList bound))).map
              fun (output, after) => (bodyResult call.definition output, after.pop)
      else
        some (.error (.staleScope call.definition.name), context) :=
  run_callMacro (invoke evaluator depth) call context

/-! ## Coupled calls -/

section

variable {evaluator' : Evaluator} {invoke invoke' : MacroCall → Evaluation Value}
  {call : MacroCall} {context context' : Context} {outer : Context → Context → Prop}
  {good : Value → Prop}

/-- Coupled bodies make coupled calls, if the scope is live in both contexts or in none. -/
theorem tiedOutcome_callMacro (hgood : ∀ text, good (.safe text))
    (hlive : context.isLive call.scope = context'.isLive call.scope)
    (houter : outer context context')
    (hrefused : context.isLive call.scope →
      outer (context.push call.scope.index).pop (context'.push call.scope.index).pop)
    (hbody : context.isLive call.scope →
      ∀ bound, call.signature.bind call.arguments = .ok bound → ∃ inner,
        (∀ after after', inner after after' → outer after.pop after'.pop) ∧
        TiedOutcome inner (SameOutput Eq)
          ((execute evaluator invoke "" call.definition.body).run
            (context.pushBound call.scope.index (Table.ofList bound)))
          ((execute evaluator' invoke' "" call.definition.body).run
            (context'.pushBound call.scope.index (Table.ofList bound)))) :
    TiedOutcome outer (SameResult Eq good)
      ((ExceptT.run (callMacro evaluator invoke call)).run context)
      ((ExceptT.run (callMacro evaluator' invoke' call)).run context') := by
  rw [run_callMacro, run_callMacro, ← hlive]
  split
  · next hscope =>
    cases hbind : call.signature.bind call.arguments with
    | error fault => exact .done (.error rfl) (hrefused hscope)
    | ok bound =>
      obtain ⟨inner, hpop, houtcome⟩ := hbody hscope bound hbind
      dsimp only
      generalize (execute evaluator invoke "" call.definition.body).run _ = left,
        (execute evaluator' invoke' "" call.definition.body).run _ = right at houtcome
      cases houtcome with
      | exhausted => exact .exhausted
      | @done output output' after after' hsame hafter =>
        obtain ⟨written, failure?⟩ := output
        obtain ⟨written', failure?'⟩ := output'
        obtain ⟨rfl, hfailure⟩ : written = written' ∧ Option.Rel Eq failure? failure?' := hsame
        refine .done ?_ (hpop _ _ hafter)
        cases hfailure with
        | none => exact .ok (hgood written)
        | some hequal =>
          subst hequal
          exact .error rfl
  · exact .done (.error rfl) houter

end

/-- Relations between contexts in which calls are open, one for each way in which they may be open:
a call opens one more frame, and when that is gone the calls are open as before. -/
structure Nests {Index : Type} (contexts : Index → Context → Context → Prop)
    (scopes : ScopeHandle → Prop) : Prop where
  isLive : ∀ index context context', contexts index context context' →
    ∀ handle, scopes handle → context.isLive handle = context'.isLive handle
  opened : ∀ index context context', contexts index context context' →
    ∀ handle, scopes handle → context.isLive handle → ∀ bound, Table.Within scopes bound →
      ∃ inner, contexts inner (context.pushBound handle.index bound)
          (context'.pushBound handle.index bound) ∧
        ∀ after after', contexts inner after after' → contexts index after.pop after'.pop

/-- A call that is made in related contexts opens one more frame, and when that is gone the contexts
are related as before. -/
structure Opens {Index : Type} (outer : Context → Context → Prop)
    (contexts : Index → Context → Context → Prop) (scopes : ScopeHandle → Prop) : Prop where
  isLive : ∀ context context', outer context context' →
    ∀ handle, scopes handle → context.isLive handle = context'.isLive handle
  opened : ∀ context context', outer context context' →
    ∀ handle, scopes handle → context.isLive handle → ∀ bound, Table.Within scopes bound →
      ∃ inner, contexts inner (context.pushBound handle.index bound)
          (context'.pushBound handle.index bound) ∧
        ∀ after after', contexts inner after after' → outer after.pop after'.pop

section

variable {Index : Type} {outer : Context → Context → Prop}
  {contexts : Index → Context → Context → Prop} {scopes : ScopeHandle → Prop}

theorem Nests.opens (hnests : Nests contexts scopes) (index : Index) :
    Opens (contexts index) contexts scopes :=
  ⟨hnests.isLive index, hnests.opened index⟩

variable (hlawful : ∀ index, (Coupling.mk (contexts index) scopes Eq).Lawful evaluator id)
include hlawful

theorem couples_callMacro {invoke invoke' : MacroCall → Evaluation Value}
    (hopens : Opens outer contexts scopes)
    (hinvoke : ∀ index (call : MacroCall), call.Within scopes →
      (Coupling.mk (contexts index) scopes Eq).Couples (Value.Within scopes) (invoke call)
        (invoke' call))
    {call : MacroCall} (hcall : call.Within scopes) :
    (Coupling.mk outer scopes Eq).Couples (Value.Within scopes)
      (callMacro evaluator invoke call) (callMacro evaluator invoke' call) := by
  intro context context' hcontexts
  have hopened := hopens.opened context context' hcontexts call.scope hcall.scope
  refine tiedOutcome_callMacro (fun _ => Value.within_of_isPlain rfl)
    (hopens.isLive context context' hcontexts call.scope hcall.scope) hcontexts ?_ ?_
  · intro hlive
    obtain ⟨inner, hpushed, hpop⟩ := hopened hlive [] Table.within_nil
    exact hpop _ _ hpushed
  · intro hlive bound hbind
    have hbound : Table.Within scopes (Table.ofList bound) :=
      Table.within_nil.insertAll (Signature.within_bind hcall.defaults hcall.arguments hbind)
    obtain ⟨inner, hpushed, hpop⟩ := hopened hlive _ hbound
    exact ⟨contexts inner, hpop, tied_execute (hlawful inner) (hinvoke inner) "" _ hpushed⟩

variable (hnests : Nests contexts scopes)
include hnests

theorem couples_invoke (depth : Nat) (index : Index) {call : MacroCall}
    (hcall : call.Within scopes) :
    (Coupling.mk (contexts index) scopes Eq).Couples (Value.Within scopes)
      (invoke evaluator depth call) (invoke evaluator depth call) := by
  induction depth generalizing index call with
  | zero => exact fun _ _ _ => .exhausted
  | succ depth ih =>
    exact couples_callMacro hlawful (hnests.opens index) (fun index _ hcall => ih index hcall)
      hcall

/-- Calls may also be made in contexts that are related in another way than those inside of
calls. -/
theorem couples_invoke_of_opens (hopens : Opens outer contexts scopes) (depth : Nat)
    {call : MacroCall} (hcall : call.Within scopes) :
    (Coupling.mk outer scopes Eq).Couples (Value.Within scopes) (invoke evaluator depth call)
      (invoke evaluator depth call) := by
  cases depth with
  | zero => exact fun _ _ _ => .exhausted
  | succ depth =>
    exact couples_callMacro hlawful hopens
      (fun index _ => couples_invoke hlawful hnests depth index) hcall

theorem couples_evaluateExpr (depth : Nat) (index : Index) (expr : Expr Token) :
    (Coupling.mk (contexts index) scopes Eq).Couples (Value.Within scopes)
      (evaluateExpr evaluator depth expr) (evaluateExpr evaluator depth expr) := by
  have hcouples := couples_evaluate (hlawful index)
    (fun _ => couples_invoke hlawful hnests depth index) expr
  rwa [Expr.mapMarks_id] at hcouples

theorem tied_executeBody (depth : Nat) (index : Index) (written : String)
    (body : List (Node Token)) :
    Tied (contexts index) (SameOutput Eq) (executeBody evaluator depth written body)
      (executeBody evaluator depth written body) :=
  tied_execute (hlawful index) (fun _ => couples_invoke hlawful hnests depth index) written body

end

end Evaluation

end Stencil
