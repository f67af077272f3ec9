import Stencil.Proofs.Evaluation.Calls
import Stencil.Proofs.Scope.Bindings
import Stencil.Proofs.Scope.Serials

/-!
# Contexts after an evaluation

An evaluation gives its context back as it was, save for the serial numbers that its calls have used
up, and its value holds no other macros than the context and the host had to offer.
-/

namespace Stencil

namespace Context

/-- The frames and their bindings are the same, but some serial numbers may have been used up. -/
structure AgesTo (context after : Context) : Prop where
  identity : after.identity = context.identity
  root : after.root = context.root
  frames : after.frames = context.frames
  nextSerial : context.nextSerial ≤ after.nextSerial

/-- All macros bound in the context have a scope of this kind. -/
structure Within (Holds : ScopeHandle → Prop) (context : Context) : Prop where
  root : Table.Within Holds context.root
  frames : ∀ frame ∈ context.frames, Table.Within Holds frame.bindings

variable {context after : Context} {Holds Holds' : ScopeHandle → Prop}

theorem AgesTo.refl (context : Context) : context.AgesTo context :=
  ⟨rfl, rfl, rfl, le_rfl⟩

/-- The current frame is still the current one. -/
theorem AgesTo.current (hages : context.AgesTo after) : after.current = context.current := by
  unfold Context.current currentIndex currentSerial
  rw [hages.identity, hages.frames]

/-- All names mean what they meant before. -/
theorem AgesTo.get? (hages : context.AgesTo after) (name : String) :
    after.get? name = context.get? name := by
  rw [get?_eq_valueFrom?, get?_eq_valueFrom?, hages.root, currentIndex, currentIndex, hages.frames]

/-- The same handles are live: no frame has gone, and those that came have gone again. -/
theorem AgesTo.isLive (hages : context.AgesTo after) (handle : ScopeHandle) :
    after.isLive handle = context.isLive handle := by
  unfold Context.isLive serialAt?
  rw [hages.identity, hages.frames]

/-- What was above a context is gone again. -/
theorem AgesTo.of_pushBound {parent : Nat} {bindings : Table Value}
    (hages : (context.pushBound parent bindings).AgesTo after) : context.AgesTo after.pop where
  identity := hages.identity
  root := hages.root
  frames := congrArg List.tail hages.frames
  nextSerial := (Nat.le_succ _).trans hages.nextSerial

theorem AgesTo.serials (hages : context.AgesTo after) : after.serials = context.serials := by
  rw [Context.serials, Context.serials, hages.frames]

/-- An evaluation leaves the stack as it is, which is one way to move it. -/
theorem AgesTo.moves {closing : Prop} (hages : context.AgesTo after) (hopen : ¬closing) :
    context.Moves closing after :=
  .stays hopen hages.identity hages.serials hages.nextSerial

theorem AgesTo.trans {last : Context} (hfirst : context.AgesTo after)
    (hsecond : after.AgesTo last) :
    context.AgesTo last where
  identity := hsecond.identity.trans hfirst.identity
  root := hsecond.root.trans hfirst.root
  frames := hsecond.frames.trans hfirst.frames
  nextSerial := hfirst.nextSerial.trans hsecond.nextSerial

/-- Nothing new is bound, so no new handles are held. -/
theorem AgesTo.within (hages : context.AgesTo after) (hwithin : context.Within Holds) :
    after.Within Holds where
  root := hages.root ▸ hwithin.root
  frames := hages.frames ▸ hwithin.frames

theorem within_true (context : Context) : context.Within fun _ => True where
  root _ _ _ _ := trivial
  frames _ _ _ _ _ _ := trivial

/-- To hold handles of a kind is a property of all values that are bound. -/
theorem within_iff_all : context.Within Holds ↔ context.All (Value.Within Holds) :=
  ⟨fun hwithin => ⟨hwithin.root, hwithin.frames⟩, fun hall => ⟨hall.root, hall.frames⟩⟩

theorem Within.imp (hwithin : context.Within Holds)
    (himp : ∀ handle, Holds handle → Holds' handle) :
    context.Within Holds' :=
  within_iff_all.2 ((within_iff_all.1 hwithin).imp fun _ hvalue => hvalue.imp himp)

/-- A frame with bindings of the kind may be put on top. -/
theorem Within.pushBound (hwithin : context.Within Holds) (parent : Nat) {bindings : Table Value}
    (hbindings : Table.Within Holds bindings) :
    (context.pushBound parent bindings).Within Holds :=
  within_iff_all.2 ((within_iff_all.1 hwithin).pushBound parent hbindings)

theorem Within.push (hwithin : context.Within Holds) (parent : Nat) :
    (context.push parent).Within Holds :=
  hwithin.pushBound parent Table.within_nil

theorem Within.pop (hwithin : context.Within Holds) : context.pop.Within Holds :=
  within_iff_all.2 (within_iff_all.1 hwithin).pop

theorem Within.bindAt (hwithin : context.Within Holds) (index : Nat) (name : String) {value : Value}
    (hvalue : value.Within Holds) : (context.bindAt index name value).Within Holds :=
  within_iff_all.2 ((within_iff_all.1 hwithin).bindAt index name hvalue)

theorem Within.set (hwithin : context.Within Holds) (name : String) {value : Value}
    (hvalue : value.Within Holds) : (context.set name value).Within Holds :=
  within_iff_all.2 ((within_iff_all.1 hwithin).set name hvalue)

theorem Within.update (hwithin : context.Within Holds) {bindings : List (String × Value)}
    (hbindings : ∀ entry ∈ bindings, entry.2.Within Holds) :
    (context.update bindings).Within Holds :=
  within_iff_all.2 ((within_iff_all.1 hwithin).update hbindings)

theorem Within.bindingsAt (hwithin : context.Within Holds) (index : Nat) :
    Table.Within Holds (context.bindingsAt index) :=
  (within_iff_all.1 hwithin).bindingsAt index

/-- What is looked up is one of the values that are bound. -/
theorem Within.get? (hwithin : context.Within Holds) {name : String} {value : Value}
    (hvalue : context.get? name = some value) : value.Within Holds :=
  (within_iff_all.1 hwithin).get? hvalue

/-- A run against itself, in a context that has only aged since it stood at `start`. -/
def Restores (Holds : ScopeHandle → Prop) (start context context' : Context) : Prop :=
  context' = context ∧ start.AgesTo context ∧ start.Within Holds

end Context

/-- Nothing is required of scopes that may be any. -/
theorem Evaluator.keeps_true (evaluator : Evaluator) : evaluator.Keeps fun _ => True where
  functions _ _ _ _ _ := trivial
  filters _ _ _ _ _ _ _ _ _ := trivial

/-- Null holds no handle. -/
theorem Evaluator.keeps_bare (Holds : ScopeHandle → Prop) : Evaluator.bare.Keeps Holds where
  functions _ _ _ := Value.within_of_isPlain rfl
  filters _ _ hfilter := nomatch hfilter

namespace Evaluation

open Context

variable {evaluator : Evaluator} {Holds : ScopeHandle → Prop} {depth : Nat}
  {context after : Context}

/-- Every part of an evaluation leaves the context as it was, next to itself. -/
theorem lawful_restores (hkeeps : evaluator.Keeps Holds) (start : Context) :
    (Coupling.mk (Restores Holds start) Holds Eq).Lawful evaluator id where
  get? := by
    rintro _ context ⟨rfl, hages, hwithin⟩ name
    exact ⟨rfl, fun value hvalue => (hages.within hwithin).get? hvalue⟩
  keeps := hkeeps
  refl _ := rfl
  moved _ _ := rfl
  text _ := rfl

/-- A macro call opens a frame and closes it, and in between everything happens above the frames of
before. -/
theorem nests_restores : Nests (Restores Holds) Holds where
  isLive := by
    rintro start _ context ⟨rfl, -, -⟩ handle -
    rfl
  opened := by
    rintro start _ context ⟨rfl, hages, hwithin⟩ handle - - bound hbound
    refine ⟨context.pushBound handle.index bound,
      ⟨rfl, .refl _, (hages.within hwithin).pushBound _ hbound⟩, ?_⟩
    rintro _ after ⟨rfl, hafter, -⟩
    exact ⟨rfl, hages.trans hafter.of_pushBound, hwithin⟩

/-- What is coupled with itself restores its context, and its value is as it should be. -/
theorem restored_of_couples {α : Type} {good : α → Prop} {evaluation : Evaluation α}
    {result : Except Failure α} (hwithin : context.Within Holds)
    (hcouples : (Coupling.mk (Restores Holds context) Holds Eq).Couples good evaluation evaluation)
    (hrun : (ExceptT.run evaluation).run context = some (result, after)) :
    context.AgesTo after ∧ ∀ value, result = .ok value → good value := by
  have houtcome := hcouples ⟨rfl, .refl context, hwithin⟩
  dsimp only at houtcome
  rw [hrun] at houtcome
  cases houtcome with
  | done hresult hcontexts =>
    refine ⟨hcontexts.2.1, ?_⟩
    rintro value rfl
    cases hresult with
    | ok hvalue => exact hvalue

theorem couples_evaluateExpr_self (hkeeps : evaluator.Keeps Holds) (start : Context)
    (expr : Expr Token) :
    (Coupling.mk (Restores Holds start) Holds Eq).Couples (Value.Within Holds)
      (evaluateExpr evaluator depth expr) (evaluateExpr evaluator depth expr) :=
  couples_evaluateExpr (lawful_restores hkeeps) nests_restores depth start expr

/-- However an evaluation ends, its context is as it was but for the serial numbers that are used
up. -/
theorem agesTo_of_evaluateExpr {expr : Expr Token} {result : Except Failure Value}
    (hrun : (ExceptT.run (evaluateExpr evaluator depth expr)).run context = some (result, after)) :
    context.AgesTo after :=
  (restored_of_couples context.within_true
    (couples_evaluateExpr_self evaluator.keeps_true context expr) hrun).1

theorem agesTo_of_executeBody {written : String} {body : List (Node Token)}
    {output : String × Option Failure}
    (hrun : (executeBody evaluator depth written body).run context = some (output, after)) :
    context.AgesTo after := by
  have houtcome := tied_executeBody (lawful_restores evaluator.keeps_true) nests_restores depth
    context written body ⟨rfl, .refl context, context.within_true⟩
  rw [hrun] at houtcome
  cases houtcome with
  | done _ hcontexts => exact hcontexts.2.1

/-! ## Declared macros -/

theorem couples_ofRun {coupling : Coupling} {α : Type} {good : α → Prop} {run run' : Run α}
    (htied : Tied coupling.contexts (fun value value' => value = value' ∧ good value) run run') :
    coupling.Couples good (ofRun run) (ofRun run') := by
  have hlift (run : Run α) : ExceptT.run (ofRun run) = run >>= fun value => pure (.ok value) := by
    rw [ofRun, ExceptT.run_lift, map_eq_pure_bind]
  unfold Coupling.Couples
  rw [hlift, hlift]
  refine Tied.bind htied ?_
  rintro value _ ⟨rfl, hvalue⟩
  exact Tied.pure (.ok hvalue)

/-- A failure that is kept as a value holds no handle. -/
theorem couples_outcomeValue {coupling : Coupling} {evaluation : Evaluation Value}
    (hfailures : coupling.failures = Eq)
    (hcouples : coupling.Couples (Value.Within Holds) evaluation evaluation) :
    coupling.Couples (Value.Within Holds) (ofRun (outcomeValue evaluation))
      (ofRun (outcomeValue evaluation)) := by
  refine couples_ofRun (Tied.bind hcouples fun result result' hresult => ?_)
  cases hresult with
  | ok hvalue => exact Tied.pure ⟨rfl, hvalue⟩
  | error hfailure =>
    rw [hfailures] at hfailure
    subst hfailure
    exact Tied.pure ⟨rfl, Value.within_of_isPlain rfl⟩

/-- The defaults are evaluated one after the other, each in a restored context. -/
theorem couples_evaluateDefaults (hkeeps : evaluator.Keeps Holds) (start : Context) (name : String)
    (defaulted : List (String × Expr Token)) :
    (Coupling.mk (Restores Holds start) Holds Eq).Couples
      (fun values => ∀ entry ∈ values, entry.2.Within Holds)
      (evaluateDefaults evaluator depth name defaulted)
      (evaluateDefaults evaluator depth name defaulted) := by
  induction defaulted with
  | nil => exact Coupling.couples_pure nofun
  | cons default rest ih =>
    rw [evaluateDefaults]
    refine (couples_outcomeValue rfl
      (couples_evaluateExpr_self hkeeps start default.2)).bind fun value hvalue => ?_
    cases value with
    | error failure => exact Coupling.couples_throw rfl
    | _ => exact ih.bind fun values hvalues =>
        Coupling.couples_pure (List.forall_mem_cons.2 ⟨hvalue, hvalues⟩)

/-- A declared macro has the current frame as its scope and no other macros than the context. -/
theorem couples_closeMacro (hkeeps : evaluator.Keeps Holds) (start : Context) (identity : Nat)
    (definition : Macro Token) :
    (Coupling.mk (Restores Holds start) Holds Eq).Couples
      (fun value => ∃ signature, value = .procedure identity definition signature start.current ∧
        ∀ entry ∈ signature.defaulted, entry.2.Within Holds)
      (closeMacro evaluator depth identity definition)
      (closeMacro evaluator depth identity definition) := by
  refine (couples_evaluateDefaults hkeeps start definition.name definition.defaulted).bind
    fun defaulted hdefaulted => ?_
  rintro _ context ⟨rfl, hages, hwithin⟩
  have hcurrent : context.current = start.current := hages.current
  refine .done (.ok ⟨_, congrArg _ hcurrent, hdefaulted⟩) ⟨rfl, hages, hwithin⟩

/-- The defaults leave no trace in the frame that the macro captures. -/
theorem agesTo_of_closeMacro {identity : Nat} {definition : Macro Token}
    {result : Except Failure Value}
    (hrun : (ExceptT.run (closeMacro evaluator depth identity definition)).run context =
      some (result, after)) : context.AgesTo after :=
  (restored_of_couples context.within_true
    (couples_closeMacro evaluator.keeps_true context identity definition) hrun).1

/-- A macro holds the handle of the current frame and those of its defaults. -/
theorem within_of_closeMacro (hkeeps : evaluator.Keeps Holds) (hwithin : context.Within Holds)
    {identity : Nat} {definition : Macro Token} {value : Value}
    (hrun : (ExceptT.run (closeMacro evaluator depth identity definition)).run context =
      some (.ok value, after)) :
    ∃ signature, value = .procedure identity definition signature context.current ∧
      ∀ entry ∈ signature.defaulted, entry.2.Within Holds :=
  (restored_of_couples hwithin (couples_closeMacro hkeeps context identity definition) hrun).2
    value rfl

/-- A value is bound after its evaluation, and only if that has not failed. -/
theorem run_bind_define {α : Type} (closing : Evaluation Value) (key : String) (next : Value → α)
    (context : Context) :
    (ExceptT.run (do
        let value ← closing
        modifyThe Context fun context => context.define key value
        return next value : Evaluation α)).run context =
      ((ExceptT.run closing).run context).bind fun (result, last) =>
        match result with
        | .ok value => some (.ok (next value), last.define key value)
        | .error failure => some (.error failure, last) := by
  cases hclosing : (ExceptT.run closing).run context with
  | none => simp [hclosing]
  | some outcome =>
    obtain ⟨result, last⟩ := outcome
    cases result with
    | error failure => simp [hclosing]
    | ok value =>
      simp [hclosing]
      exact ⟨_, rfl, rfl⟩

/-- A declaration leaves its context as it was, or with the macro bound in the current frame. -/
theorem run_closeMacro_define {α : Type} {closing : Evaluation Value} {key : String}
    {next : Value → α} {result : Except Failure α}
    (hrun : (ExceptT.run (do
        let value ← closing
        modifyThe Context fun context => context.define key value
        return next value : Evaluation α)).run context = some (result, after)) :
    (∃ failure, (ExceptT.run closing).run context = some (.error failure, after)) ∨
      ∃ value last, (ExceptT.run closing).run context = some (.ok value, last) ∧
        after = last.define key value := by
  rw [run_bind_define] at hrun
  obtain ⟨⟨closed, last⟩, hclosing, hrest⟩ := Option.bind_eq_some_iff.1 hrun
  cases closed with
  | error failure =>
    cases hrest
    exact .inl ⟨failure, hclosing⟩
  | ok value =>
    cases hrest
    exact .inr ⟨value, last, hclosing, rfl⟩

/-- To declare a macro is to close it and then to bind it. -/
theorem declareMacro_eq (identity : Nat) (definition : Macro Token) :
    declareMacro evaluator depth identity definition = do
      let value ← closeMacro evaluator depth identity definition
      modifyThe Context fun context => context.define definition.name value
      return () := by
  simp [declareMacro]

end Evaluation

end Stencil
