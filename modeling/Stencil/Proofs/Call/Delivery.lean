import Stencil.Proofs.Call.Binding
import Stencil.Proofs.Evaluation.Outcomes
import Stencil.Proofs.Evaluation.Calls

/-!
# Delivery of arguments

The frame in which the body of a macro runs binds every parameter to what the call has for it, or to
the value that the default had where the macro was declared.  The two names that are kept for
surplus arguments are the exception: once the body looks one of them up, it is bound to what is left
over, even if a parameter has that name.
-/

namespace Stencil

/-- The names of the parameters in the order of their positions. -/
def Macro.parameters {Mark : Type} (definition : Macro Mark) : List String :=
  definition.required ++ definition.defaulted.map Prod.fst

namespace Evaluation

variable {evaluator : Evaluator} {depth identity : Nat} {definition : Macro Token}
  {signature : Signature Value} {scope : ScopeHandle} {declared after context : Context}

/-! ## Declarations -/

/-- The values that some defaults have if they are evaluated one after the other. -/
inductive Defaults (evaluator : Evaluator) (depth : Nat) :
    Context → List (String × Expr Token) → List (String × Value) → Context → Prop where
  | nil {start} : Defaults evaluator depth start [] [] start
  | cons {start between last parameter default value rest values} :
      (ExceptT.run (evaluateExpr evaluator depth default)).run start = some (.ok value, between) →
      Defaults evaluator depth between rest values last →
      Defaults evaluator depth start ((parameter, default) :: rest) ((parameter, value) :: values)
        last

theorem Defaults.names {defaulted : List (String × Expr Token)} {values : List (String × Value)}
    (hdefaults : Defaults evaluator depth context defaulted values after) :
    values.map Prod.fst = defaulted.map Prod.fst := by
  induction hdefaults with
  | nil => rfl
  | cons _ _ ih => exact congrArg _ ih

theorem defaults_of_evaluateDefaults {name : String} {defaulted : List (String × Expr Token)}
    {values : List (String × Value)}
    (hrun : (ExceptT.run (evaluateDefaults evaluator depth name defaulted)).run context =
      some (.ok values, after)) :
    Defaults evaluator depth context defaulted values after := by
  induction defaulted generalizing context values with
  | nil =>
    cases hrun
    exact .nil
  | cons first rest ih =>
    rw [evaluateDefaults, run_bind_eq_ok] at hrun
    obtain ⟨value, between, hvalue, hrest⟩ := hrun
    have hothers : (∀ failure, value ≠ .error failure) ∧
        ∃ others, (ExceptT.run (evaluateDefaults evaluator depth name rest)).run between =
          some (.ok others, after) ∧ values = (first.1, value) :: others := by
      cases value with
      | error failure => cases hrest
      | _ =>
        obtain ⟨others, last, hothers, hvalues⟩ := run_bind_eq_ok.1 hrest
        obtain ⟨rfl, rfl⟩ := run_pure_eq_ok.1 hvalues
        exact ⟨nofun, others, hothers, rfl⟩
    obtain ⟨hnoError, others, hothers, rfl⟩ := hothers
    exact .cons (run_eq_ok_of_outcomeValue hvalue hnoError) (ih hothers)

/-- What a declaration puts into the signature of a macro. -/
theorem signature_of_closeMacro
    (hrun : (ExceptT.run (closeMacro evaluator depth identity definition)).run declared =
      some (.ok (.procedure identity definition signature scope), after)) :
    ∃ defaults, Defaults evaluator depth declared definition.defaulted defaults after ∧
      signature = ⟨definition.required, defaults, definition.references surplusPositional,
        definition.references surplusNamed⟩ := by
  obtain ⟨defaults, between, hdefaults, hrest⟩ := run_bind_eq_ok.1 hrun
  cases hrest
  exact ⟨defaults, defaults_of_evaluateDefaults hdefaults, rfl⟩

/-! ## Calls -/

variable {arguments : Arguments} {bound : Table Value}

/-- A call that binds runs the body in a frame in which every parameter is bound: to its named
argument, else to the positional one at its position, else to its default as the declaration has
evaluated it.  A parameter under a name that is kept for surplus arguments is bound to these as soon
as the body looks that name up. -/
theorem call_delivers_arguments
    (hdeclared : (ExceptT.run (closeMacro evaluator depth identity definition)).run declared =
      some (.ok (.procedure identity definition signature scope), after))
    (hdistinct : definition.parameters.Nodup) (hnamed : arguments.named.Ordered)
    (hlive : context.isLive scope) (hbind : signature.bind arguments = .ok bound) (calls : Nat) :
    ∃ defaults, Defaults evaluator depth declared definition.defaulted defaults after ∧
      signature = ⟨definition.required, defaults, definition.references surplusPositional,
        definition.references surplusNamed⟩ ∧
      ∃ inner : Context,
        (ExceptT.run (invoke evaluator (calls + 1) ⟨definition, signature, scope, arguments⟩)).run
            context =
          ((executeBody evaluator calls "" definition.body).run inner).map
            (fun (output, last) => (bodyResult definition output, last.pop)) ∧
        ∀ index name, definition.parameters[index]? = some name →
          ∃ value, Table.get? name inner.locals = some value ∧
            signature.Delivers arguments index name value := by
  obtain ⟨defaults, hdefaults, hsignature⟩ := signature_of_closeMacro hdeclared
  have hparameters : signature.parameters = definition.parameters := by
    rw [hsignature, Signature.parameters, hdefaults.names, Macro.parameters]
  refine ⟨defaults, hdefaults, hsignature, context.pushBound scope.index (Table.ofList bound), ?_,
    fun index name hname => ?_⟩
  · refine (run_callMacro (invoke evaluator calls) ⟨definition, signature, scope, arguments⟩
      context).trans ?_
    dsimp only
    rw [if_pos hlive, hbind]
    rfl
  · have hlocals : (context.pushBound scope.index (Table.ofList bound)).locals =
        Table.ofList bound := by
      simp [Context.locals, Context.bindingsAt, Context.pushBound, Context.currentIndex]
    rw [hlocals, Table.get?_ofList (Signature.ordered_bind hbind).nodup_names]
    rw [← hparameters] at hdistinct hname
    exact Signature.exists_delivers_of_bind hdistinct hnamed hbind hname

/-- A macro that writes its parameters, one of which has a default. -/
def greeting : Macro Token where
  name := "greet"
  required := ["who"]
  defaulted := [("mark", .string ⟨.string, "!", ⟨0, 1, 1, 1⟩⟩ "!")]
  body := [.output (.name ⟨.name, "who", ⟨0, 3, 1, 1⟩⟩ "who"),
    .output (.name ⟨.name, "mark", ⟨0, 4, 1, 1⟩⟩ "mark")]

/-- The signature of that macro. -/
def greetingSignature : Signature Value :=
  ⟨["who"], [("mark", .string "!")], false, false⟩

theorem call_delivers_arguments_greeting : ∃ inner : Context,
    (ExceptT.run (invoke .bare 1 ⟨greeting, greetingSignature, ⟨0, 0, 0⟩,
        ⟨[.string "you"], []⟩⟩)).run (Context.ofBindings 0 []) =
      ((executeBody .bare 0 "" greeting.body).run inner).map
        (fun (output, last) => (bodyResult greeting output, last.pop)) ∧
    Table.get? "who" inner.locals = some (.string "you") ∧
    Table.get? "mark" inner.locals = some (.string "!") := by
  have hdeclared : (ExceptT.run (closeMacro .bare 0 0 greeting)).run (Context.ofBindings 0 []) =
      some (.ok (.procedure 0 greeting greetingSignature ⟨0, 0, 0⟩), Context.ofBindings 0 []) :=
    rfl
  have hbind : greetingSignature.bind ⟨[.string "you"], []⟩ =
      .ok [("mark", .string "!"), ("who", .string "you")] := rfl
  have hlive : (Context.ofBindings 0 []).isLive ⟨0, 0, 0⟩ := rfl
  obtain ⟨_, _, _, inner, hcall, hparameters⟩ :=
    call_delivers_arguments hdeclared (by decide) Table.ordered_nil hlive hbind 0
  have hcollects (name : String) : ¬ greetingSignature.Collects name := by
    simp [Signature.Collects, greetingSignature]
  refine ⟨inner, hcall, ?_, ?_⟩
  · obtain ⟨value, hvalue, hdelivers⟩ := hparameters 0 "who" rfl
    rw [hvalue, ← hdelivers.valueFor?_eq (hcollects "who")]
    rfl
  · obtain ⟨value, hvalue, hdelivers⟩ := hparameters 1 "mark" rfl
    rw [hvalue, ← hdelivers.valueFor?_eq (hcollects "mark")]
    rfl

/-- A macro whose one parameter has a name that is kept for surplus arguments. -/
def reserved : Macro Token where
  name := "m"
  required := [surplusPositional]
  defaulted := []
  body := [.output (.name ⟨.name, "varargs", ⟨0, 7, 1, 1⟩⟩ surplusPositional)]

/-- Not every call delivers the arguments that it supplies: here the one argument is gone. -/
theorem not_call_delivers_reserved_parameter :
    ¬ ∀ (evaluator : Evaluator) (depth identity : Nat) (definition : Macro Token)
        (signature : Signature Value) (scope : ScopeHandle) (declared after context : Context)
        (arguments : Arguments) (bound : Table Value),
      (ExceptT.run (closeMacro evaluator depth identity definition)).run declared =
        some (.ok (.procedure identity definition signature scope), after) →
      definition.parameters.Nodup → arguments.named.Ordered → context.isLive scope →
      signature.bind arguments = .ok bound →
      ∀ index name, definition.parameters[index]? = some name →
        Table.get? name (context.pushBound scope.index (Table.ofList bound)).locals =
          signature.valueFor? arguments index name := by
  intro hdelivers
  have hlost := hdelivers .bare 0 0 reserved ⟨[surplusPositional], [], true, false⟩ ⟨0, 0, 0⟩
    (Context.ofBindings 0 []) (Context.ofBindings 0 []) (Context.ofBindings 0 [])
    ⟨[.integer 1], []⟩ [(surplusPositional, .list [])] rfl (by decide) Table.ordered_nil rfl rfl 0
    surplusPositional rfl
  cases hlost

end Evaluation

end Stencil
