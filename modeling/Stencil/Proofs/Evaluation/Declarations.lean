import Stencil.Proofs.Evaluation.Outcomes
import Stencil.Proofs.Evaluation.Repetition
import Stencil.Proofs.Scope.Assignments

/-!
# Declarations

A declaration evaluates the defaults of a macro one after the other.  No default sees anything of
those before it, so that each has the value which it has in the context as it was; if one of them
fails, nothing is declared, and if none does, one name is bound.
-/

namespace Stencil

namespace Evaluation

open Context

variable {evaluator : Evaluator} {depth identity : Nat} {definition : Macro Token} {name : String}
  {defaulted : List (String × Expr Token)} {expr : Expr Token} {value : Value}
  {context start after : Context}

/-! ## Values of defaults -/

/-- The expression has this value in the context, where a failure counts as a value. -/
def HasValue (evaluator : Evaluator) (depth : Nat) (context : Context) (expr : Expr Token)
    (value : Value) : Prop :=
  ((outcomeValue (evaluateExpr evaluator depth expr)).run context).map Prod.fst = some value

/-- The first default that fails in the context, with the parameter that it belongs to. -/
inductive FirstFails (evaluator : Evaluator) (depth : Nat) (context : Context) :
    List (String × Expr Token) → String → Failure → Prop where
  | here {parameter default rest cause} :
      HasValue evaluator depth context default (.error cause) →
      FirstFails evaluator depth context ((parameter, default) :: rest) parameter cause
  | later {other default value rest parameter cause} :
      HasValue evaluator depth context default value → value.isError = false →
      FirstFails evaluator depth context rest parameter cause →
      FirstFails evaluator depth context ((other, default) :: rest) parameter cause

/-- The default of a parameter, and what is stored for it: its value in the context. -/
structure Stores (evaluator : Evaluator) (depth : Nat) (context : Context)
    (default : String × Expr Token) (stored : String × Value) : Prop where
  name : stored.1 = default.1
  value : HasValue evaluator depth context default.2 stored.2
  isError : stored.2.isError = false

/-- What an evaluation comes to behind others is what it comes to in the context as it was. -/
theorem hasValue_of_run (hkeeps : evaluator.Keeps context.Past)
    (hwithin : context.Within context.Past) (hages : context.AgesTo start)
    (hrun : (outcomeValue (evaluateExpr evaluator depth expr)).run start = some (value, after)) :
    HasValue evaluator depth context expr value ∧ context.AgesTo after := by
  rw [run_outcomeValue] at hrun
  obtain ⟨⟨result, last⟩, hresult, hlast⟩ := Option.map_eq_some_iff.1 hrun
  cases hlast
  have hagain : ((ExceptT.run (evaluateExpr evaluator depth expr)).run start).map Prod.fst =
      ((ExceptT.run (evaluateExpr evaluator depth expr)).run context).map Prod.fst :=
    evaluateExpr_again hkeeps hwithin hages expr
  rw [hresult, Option.map_some] at hagain
  obtain ⟨⟨result', after'⟩, hbefore, hsame⟩ := Option.map_eq_some_iff.1 hagain.symm
  obtain rfl : result' = result := hsame
  refine ⟨?_, hages.trans (agesTo_of_evaluateExpr hresult)⟩
  rw [HasValue, run_outcomeValue, hbefore]
  rfl

theorem run_evaluateDefaults_cons (parameter : String) (default : Expr Token)
    (rest : List (String × Expr Token)) (context : Context) :
    (ExceptT.run (evaluateDefaults evaluator depth name ((parameter, default) :: rest))).run
        context =
      ((outcomeValue (evaluateExpr evaluator depth default)).run context).bind
        fun (value, between) =>
          match value with
          | .error cause => some (.error (.defaultValue name parameter cause), between)
          | value =>
            ((ExceptT.run (evaluateDefaults evaluator depth name rest)).run between).map
              fun (result, after) => (result.map fun values => (parameter, value) :: values, after)
    := by
  have hrest (value : Value) (between : Context) :
      (ExceptT.run (do
          let values ← evaluateDefaults evaluator depth name rest
          return (parameter, value) :: values)).run between =
        ((ExceptT.run (evaluateDefaults evaluator depth name rest)).run between).map
          fun (result, after) =>
            (result.map fun values => (parameter, value) :: values, after) := by
    rw [run_bind_eq]
    rcases (ExceptT.run (evaluateDefaults evaluator depth name rest)).run between with
      _ | ⟨_ | _, _⟩ <;> rfl
  rw [evaluateDefaults, run_bind_eq, run_ofRun, Option.bind_map]
  refine Option.bind_congr fun found _ => ?_
  obtain ⟨value, between⟩ := found
  cases value with
  | error cause => rfl
  | _ => exact hrest _ between

/-- Whatever becomes of the defaults, the context has only aged.  Either all of them are stored with
their values in the context as it was, or the first one that fails there is reported. -/
theorem evaluateDefaults_outcome (hkeeps : evaluator.Keeps context.Past)
    (hwithin : context.Within context.Past) (hages : context.AgesTo start)
    {result : Except Failure (List (String × Value))}
    (hrun : (ExceptT.run (evaluateDefaults evaluator depth name defaulted)).run start =
      some (result, after)) :
    context.AgesTo after ∧
      match result with
      | .ok values => List.Forall₂ (Stores evaluator depth context) defaulted values
      | .error failure => ∃ parameter cause, failure = .defaultValue name parameter cause ∧
          FirstFails evaluator depth context defaulted parameter cause := by
  induction defaulted generalizing start result after with
  | nil =>
    cases hrun
    exact ⟨hages, .nil⟩
  | cons first rest ih =>
    obtain ⟨parameter, default⟩ := first
    rw [run_evaluateDefaults_cons] at hrun
    obtain ⟨⟨value, between⟩, hvalue, hrest⟩ := Option.bind_eq_some_iff.1 hrun
    obtain ⟨hhas, hbetween⟩ := hasValue_of_run hkeeps hwithin hages hvalue
    cases herror : value.isError with
    | true =>
      obtain ⟨cause, rfl⟩ : ∃ cause, value = .error cause := by
        cases value with
        | error cause => exact ⟨cause, rfl⟩
        | _ => cases herror
      cases hrest
      exact ⟨hbetween, parameter, cause, rfl, .here hhas⟩
    | false =>
      have hmapped : ((ExceptT.run (evaluateDefaults evaluator depth name rest)).run between).map
          (fun (result, after) =>
            (result.map fun values => (parameter, value) :: values, after)) =
          some (result, after) := by
        cases value with
        | error cause => cases herror
        | _ => exact hrest
      obtain ⟨⟨others, last⟩, hothers, hlast⟩ := Option.map_eq_some_iff.1 hmapped
      obtain ⟨hafter, houtcome⟩ := ih hbetween hothers
      cases hlast
      refine ⟨hafter, ?_⟩
      cases others with
      | ok values => exact .cons ⟨rfl, hhas, herror⟩ houtcome
      | error failure =>
        obtain ⟨failing, cause, hfailure, hfirst⟩ := houtcome
        exact ⟨failing, cause, hfailure, .later hhas herror hfirst⟩

theorem run_declareMacro (context : Context) :
    (ExceptT.run (declareMacro evaluator depth identity definition)).run context =
      ((ExceptT.run (evaluateDefaults evaluator depth definition.name definition.defaulted)).run
        context).map fun (result, last) =>
          match result with
          | .ok defaults => (.ok (), last.define definition.name
              (.procedure identity definition ⟨definition.required, defaults,
                definition.references surplusPositional, definition.references surplusNamed⟩
                last.current))
          | .error failure => (.error failure, last) := by
  rw [declareMacro_eq, run_bind_define, closeMacro, run_bind_eq]
  rcases (ExceptT.run (evaluateDefaults evaluator depth definition.name definition.defaulted)).run
    context with _ | ⟨_ | _, _⟩ <;> rfl

end Evaluation

/-! ## What a declaration changes -/

namespace Context

variable {name : String} {value : Value} {context after : Context}

/-- One name is bound in the current frame, and nothing else has changed but that serial numbers may
have been used up. -/
structure BindsHere (context : Context) (name : String) (value : Value) (after : Context) :
    Prop where
  ages : (context.define name value).AgesTo after
  frames : context.SameFrames after
  bindings : ∀ index ≤ context.currentIndex, ∀ other,
    Table.get? other (after.bindingsAt index) =
      if index = context.currentIndex ∧ other = name then some value
      else Table.get? other (context.bindingsAt index)
  isLive : ∀ handle, after.isLive handle = context.isLive handle

theorem AgesTo.define (hages : context.AgesTo after) (name : String) (value : Value) :
    (context.define name value).AgesTo (after.define name value) := by
  rw [Context.define, Context.define, currentIndex, currentIndex, hages.frames, bindAt, bindAt]
  by_cases hroot : context.frames.length = 0
  · rw [if_pos hroot, if_pos hroot]
    exact ⟨hages.identity, congrArg (Table.insert name value) hages.root, hages.frames,
      hages.nextSerial⟩
  · rw [if_neg hroot, if_neg hroot]
    exact ⟨hages.identity, hages.root, congrArg (rebindAt _ name value) hages.frames,
      hages.nextSerial⟩

theorem isLive_eq_of_sameFrames (hframes : context.SameFrames after) (handle : ScopeHandle) :
    after.isLive handle = context.isLive handle := by
  rw [Bool.eq_iff_iff, isLive_iff, isLive_iff, hframes.identity, hframes.serials]

theorem AgesTo.bindsHere (hages : context.AgesTo after) (name : String) (value : Value) :
    context.BindsHere name value (after.define name value) := by
  have hdefine := hages.define name value
  have hframes : context.SameFrames (after.define name value) := by
    refine (context.sameFrames_bindAt context.currentIndex name value).trans
      ⟨hdefine.identity, hdefine.serials, fun index => ?_⟩
    rw [parentAt?, parentAt?, hdefine.frames]
    rfl
  refine ⟨hdefine, hframes, fun index hindex other => ?_, isLive_eq_of_sameFrames hframes⟩
  rw [← get?_bindingsAt_bindAt le_rfl hindex, bindingsAt, bindingsAt, hdefine.frames, hdefine.root]
  rfl

end Context

namespace Evaluation

variable {evaluator : Evaluator} {workspace : Workspace} {name : String} {context : Context}

/-- A macro is declared as a whole or not at all.  If the declaration fails, the context is as it
was, with all bindings, and the failure is that of the first parameter, in their order, whose default
fails in the context.  If it succeeds, the only change is that the name of the macro is bound in the
current frame, to a macro with that frame as its scope and with the values that its defaults have in
the context as it was; all live handles stay live. -/
theorem declaration_is_atomic (hreachable : workspace.Reachable)
    (hcontext : workspace.context? name = some context) (hkeeps : evaluator.Keeps context.Past)
    (depth identity : Nat) (definition : Macro Token) :
    (∀ failure after,
      (ExceptT.run (declareMacro evaluator depth identity definition)).run context =
        some (.error failure, after) →
      context.AgesTo after ∧ (∀ key, after.get? key = context.get? key) ∧
        (∀ handle, after.isLive handle = context.isLive handle) ∧
        ∃ parameter cause, failure = .defaultValue definition.name parameter cause ∧
          FirstFails evaluator depth context definition.defaulted parameter cause) ∧
    ∀ after,
      (ExceptT.run (declareMacro evaluator depth identity definition)).run context =
        some (.ok (), after) →
      ∃ defaults,
        List.Forall₂ (Stores evaluator depth context) definition.defaulted defaults ∧
        context.isLive context.current ∧
        context.BindsHere definition.name
          (.procedure identity definition ⟨definition.required, defaults,
            definition.references surplusPositional, definition.references surplusNamed⟩
            context.current) after := by
  have hdefaults {result last}
      (hrun : (ExceptT.run (evaluateDefaults evaluator depth definition.name
        definition.defaulted)).run context = some (result, last)) :=
    evaluateDefaults_outcome hkeeps (hreachable.within_past hcontext) (.refl context) hrun
  refine ⟨fun failure after hrun => ?_, fun after hrun => ?_⟩
  all_goals
    rw [run_declareMacro] at hrun
    obtain ⟨⟨_ | defaults, last⟩, hvalues, hlast⟩ := Option.map_eq_some_iff.1 hrun
  · cases hlast
    obtain ⟨hages, hfirst⟩ := hdefaults hvalues
    exact ⟨hages, hages.get?, hages.isLive, hfirst⟩
  · cases hlast
  · cases hlast
  · cases hlast
    obtain ⟨hages, hstored⟩ := hdefaults hvalues
    rw [hages.current]
    exact ⟨defaults, hstored, context.isLive_current, hages.bindsHere _ _⟩

/-- A macro of two defaults, the second of which fails. -/
def brokenMacro : Macro Token where
  name := "m"
  required := []
  defaulted := [("x", .name ⟨.name, "base", ⟨0, 4, 1, 1⟩⟩ "base"),
    ("y", .spread ⟨.mul, "*", ⟨0, 1, 1, 1⟩⟩ (.name ⟨.name, "base", ⟨1, 5, 1, 2⟩⟩ "base"))]
  body := []

/-- A macro of one parameter and one default, whose body asks for surplus named arguments. -/
def soundMacro : Macro Token where
  name := "m"
  required := ["a"]
  defaulted := [("x", .name ⟨.name, "base", ⟨0, 4, 1, 1⟩⟩ "base")]
  body := [.output (.name ⟨.name, "kwargs", ⟨3, 9, 1, 4⟩⟩ "kwargs")]

/-- Where the second default fails the name keeps what it was bound to; where no default fails it is
bound to the macro. -/
theorem declaration_is_atomic_either_way :
    let context := Context.ofBindings 0 [("base", .integer 1), ("m", .integer 5)]
    let cause : Failure := .evaluation (.misplacedSpread "*") 1 1
    (∃ after, (ExceptT.run (declareMacro .bare 0 0 brokenMacro)).run context =
        some (.error (.defaultValue "m" "y" cause), after) ∧
      after.get? "m" = some (.integer 5) ∧
      ∃ parameter cause', Failure.defaultValue "m" "y" cause = .defaultValue "m" parameter cause' ∧
        FirstFails .bare 0 context brokenMacro.defaulted parameter cause') ∧
    ∃ after defaults, (ExceptT.run (declareMacro .bare 0 0 soundMacro)).run context =
        some (.ok (), after) ∧
      List.Forall₂ (Stores .bare 0 context) soundMacro.defaulted defaults ∧
      context.BindsHere "m" (.procedure 0 soundMacro ⟨["a"], defaults, false, true⟩ ⟨0, 0, 0⟩)
        after := by
  intro context cause
  let workspace := Workspace.create (.empty .bare) "main" [("base", .integer 1), ("m", .integer 5)]
  have hreachable : workspace.Reachable :=
    .step (.create "main" [("base", .integer 1), ("m", .integer 5)]) (.empty .bare)
      (List.forall_mem_cons.2 ⟨Value.within_of_isPlain rfl,
        List.forall_mem_singleton.2 (Value.within_of_isPlain rfl)⟩) rfl
  have hcontext : workspace.context? "main" = some context := rfl
  have hkeeps : Evaluator.bare.Keeps context.Past := Evaluator.keeps_bare _
  constructor
  · obtain ⟨hfails, -⟩ := declaration_is_atomic hreachable hcontext hkeeps 0 0 brokenMacro
    obtain ⟨-, hbindings, -, hfirst⟩ := hfails (.defaultValue "m" "y" cause) context rfl
    exact ⟨context, rfl, hbindings "m", hfirst⟩
  · obtain ⟨-, hbinds⟩ := declaration_is_atomic hreachable hcontext hkeeps 0 0 soundMacro
    obtain ⟨defaults, hstored, -, hbound⟩ := hbinds _ rfl
    exact ⟨_, defaults, rfl, hstored, hbound⟩

end Evaluation

end Stencil
