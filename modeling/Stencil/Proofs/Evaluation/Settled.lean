import Stencil.Proofs.Evaluation.Outcomes
import Stencil.Proofs.Evaluation.Repetition

/-!
# Evaluation over plain data

Where only data is bound, no value of an expression can be called.  Without macros an evaluation
always has an outcome, however deep calls may nest, and it leaves its context exactly as it is; and
whatever goes wrong goes wrong in the expression itself.
-/

namespace Stencil

namespace Value

/-- The value holds neither a callable nor a failure, however deep. -/
inductive IsData : Value → Prop where
  | scalar {value} : value.isScalar → IsData value
  | list {items} : (∀ item ∈ items, IsData item) → IsData (.list items)
  | map {entries} : (∀ entry ∈ entries, IsData entry.2) → IsData (.map entries)

theorem hereditary_isData : Hereditary IsData where
  scalar _ := .scalar
  list items := by
    refine ⟨fun hdata => ?_, .list⟩
    cases hdata with
    | scalar hscalar => cases hscalar
    | list hitems => exact hitems
  map entries := by
    refine ⟨fun hdata => ?_, .map⟩
    cases hdata with
    | scalar hscalar => cases hscalar
    | map hentries => exact hentries

end Value

/-- A failure of an expression by itself, in which neither a macro nor a text to be parsed has a
part. -/
inductive Failure.IsDirect : Failure → Prop where
  | unknownFilter {name} : IsDirect (.unknownFilter name)
  | unknownTest {name} : IsDirect (.unknownTest name)
  | evaluation {fault line column} : IsDirect (.evaluation fault line column)

namespace Evaluation

open Value (IsData)

variable {α β : Type} {context : Context} {good : α → Prop} {good' : β → Prop}

/-- The result is a value of a kind or a failure of the expression itself. -/
inductive Settled (good : α → Prop) : Except Failure α → Prop where
  | ok {value} : good value → Settled good (.ok value)
  | error {failure} : failure.IsDirect → Settled good (.error failure)

/-- In this context the evaluation has an outcome, and it leaves the context as it is. -/
def Settles (context : Context) (good : α → Prop) (evaluation : Evaluation α) : Prop :=
  ∃ result, (ExceptT.run evaluation).run context = some (result, context) ∧ Settled good result

theorem settles_pure {value : α} (hvalue : good value) : Settles context good (pure value) :=
  ⟨.ok value, rfl, .ok hvalue⟩

theorem settles_throw {failure : Failure} (hfailure : failure.IsDirect) :
    Settles context good (throw failure) :=
  ⟨.error failure, rfl, .error hfailure⟩

theorem Settles.bind {first : Evaluation α} {next : α → Evaluation β}
    (hfirst : Settles context good first)
    (hnext : ∀ value, good value → Settles context good' (next value)) :
    Settles context good' (first >>= next) := by
  obtain ⟨result, hrun, hsettled⟩ := hfirst
  rw [Settles, run_bind_eq, hrun]
  cases hsettled with
  | ok hvalue => exact hnext _ hvalue
  | error hfailure => exact ⟨_, rfl, .error hfailure⟩

theorem settles_raise (token : Token) (fault : EvaluationFault) :
    Settles context good (raise token fault) :=
  settles_throw .evaluation

theorem settles_ofOperator {token : Token} {result : Except OperatorFault Value}
    (hresult : ∀ value, result = .ok value → IsData value) :
    Settles context IsData (ofOperator token result) := by
  cases result with
  | ok value => exact settles_pure (hresult value rfl)
  | error fault => exact settles_raise token _

theorem settles_checked {value : Value} (hvalue : value.IsData) :
    Settles context IsData (checked value) := by
  cases value with
  | error failure =>
    cases hvalue with
    | scalar hscalar => cases hscalar
  | _ => exact settles_pure hvalue

theorem settles_lookUp (hcontext : context.All IsData) (name : String) :
    Settles context IsData (lookUp name) := by
  refine settles_checked (Value.hereditary_isData.getD_null fun value hvalue => ?_)
  exact hcontext.get? hvalue

/-! ## Expressions -/

section

variable {invoke : MacroCall → Evaluation Value}

/-- Without a callable there is no call. -/
theorem settles_apply (token : Token) {callee : Value} (arguments : Arguments)
    (hcallee : callee.IsData) :
    Settles context IsData (apply .bare invoke token callee arguments) := by
  cases callee with
  | function | procedure =>
    cases hcallee with
    | scalar hscalar => cases hscalar
  | _ => exact settles_raise token _

/-- The evaluation of an expression settles on data. -/
def SettlesExpr (invoke : MacroCall → Evaluation Value) (context : Context) (expr : Expr Token) :
    Prop :=
  Settles context IsData (evaluate .bare invoke expr)

theorem settles_evaluateItems {items : List (Expr Token)}
    (hitems : ∀ item ∈ items, SettlesExpr invoke context item) :
    Settles context (fun values => ∀ value ∈ values, IsData value)
      (evaluateItems .bare invoke items) := by
  induction items with
  | nil => exact settles_pure nofun
  | cons item items ih =>
    rw [List.forall_mem_cons] at hitems
    rw [evaluateItems]
    refine hitems.1.bind fun value hvalue => (ih hitems.2).bind fun values hvalues => ?_
    exact settles_pure (List.forall_mem_cons.2 ⟨hvalue, hvalues⟩)

theorem settles_evaluateOption (option : Option (Expr Token))
    (hoption : ∀ expr ∈ option, SettlesExpr invoke context expr) :
    Settles context (fun value? => ∀ value ∈ value?, IsData value)
      (evaluateOption .bare invoke option) := by
  cases option with
  | none => exact settles_pure nofun
  | some expr =>
    rw [evaluateOption]
    refine (hoption expr rfl).bind fun value hvalue => settles_pure ?_
    rintro _ ⟨⟩
    exact hvalue

theorem settles_evaluatePairs {pairs : List (Expr Token × Expr Token)} {table : Table Value}
    (hpairs : ∀ pair ∈ pairs,
      SettlesExpr invoke context pair.1 ∧ SettlesExpr invoke context pair.2)
    (htable : Table.All IsData table) :
    Settles context (Table.All IsData) (evaluatePairs .bare invoke pairs table) := by
  induction pairs generalizing table with
  | nil => exact settles_pure htable
  | cons pair pairs ih =>
    rw [List.forall_mem_cons] at hpairs
    obtain ⟨⟨hkey, hvalue⟩, hrest⟩ := hpairs
    rw [evaluatePairs]
    exact hkey.bind fun key _ => hvalue.bind fun value hdata => ih hrest (htable.insert _ hdata)

theorem settles_evaluateNamed {named : List (String × Expr Token)} {arguments : Arguments}
    (hnamed : ∀ value ∈ named.map Prod.snd, SettlesExpr invoke context value)
    (harguments : arguments.All IsData) :
    Settles context (Arguments.All IsData) (evaluateNamed .bare invoke named arguments) := by
  induction named generalizing arguments with
  | nil => exact settles_pure harguments
  | cons argument named ih =>
    rw [List.map_cons, List.forall_mem_cons] at hnamed
    rw [evaluateNamed]
    exact hnamed.1.bind fun value hvalue =>
      ih hnamed.2 (harguments.addNamed (List.forall_mem_singleton.2 hvalue))

/-- A spread argument has no value of its own, so it is its operand that settles. -/
theorem settles_evaluatePositional {items : List (Expr Token)} {arguments : Arguments}
    (hitems : ∀ item ∈ items, item.Everywhere (SettlesExpr invoke context))
    (harguments : arguments.All IsData) :
    Settles context (Arguments.All IsData)
      (evaluatePositional .bare invoke items arguments) := by
  induction items generalizing arguments with
  | nil => exact settles_pure harguments
  | cons item rest ih =>
    rw [List.forall_mem_cons] at hitems
    obtain ⟨hitem, hrest⟩ := hitems
    cases item with
    | spread token operand =>
      rw [evaluatePositional]
      refine (hitem.child (List.mem_singleton.2 rfl)).root.bind fun value hvalue => ?_
      cases value with
      | list values =>
        exact ih hrest (harguments.addPositional ((Value.hereditary_isData.list _).1 hvalue))
      | _ => exact settles_raise token _
    | namedSpread token operand =>
      rw [evaluatePositional]
      refine (hitem.child (List.mem_singleton.2 rfl)).root.bind fun value hvalue => ?_
      cases value with
      | map entries =>
        exact ih hrest (harguments.addNamed ((Value.hereditary_isData.map _).1 hvalue))
      | _ => exact settles_raise token _
    | _ =>
      rw [evaluatePositional_cons rfl]
      refine hitem.root.bind fun value hvalue => ih hrest (harguments.addPositional ?_)
      simpa using hvalue

theorem settles_evaluate_binary {token : Token} {op : BinaryOp} {left right : Expr Token}
    (hleft : SettlesExpr invoke context left) (hright : SettlesExpr invoke context right) :
    SettlesExpr invoke context (.binary token op left right) := by
  rw [SettlesExpr, evaluate]
  refine hleft.bind fun value hvalue => ?_
  cases op with
  | and =>
    dsimp only
    split
    · exact hright
    · exact settles_pure hvalue
  | or =>
    dsimp only
    split
    · exact settles_pure hvalue
    · exact hright
  | _ =>
    exact hright.bind fun other hother => settles_ofOperator fun _ hresult =>
      Value.hereditary_isData.binary hvalue hother hresult

/-- What settles at every node below an expression settles at the expression. -/
theorem settlesExpr_of_children (hcontext : context.All IsData) (expr : Expr Token)
    (hchildren : ∀ child ∈ expr.children, child.Everywhere (SettlesExpr invoke context)) :
    SettlesExpr invoke context expr := by
  have hgood := Value.hereditary_isData
  have hroots (child : Expr Token) (hchild : child ∈ expr.children) :
      SettlesExpr invoke context child :=
    (hchildren child hchild).root
  cases expr with
  | integer | float | string | bool =>
    rw [SettlesExpr, evaluate]
    exact settles_pure (hgood.scalar _ rfl)
  | name token name =>
    rw [SettlesExpr, evaluate]
    exact settles_lookUp hcontext name
  | list token items | tuple token items =>
    rw [SettlesExpr, evaluate]
    exact (settles_evaluateItems hroots).bind fun values hvalues =>
      settles_pure ((hgood.list _).2 hvalues)
  | dict token pairs =>
    rw [SettlesExpr, evaluate]
    have hpairs := settles_evaluatePairs (fun pair hpair =>
      (Expr.mem_children_dict hpair).imp (hroots _) (hroots _)) Table.all_nil
    exact hpairs.bind fun table htable => settles_pure ((hgood.map _).2 htable)
  | member token subject selector =>
    rw [SettlesExpr, evaluate]
    exact (hroots subject (by simp [Expr.children])).bind fun value hvalue =>
      settles_ofOperator fun _ hresult => hgood.select hvalue hresult
  | subscript token subject key =>
    rw [SettlesExpr, evaluate]
    exact (hroots subject (by simp [Expr.children])).bind fun value hvalue =>
      (hroots key (by simp [Expr.children])).bind fun key _ =>
        settles_ofOperator fun _ hresult => hgood.subscript hvalue hresult
  | slice token subject start stop =>
    rw [SettlesExpr, evaluate]
    have hstart := settles_evaluateOption start fun expr hexpr => hroots expr (by
      simp [Expr.children, Option.mem_def.1 hexpr])
    have hstop := settles_evaluateOption stop fun expr hexpr => hroots expr (by
      simp [Expr.children, Option.mem_def.1 hexpr])
    exact (hroots subject (by simp [Expr.children])).bind fun value hvalue =>
      hstart.bind fun _ _ => hstop.bind fun _ _ =>
        settles_ofOperator fun _ hresult => hgood.slice hvalue hresult
  | call token callee positional named =>
    rw [SettlesExpr, evaluate]
    obtain ⟨hpositional, hnamed⟩ :=
      List.forall_mem_append.1 (List.forall_mem_cons.1 hchildren).2
    exact (hroots callee (by simp [Expr.children])).bind fun callee hcallee =>
      (settles_evaluatePositional hpositional Arguments.all_empty).bind fun _ hgiven =>
        (settles_evaluateNamed (fun value hvalue => (hnamed value hvalue).root) hgiven).bind
          fun arguments _ => settles_apply token arguments hcallee
  | binary token op left right =>
    exact settles_evaluate_binary (hroots left (by simp [Expr.children]))
      (hroots right (by simp [Expr.children]))
  | negation token operand =>
    rw [SettlesExpr, evaluate]
    exact (hroots operand (by simp [Expr.children])).bind fun value _ =>
      settles_pure (hgood.scalar _ rfl)
  | signed token sign operand =>
    rw [SettlesExpr, evaluate]
    exact (hroots operand (by simp [Expr.children])).bind fun value _ =>
      settles_ofOperator fun _ hresult => hgood.applySign hresult
  | test =>
    rw [SettlesExpr, evaluate]
    exact settles_throw .unknownTest
  | filter =>
    rw [SettlesExpr, evaluate]
    exact settles_throw .unknownFilter
  | conditional token condition consequent alternative =>
    rw [SettlesExpr, evaluate]
    refine (hroots condition (by simp [Expr.children])).bind fun value _ => ?_
    split
    · exact hroots consequent (by simp [Expr.children])
    · have halternative := settles_evaluateOption alternative fun expr hexpr => hroots expr (by
        simp [Expr.children, Option.mem_def.1 hexpr])
      exact halternative.bind fun value? hvalue => settles_pure (hgood.getD_null hvalue)
  | spread token operand | namedSpread token operand =>
    rw [SettlesExpr, evaluate]
    exact settles_raise token _

theorem settles_evaluate (hcontext : context.All IsData) (expr : Expr Token) :
    Settles context IsData (evaluate .bare invoke expr) :=
  (Expr.everywhere_of_children (settlesExpr_of_children hcontext) expr).root

/-! ## Bodies -/

/-- The body of a template is written up to its end or up to a failure of one of its expressions. -/
theorem exists_run_execute (hcontext : context.All IsData) (written : String)
    (body : List (Node Token)) :
    ∃ text failure?, (execute .bare invoke written body).run context =
      some ((text, failure?), context) ∧ ∀ failure ∈ failure?, failure.IsDirect := by
  induction body generalizing written with
  | nil => exact ⟨written, none, rfl, nofun⟩
  | cons node rest ih =>
    cases node with
    | text content => exact ih _
    | output expr =>
      obtain ⟨result, hrun, hsettled⟩ : Settles context IsData (evaluate .bare invoke expr) :=
        settles_evaluate hcontext expr
      have hoperand : (outcome (evaluate .bare invoke expr)).run context =
          some (result, context) := hrun
      rw [execute, StateT.run_bind, hoperand]
      cases hsettled with
      | ok _ => exact ih _
      | error hfailure =>
        refine ⟨written, _, rfl, ?_⟩
        rintro _ ⟨⟩
        exact hfailure

end

variable (depth : Nat)

/-- An expression has an outcome whatever calls may be open. -/
theorem settles_evaluateExpr (hcontext : context.All IsData) (expr : Expr Token) :
    Settles context IsData (evaluateExpr .bare depth expr) :=
  settles_evaluate hcontext expr

theorem settles_renderBody (hcontext : context.All IsData) (body : List (Node Token)) :
    Settles context (fun _ => True) (renderBody .bare depth body) := by
  obtain ⟨text, failure?, hbody, hfailure⟩ : ∃ text failure?,
      (executeBody .bare depth "" body).run context = some ((text, failure?), context) ∧
        ∀ failure ∈ failure?, failure.IsDirect :=
    exists_run_execute hcontext "" body
  refine ⟨rendered (text, failure?), by rw [run_renderBody, hbody]; rfl, ?_⟩
  cases failure? with
  | none => exact .ok trivial
  | some failure => exact .error (hfailure failure rfl)

end Evaluation

end Stencil
