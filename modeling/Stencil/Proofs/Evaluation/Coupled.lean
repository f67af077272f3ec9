import Stencil.Evaluation.Source
import Stencil.Proofs.Names
import Stencil.Proofs.Parts

/-!
# Coupled runs

Two runs of evaluations are held together step by step: they run in related contexts, end with the
same value or with related failures, and leave related contexts.  The values that come up may be
held to a property that they share with their parts.  What a coupling says about one name and one
call of a macro carries over to whole expressions and bodies.
-/

namespace Stencil

/-- The results of two runs are related, or neither has one. -/
inductive TiedOutcome {α β : Type} (contexts : Context → Context → Prop) (results : α → β → Prop) :
    Option (α × Context) → Option (β × Context) → Prop where
  | exhausted : TiedOutcome contexts results none none
  | done {result result' context context'} : results result result' → contexts context context' →
      TiedOutcome contexts results (some (result, context)) (some (result', context'))

/-- Run in related contexts, the two have related results and leave related contexts. -/
def Tied {α β : Type} (contexts : Context → Context → Prop) (results : α → β → Prop)
    (left : Run α) (right : Run β) : Prop :=
  ∀ ⦃context context'⦄, contexts context context' →
    TiedOutcome contexts results (left.run context) (right.run context')

namespace Tied

variable {α β γ δ : Type} {contexts : Context → Context → Prop} {results : α → β → Prop}
  {results' : γ → δ → Prop}

theorem pure {value : α} {value' : β} (hvalue : results value value') :
    Tied contexts results (pure value) (pure value') :=
  fun _ _ hcontexts => .done hvalue hcontexts

/-- One run after the other: tied results tie what comes next. -/
theorem bind {left : Run α} {right : Run β} {next : α → Run γ} {next' : β → Run δ}
    (hfirst : Tied contexts results left right)
    (hnext : ∀ value value', results value value' →
      Tied contexts results' (next value) (next' value')) :
    Tied contexts results' (left >>= next) (right >>= next') := by
  intro context context' hcontexts
  have hleft : (left >>= next).run context =
      (left.run context).bind fun (value, after) => (next value).run after := rfl
  have hright : (right >>= next').run context' =
      (right.run context').bind fun (value, after) => (next' value).run after := rfl
  rw [hleft, hright]
  generalize left.run context = first, right.run context' = first', hfirst hcontexts = houtcome
  cases houtcome with
  | exhausted => exact .exhausted
  | done hvalue hafter => exact hnext _ _ hvalue hafter

end Tied

/-- What holds two evaluations together: the contexts they run in, the scopes that the macros in
their values may have, and the failures they end with. -/
structure Coupling where
  contexts : Context → Context → Prop
  scopes : ScopeHandle → Prop
  failures : Failure → Failure → Prop

/-- The same result of a kind, or related failures. -/
inductive SameResult {α : Type} (failures : Failure → Failure → Prop) (good : α → Prop) :
    Except Failure α → Except Failure α → Prop where
  | ok {value} : good value → SameResult failures good (.ok value) (.ok value)
  | error {failure failure'} : failures failure failure' →
      SameResult failures good (.error failure) (.error failure')

namespace Coupling

variable {α β : Type} (coupling : Coupling)

/-- Two evaluations whose values are the same and of a kind. -/
def Couples (good : α → Prop) (left right : Evaluation α) : Prop :=
  Tied coupling.contexts (SameResult coupling.failures good) (ExceptT.run left) (ExceptT.run right)

variable {coupling} {good : α → Prop} {good' : β → Prop}

theorem couples_pure {value : α} (hvalue : good value) :
    coupling.Couples good (pure value) (pure value) :=
  Tied.pure (.ok hvalue)

theorem couples_throw {failure failure' : Failure} (hfailure : coupling.failures failure failure') :
    coupling.Couples good (throw failure) (throw failure') :=
  Tied.pure (.error hfailure)

/-- One evaluation after the other; what comes next may rely on the value being good. -/
theorem Couples.bind {left right : Evaluation α} {next next' : α → Evaluation β}
    (hfirst : coupling.Couples good left right)
    (hnext : ∀ value, good value → coupling.Couples good' (next value) (next' value)) :
    coupling.Couples good' (left >>= next) (right >>= next') := by
  refine Tied.bind hfirst fun result result' hresult => ?_
  cases hresult with
  | ok hvalue => exact hnext _ hvalue
  | error hfailure => exact Tied.pure (.error hfailure)

end Coupling

/-! ## What a coupling rests on -/

/-- The macro and the arguments of a call have a property. -/
structure MacroCall.All (good : Value → Prop) (call : MacroCall) : Prop where
  callee : ∃ identity, good (.procedure identity call.definition call.signature call.scope)
  arguments : call.arguments.All good

/-- What the host makes of values with a property has it too, or is a failure. -/
structure Evaluator.Yields (evaluator : Evaluator) (good : Value → Prop) : Prop where
  functions : ∀ host arguments, arguments.All good →
    good (evaluator.functions host arguments) ∨ (evaluator.functions host arguments).isError
  filters : ∀ name filter, evaluator.filters.get? name = some filter →
    ∀ value arguments, good value → arguments.All good →
      good (filter value arguments) ∨ (filter value arguments).isError

/-- Two hosts do the same with values that have a property. -/
structure Evaluator.Agrees (good : Value → Prop) (evaluator evaluator' : Evaluator) : Prop where
  functions : ∀ host arguments, arguments.All good →
    evaluator'.functions host arguments = evaluator.functions host arguments
  filters : ∀ name, Option.Rel (fun filter filter' => ∀ value arguments, good value →
      arguments.All good → filter' value arguments = filter value arguments)
    (evaluator.filters.get? name) (evaluator'.filters.get? name)
  tests : ∀ name, Option.Rel (fun test test' => ∀ value argument, good value →
      (∀ given ∈ argument, good given) → test' value argument = test value argument)
    (evaluator.tests.get? name) (evaluator'.tests.get? name)

theorem Evaluator.agrees_self (good : Value → Prop) (evaluator : Evaluator) :
    evaluator.Agrees good evaluator where
  functions _ _ _ := rfl
  filters name := by
    cases evaluator.filters.get? name with
    | none => exact .none
    | some filter => exact .some fun _ _ _ _ => rfl
  tests name := by
    cases evaluator.tests.get? name with
    | none => exact .none
    | some test => exact .some fun _ _ _ _ => rfl

/-- A coupling of expressions with the same ones under other marks, for values of a kind. -/
structure Coupling.Respects (coupling : Coupling) (good : Value → Prop)
    (evaluator evaluator' : Evaluator) (change : Token → Token) : Prop where
  hereditary : Value.Hereditary good
  yields : evaluator.Yields good
  agrees : evaluator.Agrees good evaluator'
  refl : ∀ failure, coupling.failures failure failure
  moved : ∀ fault token, coupling.failures
    (.evaluation fault token.span.line token.span.column)
    (.evaluation fault (change token).span.line (change token).span.column)
  text : ∀ token, (change token).text = token.text

/-- A name means the same in coupled contexts: a value of a kind, or a failure. -/
def Coupling.Finds (coupling : Coupling) (good : Value → Prop) (name : String) : Prop :=
  ∀ context context', coupling.contexts context context' →
    context.get? name = context'.get? name ∧
      ∀ value ∈ context.get? name, good value ∨ value.isError

namespace Evaluation

variable {evaluator evaluator' : Evaluator} {invoke invoke' : MacroCall → Evaluation Value}
  {coupling : Coupling} {change : Token → Token} {good : Value → Prop}

section

variable (hrespects : coupling.Respects good evaluator evaluator' change)
include hrespects

/-- The places of a fault may differ by the change of the tokens. -/
theorem couples_raise {α : Type} {good : α → Prop} (token : Token) (fault : EvaluationFault) :
    coupling.Couples good (raise token fault) (raise (change token) fault) :=
  Coupling.couples_throw (hrespects.moved fault token)

/-- A value that is a failure fails both evaluations. -/
theorem couples_checked {value : Value} (hvalue : good value ∨ value.isError) :
    coupling.Couples good (checked value) (checked value) := by
  cases value with
  | error failure => exact Coupling.couples_throw (hrespects.refl failure)
  | _ => exact Coupling.couples_pure (hvalue.resolve_right Bool.false_ne_true)

/-- What an operator yields is good if it is asked for good values. -/
theorem couples_ofOperator {token : Token} {result : Except OperatorFault Value}
    (hresult : ∀ value, result = .ok value → good value) :
    coupling.Couples good (ofOperator token result) (ofOperator (change token) result) := by
  cases result with
  | error fault => exact couples_raise hrespects token _
  | ok value => exact Coupling.couples_pure (hresult value rfl)

/-- A name is looked up in both contexts alike. -/
theorem couples_lookUp {name : String} (hfinds : coupling.Finds good name) :
    coupling.Couples good (lookUp name) (lookUp name) := by
  intro context context' hcontexts
  obtain ⟨hsame, hfound⟩ := hfinds _ _ hcontexts
  have hvalue : good ((context.get? name).getD .null) ∨
      ((context.get? name).getD .null).isError := by
    cases hget : context.get? name with
    | none => exact .inl (hrespects.hereditary.scalar _ rfl)
    | some value => exact hfound value hget
  have hleft : (ExceptT.run (lookUp name)).run context =
      (ExceptT.run (checked ((context.get? name).getD .null))).run context := rfl
  have hright : (ExceptT.run (lookUp name)).run context' =
      (ExceptT.run (checked ((context'.get? name).getD .null))).run context' := rfl
  rw [hleft, hright, ← hsame]
  exact couples_checked hrespects hvalue hcontexts

end

/-! ## Expressions -/

section

variable (hrespects : coupling.Respects good evaluator evaluator' change)
  (hinvoke : ∀ call : MacroCall, call.All good →
    coupling.Couples good (invoke call) (invoke' call))

/-- The evaluations of an expression and of the same expression under other marks are coupled. -/
def CouplesExpr (evaluator evaluator' : Evaluator) (invoke invoke' : MacroCall → Evaluation Value)
    (coupling : Coupling) (good : Value → Prop) (change : Token → Token) (expr : Expr Token) :
    Prop :=
  coupling.Couples good (evaluate evaluator invoke expr)
    (evaluate evaluator' invoke' (expr.mapMarks change))

/-- Items are coupled one by one, from left to right. -/
theorem couples_evaluateItems {items : List (Expr Token)}
    (hitems : ∀ item ∈ items,
      CouplesExpr evaluator evaluator' invoke invoke' coupling good change item) :
    coupling.Couples (fun values => ∀ value ∈ values, good value)
      (evaluateItems evaluator invoke items)
      (evaluateItems evaluator' invoke' (Expr.mapMarksItems change items)) := by
  induction items with
  | nil => exact Coupling.couples_pure nofun
  | cons item items ih =>
    rw [List.forall_mem_cons] at hitems
    rw [evaluateItems, Expr.mapMarksItems, evaluateItems]
    refine hitems.1.bind fun value hvalue => (ih hitems.2).bind fun values hvalues => ?_
    exact Coupling.couples_pure (List.forall_mem_cons.2 ⟨hvalue, hvalues⟩)

theorem couples_evaluateOption (option : Option (Expr Token))
    (hoption : ∀ expr ∈ option,
      CouplesExpr evaluator evaluator' invoke invoke' coupling good change expr) :
    coupling.Couples (fun value? => ∀ value ∈ value?, good value)
      (evaluateOption evaluator invoke option)
      (evaluateOption evaluator' invoke' (Expr.mapMarksOption change option)) := by
  cases option with
  | none => exact Coupling.couples_pure nofun
  | some expr =>
    rw [evaluateOption, Expr.mapMarksOption, evaluateOption]
    refine (hoption expr rfl).bind fun value hvalue => Coupling.couples_pure ?_
    rintro _ ⟨⟩
    exact hvalue

/-- Pairs are added to a table of good values, the key before the value. -/
theorem couples_evaluatePairs {pairs : List (Expr Token × Expr Token)} {table : Table Value}
    (hpairs : ∀ pair ∈ pairs,
      CouplesExpr evaluator evaluator' invoke invoke' coupling good change pair.1 ∧
        CouplesExpr evaluator evaluator' invoke invoke' coupling good change pair.2)
    (htable : Table.All good table) :
    coupling.Couples (Table.All good) (evaluatePairs evaluator invoke pairs table)
      (evaluatePairs evaluator' invoke' (Expr.mapMarksPairs change pairs) table) := by
  induction pairs generalizing table with
  | nil => exact Coupling.couples_pure htable
  | cons pair pairs ih =>
    rw [List.forall_mem_cons] at hpairs
    obtain ⟨⟨hkey, hvalue⟩, hrest⟩ := hpairs
    rw [evaluatePairs, Expr.mapMarksPairs, evaluatePairs]
    exact hkey.bind fun key _ => hvalue.bind fun value hwithin => ih hrest (htable.insert _ hwithin)

/-- Named arguments are added to good ones. -/
theorem couples_evaluateNamed {named : List (String × Expr Token)} {arguments : Arguments}
    (hnamed : ∀ value ∈ named.map Prod.snd,
      CouplesExpr evaluator evaluator' invoke invoke' coupling good change value)
    (harguments : arguments.All good) :
    coupling.Couples (Arguments.All good)
      (evaluateNamed evaluator invoke named arguments)
      (evaluateNamed evaluator' invoke' (Expr.mapMarksNamed change named) arguments) := by
  induction named generalizing arguments with
  | nil => exact Coupling.couples_pure harguments
  | cons argument named ih =>
    rw [List.map_cons, List.forall_mem_cons] at hnamed
    rw [evaluateNamed, Expr.mapMarksNamed, evaluateNamed]
    exact hnamed.1.bind fun value hvalue =>
      ih hnamed.2 (harguments.addNamed (List.forall_mem_singleton.2 hvalue))

theorem evaluatePositional_cons {item : Expr Token} {rest : List (Expr Token)}
    {arguments : Arguments} (hspread : item.isSpread = false) :
    evaluatePositional evaluator invoke (item :: rest) arguments =
      evaluate evaluator invoke item >>= fun value =>
        evaluatePositional evaluator invoke rest (arguments.addPositional [value]) := by
  have hlist : ∀ token operand, item ≠ .spread token operand := by
    rintro token operand rfl
    cases hspread
  have hmap : ∀ token operand, item ≠ .namedSpread token operand := by
    rintro token operand rfl
    cases hspread
  rw [evaluatePositional]
  · exact hlist
  · exact hmap

include hrespects in
/-- The operand of a spread argument is a node below the argument, which has no value of its own. -/
theorem couples_evaluatePositional {items : List (Expr Token)} {arguments : Arguments}
    (hitems : ∀ item ∈ items,
      item.Everywhere (CouplesExpr evaluator evaluator' invoke invoke' coupling good change))
    (harguments : arguments.All good) :
    coupling.Couples (Arguments.All good)
      (evaluatePositional evaluator invoke items arguments)
      (evaluatePositional evaluator' invoke' (Expr.mapMarksItems change items) arguments) := by
  induction items generalizing arguments with
  | nil => exact Coupling.couples_pure harguments
  | cons item rest ih =>
    rw [List.forall_mem_cons] at hitems
    obtain ⟨hitem, hrest⟩ := hitems
    cases item with
    | spread token operand =>
      have hoperand := (hitem.child (List.mem_singleton.2 rfl)).root
      rw [evaluatePositional, Expr.mapMarksItems, Expr.mapMarks, evaluatePositional]
      refine hoperand.bind fun value hvalue => ?_
      cases value with
      | list values =>
        exact ih hrest (harguments.addPositional ((hrespects.hereditary.list _).1 hvalue))
      | _ => exact couples_raise hrespects token _
    | namedSpread token operand =>
      have hoperand := (hitem.child (List.mem_singleton.2 rfl)).root
      rw [evaluatePositional, Expr.mapMarksItems, Expr.mapMarks, evaluatePositional]
      refine hoperand.bind fun value hvalue => ?_
      cases value with
      | map entries =>
        exact ih hrest (harguments.addNamed ((hrespects.hereditary.map _).1 hvalue))
      | _ => exact couples_raise hrespects token _
    | _ =>
      rw [Expr.mapMarksItems, evaluatePositional_cons rfl, evaluatePositional_cons rfl]
      refine hitem.root.bind fun value hvalue => ih hrest (harguments.addPositional ?_)
      simpa using hvalue

include hrespects in
/-- All arguments of a call, before what the call does with them. -/
theorem couples_arguments {β : Type} {good' : β → Prop} {positional : List (Expr Token)}
    {named : List (String × Expr Token)} {next next' : Arguments → Evaluation β}
    (hparts : ∀ part ∈ positional ++ named.map Prod.snd,
      part.Everywhere (CouplesExpr evaluator evaluator' invoke invoke' coupling good change))
    (hnext : ∀ arguments, arguments.All good →
      coupling.Couples good' (next arguments) (next' arguments)) :
    coupling.Couples good'
      (evaluatePositional evaluator invoke positional {} >>= fun arguments =>
        evaluateNamed evaluator invoke named arguments >>= next)
      (evaluatePositional evaluator' invoke' (Expr.mapMarksItems change positional) {} >>=
        fun arguments =>
          evaluateNamed evaluator' invoke' (Expr.mapMarksNamed change named) arguments >>=
            next') := by
  rw [List.forall_mem_append] at hparts
  obtain ⟨hpositional, hnamed⟩ := hparts
  exact (couples_evaluatePositional hrespects hpositional Arguments.all_empty).bind fun _ hgiven =>
    (couples_evaluateNamed (fun value hvalue => (hnamed value hvalue).root) hgiven).bind hnext

include hrespects hinvoke in
/-- A call is coupled if its macro is, or if the hosts agree on the function. -/
theorem couples_apply (token : Token) {callee : Value} {arguments : Arguments}
    (hcallee : good callee) (harguments : arguments.All good) :
    coupling.Couples good (apply evaluator invoke token callee arguments)
      (apply evaluator' invoke' (change token) callee arguments) := by
  cases callee with
  | function host =>
    rw [apply, apply, hrespects.agrees.functions host arguments harguments]
    exact couples_checked hrespects (hrespects.yields.functions host _ harguments)
  | procedure identity definition signature scope =>
    exact hinvoke ⟨definition, signature, scope, arguments⟩ ⟨⟨identity, hcallee⟩, harguments⟩
  | _ => exact couples_raise hrespects token _

include hrespects in
theorem couples_applyTest (token : Token) {test test' : Value → Option Value → Except String Bool}
    {value : Value} {argument : Option Value} (hsame : test' value argument = test value argument) :
    coupling.Couples good (applyTest token test value argument)
      (applyTest (change token) test' value argument) := by
  unfold applyTest
  rw [hsame]
  cases test value argument with
  | ok verdict => exact Coupling.couples_pure (hrespects.hereditary.scalar _ rfl)
  | error message => exact couples_raise hrespects token _

include hrespects in
/-- The logical operators evaluate their right side in both, or in neither. -/
theorem couples_evaluate_binary {token : Token} {op : BinaryOp} {left right : Expr Token}
    (hleft : CouplesExpr evaluator evaluator' invoke invoke' coupling good change left)
    (hright : CouplesExpr evaluator evaluator' invoke invoke' coupling good change right) :
    CouplesExpr evaluator evaluator' invoke invoke' coupling good change
      (.binary token op left right) := by
  rw [CouplesExpr, Expr.mapMarks, evaluate, evaluate]
  refine hleft.bind fun value hvalue => ?_
  cases op with
  | and =>
    dsimp only
    split
    · exact hright
    · exact Coupling.couples_pure hvalue
  | or =>
    dsimp only
    split
    · exact Coupling.couples_pure hvalue
    · exact hright
  | _ =>
    exact hright.bind fun other hother => couples_ofOperator hrespects fun _ hresult =>
      hrespects.hereditary.binary hvalue hother hresult

include hrespects hinvoke in
/-- What holds of every node below an expression holds of the expression. -/
theorem couplesExpr_of_children (expr : Expr Token)
    (hnames : ∀ name ∈ expr.names, coupling.Finds good name)
    (hchildren : ∀ child ∈ expr.children,
      child.Everywhere (CouplesExpr evaluator evaluator' invoke invoke' coupling good change)) :
    CouplesExpr evaluator evaluator' invoke invoke' coupling good change expr := by
  have hroots (child : Expr Token) (hchild : child ∈ expr.children) :
      CouplesExpr evaluator evaluator' invoke invoke' coupling good change child :=
    (hchildren child hchild).root
  cases expr with
  | integer | float | string | bool =>
    rw [CouplesExpr, Expr.mapMarks, evaluate, evaluate]
    exact Coupling.couples_pure (hrespects.hereditary.scalar _ rfl)
  | name token name =>
    rw [CouplesExpr, Expr.mapMarks, evaluate, evaluate]
    exact couples_lookUp hrespects (hnames name (List.mem_singleton.2 rfl))
  | list token items | tuple token items =>
    rw [CouplesExpr, Expr.mapMarks, evaluate, evaluate]
    exact (couples_evaluateItems hroots).bind fun values hvalues =>
      Coupling.couples_pure ((hrespects.hereditary.list _).2 hvalues)
  | dict token pairs =>
    rw [CouplesExpr, Expr.mapMarks, evaluate, evaluate]
    have hpairs := couples_evaluatePairs (fun pair hpair =>
      (Expr.mem_children_dict hpair).imp (hroots _) (hroots _)) Table.all_nil
    exact hpairs.bind fun table htable =>
      Coupling.couples_pure ((hrespects.hereditary.map _).2 htable)
  | member token subject selector =>
    rw [CouplesExpr, Expr.mapMarks, evaluate, evaluate]
    exact (hroots subject (by simp [Expr.children])).bind fun value hvalue =>
      couples_ofOperator hrespects fun _ hresult => hrespects.hereditary.select hvalue hresult
  | subscript token subject key =>
    rw [CouplesExpr, Expr.mapMarks, evaluate, evaluate]
    exact (hroots subject (by simp [Expr.children])).bind fun value hvalue =>
      (hroots key (by simp [Expr.children])).bind fun key _ =>
        couples_ofOperator hrespects fun _ hresult => hrespects.hereditary.subscript hvalue hresult
  | slice token subject start stop =>
    rw [CouplesExpr, Expr.mapMarks, evaluate, evaluate]
    have hstart := couples_evaluateOption start fun expr hexpr => hroots expr (by
      simp [Expr.children, Option.mem_def.1 hexpr])
    have hstop := couples_evaluateOption stop fun expr hexpr => hroots expr (by
      simp [Expr.children, Option.mem_def.1 hexpr])
    exact (hroots subject (by simp [Expr.children])).bind fun value hvalue =>
      hstart.bind fun _ _ => hstop.bind fun _ _ =>
        couples_ofOperator hrespects fun _ hresult => hrespects.hereditary.slice hvalue hresult
  | call token callee positional named =>
    rw [CouplesExpr, Expr.mapMarks, evaluate, evaluate]
    exact (hroots callee (by simp [Expr.children])).bind fun callee hcallee =>
      couples_arguments hrespects (List.forall_mem_cons.1 hchildren).2 fun _ hgiven =>
        couples_apply hrespects hinvoke token hcallee hgiven
  | binary token op left right =>
    exact couples_evaluate_binary hrespects (hroots left (by simp [Expr.children]))
      (hroots right (by simp [Expr.children]))
  | negation token operand =>
    rw [CouplesExpr, Expr.mapMarks, evaluate, evaluate]
    exact (hroots operand (by simp [Expr.children])).bind fun value _ =>
      Coupling.couples_pure (hrespects.hereditary.scalar _ rfl)
  | signed token sign operand =>
    rw [CouplesExpr, Expr.mapMarks, evaluate, evaluate]
    exact (hroots operand (by simp [Expr.children])).bind fun value _ =>
      couples_ofOperator hrespects fun _ hresult => hrespects.hereditary.applySign hresult
  | test token subject name argument =>
    rw [CouplesExpr, Expr.mapMarks, evaluate, evaluate]
    generalize evaluator.tests.get? name = found, evaluator'.tests.get? name = found',
      hrespects.agrees.tests name = hagrees
    cases hagrees with
    | none => exact Coupling.couples_throw (hrespects.refl _)
    | some hsame =>
      have hargument := couples_evaluateOption argument fun expr hexpr => hroots expr (by
        simp [Expr.children, Option.mem_def.1 hexpr])
      exact (hroots subject (by simp [Expr.children])).bind fun value hvalue =>
        hargument.bind fun argument hgiven =>
          couples_applyTest hrespects token (hsame value argument hvalue hgiven)
  | filter token subject name positional named =>
    rw [CouplesExpr, Expr.mapMarks, evaluate, evaluate]
    have hyields := hrespects.yields.filters name
    generalize evaluator.filters.get? name = found, evaluator'.filters.get? name = found',
      hrespects.agrees.filters name = hagrees at hyields ⊢
    cases hagrees with
    | none => exact Coupling.couples_throw (hrespects.refl _)
    | @some filter _ hsame =>
      refine (hroots subject (by simp [Expr.children])).bind fun value hvalue =>
        couples_arguments hrespects (List.forall_mem_cons.1 hchildren).2 fun arguments hgiven => ?_
      rw [hsame value arguments hvalue hgiven]
      exact couples_checked hrespects (hyields filter rfl _ _ hvalue hgiven)
  | conditional token condition consequent alternative =>
    rw [CouplesExpr, Expr.mapMarks, evaluate, evaluate]
    refine (hroots condition (by simp [Expr.children])).bind fun value _ => ?_
    split
    · exact hroots consequent (by simp [Expr.children])
    · have halternative := couples_evaluateOption alternative fun expr hexpr => hroots expr (by
        simp [Expr.children, Option.mem_def.1 hexpr])
      exact halternative.bind fun value? hvalue =>
        Coupling.couples_pure (hrespects.hereditary.getD_null hvalue)
  | spread token operand | namedSpread token operand =>
    rw [CouplesExpr, Expr.mapMarks, evaluate, evaluate, hrespects.text]
    exact couples_raise hrespects token _

include hrespects hinvoke in
/-- Only the names that an expression looks up have to mean the same. -/
theorem couples_evaluate_of_finds {expr : Expr Token}
    (hnames : ∀ name ∈ expr.names, coupling.Finds good name) :
    coupling.Couples good (evaluate evaluator invoke expr)
      (evaluate evaluator' invoke' (expr.mapMarks change)) :=
  ((Expr.everywhere_names hnames).of_children (couplesExpr_of_children hrespects hinvoke)).root

end

/-! ## Bodies -/

/-- The same output, ended by related failures or by none. -/
def SameOutput (failures : Failure → Failure → Prop) (output output' : String × Option Failure) :
    Prop :=
  output.1 = output'.1 ∧ Option.Rel failures output.2 output'.2

/-- Bodies write the same as far as the first failure, by induction on their nodes. -/
theorem tied_execute_of_finds (hrespects : coupling.Respects good evaluator evaluator' id)
    (hinvoke : ∀ call : MacroCall, call.All good →
      coupling.Couples good (invoke call) (invoke' call))
    (written : String) {body : List (Node Token)}
    (hnames : ∀ node ∈ body, ∀ name ∈ node.names, coupling.Finds good name) :
    Tied coupling.contexts (SameOutput coupling.failures) (execute evaluator invoke written body)
      (execute evaluator' invoke' written body) := by
  induction body generalizing written with
  | nil => exact Tied.pure ⟨rfl, .none⟩
  | cons node rest ih =>
    rw [List.forall_mem_cons] at hnames
    obtain ⟨hnode, hrest⟩ := hnames
    cases node with
    | text content => exact ih _ hrest
    | output expr =>
      have hexpr := couples_evaluate_of_finds hrespects hinvoke hnode
      rw [Expr.mapMarks_id] at hexpr
      refine Tied.bind hexpr fun result result' hresult => ?_
      cases hresult with
      | ok hvalue => exact ih _ hrest
      | error hfailure => exact Tied.pure ⟨rfl, .some hfailure⟩

/-! ## What equal results tell -/

theorem eq_of_sameResult {α : Type} {good : α → Prop} {result result' : Except Failure α}
    (hsame : SameResult Eq good result result') : result = result' := by
  cases hsame with
  | ok => rfl
  | error hfailure => rw [hfailure]

theorem eq_of_sameOutput {output output' : String × Option Failure}
    (hsame : SameOutput Eq output output') : output = output' := by
  obtain ⟨written, failure?⟩ := output
  obtain ⟨written', failure?'⟩ := output'
  obtain ⟨rfl, hfailure⟩ : written = written' ∧ Option.Rel Eq failure? failure?' := hsame
  cases hfailure with
  | none => rfl
  | some hequal => rw [hequal]

theorem map_fst_eq_of_tiedOutcome {α : Type} {contexts : Context → Context → Prop}
    {results : α → α → Prop} {outcome outcome' : Option (α × Context)}
    (htied : TiedOutcome contexts results outcome outcome')
    (heq : ∀ result result', results result result' → result = result') :
    outcome.map Prod.fst = outcome'.map Prod.fst := by
  cases htied with
  | exhausted => rfl
  | done hresult _ => exact congrArg some (heq _ _ hresult)

/-- Two runs that are coupled by equalities are one. -/
theorem eq_of_tiedOutcome {α : Type} {contexts : Context → Context → Prop}
    {results : α → α → Prop} {outcome outcome' : Option (α × Context)}
    (htied : TiedOutcome contexts results outcome outcome')
    (hresults : ∀ result result', results result result' → result = result')
    (hcontexts : ∀ context context', contexts context context' → context' = context) :
    outcome' = outcome := by
  cases htied with
  | exhausted => rfl
  | done hresult hcontext => rw [hresults _ _ hresult, hcontexts _ _ hcontext]

end Evaluation

end Stencil
