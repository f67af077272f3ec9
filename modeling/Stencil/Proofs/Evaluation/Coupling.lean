import Stencil.Proofs.Evaluation.Coupled
import Stencil.Proofs.Handles

/-!
# Couplings by scopes

Coupled runs in which the macros in all values have scopes of a kind.  What a host provides makes no
macros, so the scopes are those of the macros that are bound in the contexts.
-/

namespace Stencil

/-- The macro, its defaults and the arguments of a call have scopes of a kind. -/
structure MacroCall.Within (Holds : ScopeHandle → Prop) (call : MacroCall) : Prop where
  scope : Holds call.scope
  defaults : ∀ entry ∈ call.signature.defaulted, entry.2.Within Holds
  arguments : call.arguments.Within Holds

/-- What the host provides makes no macros: whatever macros its results hold, all of a kind, were in
what it was given. -/
structure Evaluator.Keeps (evaluator : Evaluator) (Holds : ScopeHandle → Prop) : Prop where
  functions : ∀ host arguments, arguments.Within Holds →
    (evaluator.functions host arguments).Within Holds
  filters : ∀ name filter, evaluator.filters.get? name = some filter →
    ∀ value arguments, value.Within Holds → arguments.Within Holds →
      (filter value arguments).Within Holds

/-- A coupling of one expression with the same expression under other marks, save for the names that
are looked up. -/
structure Coupling.Fair (coupling : Coupling) (evaluator : Evaluator) (change : Token → Token) :
    Prop where
  keeps : evaluator.Keeps coupling.scopes
  refl : ∀ failure, coupling.failures failure failure
  moved : ∀ fault token, coupling.failures
    (.evaluation fault token.span.line token.span.column)
    (.evaluation fault (change token).span.line (change token).span.column)
  text : ∀ token, (change token).text = token.text

/-- A name means the same in coupled contexts. -/
def Coupling.Shares (coupling : Coupling) (name : String) : Prop :=
  ∀ context context', coupling.contexts context context' →
    context.get? name = context'.get? name ∧
      ∀ value ∈ context.get? name, value.Within coupling.scopes

/-- A coupling under which every name means the same. -/
structure Coupling.Lawful (coupling : Coupling) (evaluator : Evaluator) (change : Token → Token) :
    Prop extends coupling.Fair evaluator change where
  get? : ∀ context context', coupling.contexts context context' → ∀ name,
    context.get? name = context'.get? name ∧
      ∀ value ∈ context.get? name, value.Within coupling.scopes

theorem Coupling.Lawful.shares {coupling : Coupling} {evaluator : Evaluator}
    {change : Token → Token} (hlawful : coupling.Lawful evaluator change) (name : String) :
    coupling.Shares name :=
  fun context context' hcontexts => hlawful.get? context context' hcontexts name

/-! ## Couplings of values by their macros -/

theorem MacroCall.All.within {call : MacroCall} {Holds : ScopeHandle → Prop}
    (hall : call.All (Value.Within Holds)) : call.Within Holds := by
  obtain ⟨⟨identity, hcallee⟩, harguments⟩ := hall
  obtain ⟨hscope, hdefaults⟩ := Value.within_procedure.1 hcallee
  exact ⟨hscope, hdefaults, Arguments.within_iff_all.2 harguments⟩

theorem Coupling.Fair.respects {coupling : Coupling} {evaluator : Evaluator}
    {change : Token → Token} (hfair : coupling.Fair evaluator change) :
    coupling.Respects (Value.Within coupling.scopes) evaluator evaluator change where
  hereditary := Value.hereditary_within
  yields :=
    { functions host arguments harguments :=
        .inl (hfair.keeps.functions host arguments (Arguments.within_iff_all.2 harguments))
      filters name filter hfilter value arguments hvalue harguments :=
        .inl (hfair.keeps.filters name filter hfilter value arguments hvalue
          (Arguments.within_iff_all.2 harguments)) }
  agrees := evaluator.agrees_self _
  refl := hfair.refl
  moved := hfair.moved
  text := hfair.text

theorem Coupling.Shares.finds {coupling : Coupling} {name : String}
    (hshares : coupling.Shares name) : coupling.Finds (Value.Within coupling.scopes) name :=
  fun context context' hcontexts =>
    (hshares context context' hcontexts).imp_right fun hwithin value hvalue =>
      .inl (hwithin value hvalue)

namespace Evaluation

variable {evaluator : Evaluator} {invoke invoke' : MacroCall → Evaluation Value}
  {coupling : Coupling} {change : Token → Token}

/-- Only the names that an expression looks up have to mean the same. -/
theorem couples_evaluate_of_names (hfair : coupling.Fair evaluator change)
    (hinvoke : ∀ call : MacroCall, call.Within coupling.scopes →
      coupling.Couples (Value.Within coupling.scopes) (invoke call) (invoke' call))
    {expr : Expr Token} (hnames : ∀ name ∈ expr.names, coupling.Shares name) :
    coupling.Couples (Value.Within coupling.scopes) (evaluate evaluator invoke expr)
      (evaluate evaluator invoke' (expr.mapMarks change)) :=
  couples_evaluate_of_finds hfair.respects (fun call hcall => hinvoke call hcall.within)
    fun name hname => (hnames name hname).finds

theorem couples_evaluate (hlawful : coupling.Lawful evaluator change)
    (hinvoke : ∀ call : MacroCall, call.Within coupling.scopes →
      coupling.Couples (Value.Within coupling.scopes) (invoke call) (invoke' call))
    (expr : Expr Token) :
    coupling.Couples (Value.Within coupling.scopes) (evaluate evaluator invoke expr)
      (evaluate evaluator invoke' (expr.mapMarks change)) :=
  couples_evaluate_of_names hlawful.toFair hinvoke fun name _ => hlawful.shares name

/-! ## Bodies -/

theorem tied_execute_of_names (hfair : coupling.Fair evaluator id)
    (hinvoke : ∀ call : MacroCall, call.Within coupling.scopes →
      coupling.Couples (Value.Within coupling.scopes) (invoke call) (invoke' call))
    (written : String) {body : List (Node Token)}
    (hnames : ∀ node ∈ body, ∀ name ∈ node.names, coupling.Shares name) :
    Tied coupling.contexts (SameOutput coupling.failures) (execute evaluator invoke written body)
      (execute evaluator invoke' written body) :=
  tied_execute_of_finds hfair.respects (fun call hcall => hinvoke call hcall.within) written
    fun node hnode name hname => (hnames node hnode name hname).finds

theorem tied_execute (hlawful : coupling.Lawful evaluator id)
    (hinvoke : ∀ call : MacroCall, call.Within coupling.scopes →
      coupling.Couples (Value.Within coupling.scopes) (invoke call) (invoke' call))
    (written : String) (body : List (Node Token)) :
    Tied coupling.contexts (SameOutput coupling.failures) (execute evaluator invoke written body)
      (execute evaluator invoke' written body) :=
  tied_execute_of_names hlawful.toFair hinvoke written fun _ _ name _ => hlawful.shares name

end Evaluation

end Stencil
