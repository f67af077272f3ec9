import Stencil.Proofs.Evaluation.Restoration
import Stencil.Proofs.Places.Shifting

/-!
# Evaluation and the places of tokens

The value of an expression does not depend on where its tokens stand; only a failure tells a place.
-/

namespace Stencil

namespace Evaluation

variable {evaluator : Evaluator} {depth : Nat} {change : Token → Token}

/-- Two evaluations with the same value, or with any two failures, that leave the same context. -/
def anyFailure : Coupling where
  contexts := Eq
  scopes _ := True
  failures _ _ := True

theorem lawful_anyFailure (evaluator : Evaluator) (hchange : Token.Keeps change) :
    anyFailure.Lawful evaluator change where
  get? := by
    rintro context _ rfl name
    exact ⟨rfl, fun value hvalue => context.within_true.get? hvalue⟩
  keeps := evaluator.keeps_true
  refl _ := trivial
  moved _ _ := trivial
  text := hchange.text

theorem couples_self (evaluation : Evaluation Value) :
    anyFailure.Couples (Value.Within fun _ => True) evaluation evaluation := by
  rintro context _ rfl
  rcases (ExceptT.run evaluation).run context with _ | ⟨_ | value, after⟩
  · exact .exhausted
  · exact .done (.error trivial) rfl
  · exact .done (.ok fun _ _ => trivial) rfl

theorem couples_mapMarks (hchange : Token.Keeps change) (expr : Expr Token) :
    anyFailure.Couples (Value.Within fun _ => True) (evaluateExpr evaluator depth expr)
      (evaluateExpr evaluator depth (expr.mapMarks change)) :=
  couples_evaluate (lawful_anyFailure evaluator hchange)
    (fun call _ => couples_self (invoke evaluator depth call)) expr

theorem evaluateExpr_mapMarks {context after : Context} {expr : Expr Token} {value : Value}
    (hchange : Token.Keeps change)
    (hrun : (ExceptT.run (evaluateExpr evaluator depth expr)).run context =
      some (.ok value, after)) :
    (ExceptT.run (evaluateExpr evaluator depth (expr.mapMarks change))).run context =
      some (.ok value, after) := by
  have hcouples : anyFailure.Couples (Value.Within fun _ => True)
      (evaluateExpr evaluator depth expr) (evaluateExpr evaluator depth (expr.mapMarks change)) :=
    couples_mapMarks hchange expr
  have houtcome := hcouples (Eq.refl context)
  rw [hrun] at houtcome
  generalize (ExceptT.run (evaluateExpr evaluator depth (expr.mapMarks change))).run context =
    outcome at houtcome ⊢
  cases houtcome with
  | done hresult hafter =>
    subst hafter
    cases hresult with
    | ok _ => rfl

end Evaluation

end Stencil
