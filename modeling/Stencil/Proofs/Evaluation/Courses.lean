import Stencil.Proofs.Evaluation.Outcomes
import Stencil.Proofs.Evaluation.Repetition

/-!
# Courses of evaluation

The logical operators and the conditional have no values of their own to compute: they choose the
operand that is evaluated next by the truth of the one before.  What an expression made of them may
evaluate is a decision tree, and expressions with the same tree can stand for each other.
-/

namespace Stencil

/-- How an evaluation goes on, by the truth of each operand that it evaluates. -/
inductive Course where
  /-- It ends with the value of the last operand. -/
  | last
  | constant (value : Value)
  | next (operand : Expr Token) (whenTrue whenFalse : Course)

namespace Course

/-- The course behind a value that is not that of an operand. -/
def behind (value : Value) : Course → Course
  | last => constant value
  | course => course

/-- Follows a course behind an operand of the given value. -/
def follow (evaluate : Expr Token → Evaluation Value) : Course → Value → Evaluation Value
  | last, value => pure value
  | constant value, _ => pure value
  | next operand whenTrue whenFalse, _ => do
    let value ← evaluate operand
    if value.isTruthy then whenTrue.follow evaluate value else whenFalse.follow evaluate value

theorem follow_behind (evaluate : Expr Token → Evaluation Value) (course : Course)
    (value value' : Value) :
    (course.behind value).follow evaluate value' = course.follow evaluate value := by
  cases course <;> rfl

end Course

namespace Expr

/-- The course of an expression with what comes behind it.  Everything but the logical operators and
the conditional is one operand. -/
def courseTo : Expr Token → Course → Course → Course
  | .binary _ .or left right, whenTrue, whenFalse =>
    left.courseTo whenTrue (right.courseTo whenTrue whenFalse)
  | .binary _ .and left right, whenTrue, whenFalse =>
    left.courseTo (right.courseTo whenTrue whenFalse) whenFalse
  | .negation _ operand, whenTrue, whenFalse =>
    operand.courseTo (whenFalse.behind (.bool false)) (whenTrue.behind (.bool true))
  | .conditional _ condition consequent none, whenTrue, whenFalse =>
    condition.courseTo (consequent.courseTo whenTrue whenFalse) (whenFalse.behind .null)
  | .conditional _ condition consequent (some alternative), whenTrue, whenFalse =>
    condition.courseTo (consequent.courseTo whenTrue whenFalse)
      (alternative.courseTo whenTrue whenFalse)
  | operand, whenTrue, whenFalse => .next operand whenTrue whenFalse

/-- The operands that an expression evaluates, as far as the logical operators choose them. -/
def course (expr : Expr Token) : Course :=
  expr.courseTo .last .last

/-- Every course starts with an operand. -/
theorem behind_courseTo (value : Value) (expr : Expr Token) (whenTrue whenFalse : Course) :
    (expr.courseTo whenTrue whenFalse).behind value = expr.courseTo whenTrue whenFalse := by
  fun_induction courseTo expr whenTrue whenFalse with
  | case6 => rfl
  | _ => assumption

end Expr

namespace Evaluation

open Context

variable {evaluator : Evaluator} {depth : Nat} {context after : Context}

theorem ite_eq_bind {condition : Bool} {first second whenTrue whenFalse : Evaluation Value}
    {onward : Value → Evaluation Value} (htrue : condition → whenTrue = first >>= onward)
    (hfalse : ¬ condition → whenFalse = second >>= onward) :
    (if condition then whenTrue else whenFalse) =
      (if condition then first else second) >>= onward := by
  split
  · next hcondition => exact htrue hcondition
  · next hcondition => exact hfalse hcondition

/-- An evaluation with something behind it follows the course of its expression: an operand that the
course does not come to is not evaluated. -/
theorem follow_courseTo (invoke : MacroCall → Evaluation Value) (expr : Expr Token)
    (whenTrue whenFalse : Course) (last : Value) :
    (expr.courseTo whenTrue whenFalse).follow (evaluate evaluator invoke) last =
      evaluate evaluator invoke expr >>= fun value =>
        if value.isTruthy then whenTrue.follow (evaluate evaluator invoke) value
        else whenFalse.follow (evaluate evaluator invoke) value := by
  fun_induction Expr.courseTo expr whenTrue whenFalse generalizing last with
  | case1 token left right whenTrue whenFalse ihRight ihLeft =>
    rw [ihLeft, evaluate, bind_assoc]
    refine bind_congr fun value => ite_eq_bind (fun htruthy => ?_) fun _ => ihRight value
    rw [pure_bind, if_pos htruthy]
  | case2 token left right whenTrue whenFalse ihRight ihLeft =>
    rw [ihLeft, evaluate, bind_assoc]
    refine bind_congr fun value => ite_eq_bind (fun _ => ihRight value) fun htruthy => ?_
    rw [pure_bind, if_neg htruthy]
  | case3 token operand whenTrue whenFalse ih =>
    rw [ih, evaluate, bind_assoc]
    refine bind_congr fun value => ?_
    rw [pure_bind, Course.follow_behind, Course.follow_behind]
    cases value.isTruthy <;> rfl
  | case4 token condition consequent whenTrue whenFalse ihConsequent ihCondition =>
    rw [ihCondition, evaluate, bind_assoc]
    refine bind_congr fun value => ite_eq_bind (fun _ => ihConsequent value) fun _ => ?_
    rw [evaluateOption, pure_bind, pure_bind]
    exact Course.follow_behind ..
  | case5 token condition consequent whenTrue whenFalse alternative ihConsequent ihAlternative
      ihCondition =>
    rw [ihCondition, evaluate, bind_assoc]
    refine bind_congr fun value => ite_eq_bind (fun _ => ihConsequent value) fun _ => ?_
    rw [evaluateOption, bind_assoc, bind_assoc]
    simp only [pure_bind, Option.getD_some]
    exact ihAlternative value
  | case6 => rfl

theorem evaluateExpr_eq_follow (expr : Expr Token) (last : Value) :
    evaluateExpr evaluator depth expr =
      expr.course.follow (evaluateExpr evaluator depth) last := by
  refine ((follow_courseTo (invoke evaluator depth) expr .last .last last).trans ?_).symm
  simp only [Course.follow, ite_self, bind_pure]
  rfl

/-- The two expressions evaluate the same operands one after the other, whatever the values of
these are, and end alike. -/
structure Interchangeable (evaluator : Evaluator) (depth : Nat) (left right : Expr Token) :
    Prop where
  course : left.course = right.course
  outcome : evaluateExpr evaluator depth left = evaluateExpr evaluator depth right

theorem interchangeable_of_course {left right : Expr Token}
    (hcourse : left.course = right.course) : Interchangeable evaluator depth left right where
  course := hcourse
  outcome := by
    rw [evaluateExpr_eq_follow left .null, hcourse, ← evaluateExpr_eq_follow right .null]

/-- A second evaluation of an operand has the outcome of the first. -/
theorem evaluateExpr_twice {op : BinaryOp} (hop : op = .or ∨ op = .and)
    (hkeeps : evaluator.Keeps context.Past) (hwithin : context.Within context.Past) (token : Token)
    (expr : Expr Token) :
    ((ExceptT.run (evaluateExpr evaluator depth (.binary token op expr expr))).run context).map
        Prod.fst =
      ((ExceptT.run (evaluateExpr evaluator depth expr)).run context).map Prod.fst := by
  have hagain {value : Value} {after : Context}
      (hrun : (ExceptT.run (evaluateExpr evaluator depth expr)).run context =
        some (.ok value, after)) :
      ((ExceptT.run (evaluateExpr evaluator depth expr)).run after).map Prod.fst =
        some (.ok value) := by
    rw [evaluateExpr_again hkeeps hwithin (agesTo_of_evaluateExpr hrun) expr, hrun, Option.map_some]
  unfold evaluateExpr at *
  rw [evaluate, run_bind_eq]
  cases hrun : (ExceptT.run (evaluate evaluator (invoke evaluator depth) expr)).run context with
  | none => rfl
  | some outcome =>
    obtain ⟨failure | value, after⟩ := outcome
    · rfl
    · -- The left operand settles the operator, or the right one is evaluated where it has ended.
      rcases hop with rfl | rfl <;> dsimp only [Option.bind_some] <;> split
      · rfl
      · exact hagain hrun
      · exact hagain hrun
      · rfl

/-- The logical operators obey the laws of an algebra in what they evaluate.  Every expression follows
its course, in which an operand that is skipped does not occur.  Disjunctions and conjunctions may be
regrouped, a denial may be moved to their operands, and a conditional may be denied and turned
around: the same operands are evaluated and the same ones skipped, whether or not they would fail,
and the outcome is the same.  An operand joined to itself has its own outcome, although it may be
evaluated twice, in every context that knows only scopes which have been issued; those that a host
can bring about are such. -/
theorem logical_operators_form_an_algebra (evaluator : Evaluator) (depth : Nat) :
    (∀ expr last, evaluateExpr evaluator depth expr =
      expr.course.follow (evaluateExpr evaluator depth) last) ∧
    (∀ (outer inner outer' inner' : Token) a b c, Interchangeable evaluator depth
      (.binary outer .or (.binary inner .or a b) c)
      (.binary outer' .or a (.binary inner' .or b c))) ∧
    (∀ (outer inner outer' inner' : Token) a b c, Interchangeable evaluator depth
      (.binary outer .and (.binary inner .and a b) c)
      (.binary outer' .and a (.binary inner' .and b c))) ∧
    (∀ (outer inner outer' left right : Token) a b, Interchangeable evaluator depth
      (.negation outer (.binary inner .and a b))
      (.binary outer' .or (.negation left a) (.negation right b))) ∧
    (∀ (outer inner outer' left right : Token) a b, Interchangeable evaluator depth
      (.negation outer (.binary inner .or a b))
      (.binary outer' .and (.negation left a) (.negation right b))) ∧
    (∀ (outer inner outer' : Token) a x y, Interchangeable evaluator depth
      (.conditional outer (.negation inner a) x (some y)) (.conditional outer' a y (some x))) ∧
    ∀ context : Context, context.Within context.Past → evaluator.Keeps context.Past →
      ∀ op, op = .or ∨ op = .and → ∀ token expr,
        ((ExceptT.run (evaluateExpr evaluator depth (.binary token op expr expr))).run
          context).map Prod.fst =
        ((ExceptT.run (evaluateExpr evaluator depth expr)).run context).map Prod.fst := by
  refine ⟨evaluateExpr_eq_follow, fun _ _ _ _ a b c => interchangeable_of_course rfl,
    fun _ _ _ _ a b c => interchangeable_of_course rfl,
    fun _ _ _ _ _ a b => interchangeable_of_course ?_,
    fun _ _ _ _ _ a b => interchangeable_of_course ?_,
    fun _ _ _ a x y => interchangeable_of_course ?_,
    fun context hwithin hkeeps op hop token expr =>
      evaluateExpr_twice hop hkeeps hwithin token expr⟩
  all_goals simp only [Expr.course, Expr.courseTo, Expr.behind_courseTo]

/-- An operand that would fail is skipped, and one that does not settle its operator is evaluated
twice. -/
theorem logical_operators_form_an_algebra_skipped :
    let token : Token := ⟨.name, "x", ⟨0, 1, 1, 1⟩⟩
    let context := Context.ofBindings 0 [("x", .integer 1), ("y", .integer 0)]
    let failing : Expr Token := .spread token (.name token "x")
    (evaluateExpr .bare 0 (.binary token .or (.binary token .or (.name token "x") failing)
        failing) =
      evaluateExpr .bare 0 (.binary token .or (.name token "x")
        (.binary token .or failing failing))) ∧
      (ExceptT.run (evaluateExpr .bare 0 (.binary token .or (.name token "x")
        (.binary token .or failing failing)))).run context = some (.ok (.integer 1), context) ∧
      ((ExceptT.run (evaluateExpr .bare 0 (.binary token .or (.name token "y")
        (.name token "y")))).run context).map Prod.fst = some (.ok (.integer 0)) := by
  intro token context failing
  let workspace := Workspace.create (.empty .bare) "main" [("x", .integer 1), ("y", .integer 0)]
  have hreachable : workspace.Reachable :=
    .step (.create "main" [("x", .integer 1), ("y", .integer 0)]) (.empty .bare)
      (List.forall_mem_cons.2 ⟨Value.within_of_isPlain rfl,
        List.forall_mem_singleton.2 (Value.within_of_isPlain rfl)⟩) rfl
  have hcontext : workspace.context? "main" = some context := rfl
  obtain ⟨-, hgroup, -, -, -, -, htwice⟩ := logical_operators_form_an_algebra .bare 0
  exact ⟨(hgroup token token token token _ _ _).outcome, rfl,
    htwice context (hreachable.within_past hcontext) (Evaluator.keeps_bare _) .or (.inl rfl) token _⟩

end Evaluation

end Stencil
