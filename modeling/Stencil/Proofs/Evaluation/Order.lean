import Stencil.Proofs.Evaluation.Coupled
import Stencil.Proofs.Evaluation.Outcomes

/-!
# The order of evaluation

Every expression evaluates operands in an order of its own, and each one in the context that those
before it have left.  An operand is evaluated only if the values before it let the evaluation go on;
if an operand fails, the whole expression fails in the same way.
-/

namespace Stencil

/-- An operand, and the values of it after which the evaluation goes on to the next operand. -/
structure Turn where
  operand : Expr Token
  goesOn : Value → Bool

namespace Turn

def always (operand : Expr Token) : Turn :=
  ⟨operand, fun _ => true⟩

/-- The operand of a positional argument.  Only lists and maps can be spread. -/
def argument : Expr Token → Turn
  | .spread _ operand => ⟨operand, fun value => value.type = .list⟩
  | .namedSpread _ operand => ⟨operand, fun value => value.type = .map⟩
  | item => always item

/-- The left operand of an operator.  It may settle a conjunction or a disjunction. -/
def left (op : BinaryOp) (operand : Expr Token) : Turn where
  operand := operand
  goesOn value :=
    match op with
    | .and => value.isTruthy
    | .or => !value.isTruthy
    | _ => true

end Turn

namespace Expr

def argumentTurns (positional : List (Expr Token)) (named : List (String × Expr Token)) :
    List Turn :=
  positional.map .argument ++ named.map fun argument => .always argument.2

/-- The orders in which an expression may evaluate its operands.  No operand of a test or a filter
is evaluated if the host does not know its name. -/
def orders (evaluator : Evaluator) : Expr Token → List (List Turn)
  | .list _ items | .tuple _ items => [items.map .always]
  | .dict _ pairs => [pairs.flatMap fun pair => [.always pair.1, .always pair.2]]
  | .member _ subject _ => [[.always subject]]
  | .subscript _ subject key => [[.always subject, .always key]]
  | .slice _ subject start stop =>
    [.always subject :: (start.toList.map .always ++ stop.toList.map .always)]
  | .call _ callee positional named => [.always callee :: argumentTurns positional named]
  | .binary _ op left right => [[.left op left, .always right]]
  | .negation _ operand | .signed _ _ operand => [[.always operand]]
  | .test _ subject known argument =>
    match evaluator.tests.get? known with
    | none => []
    | some _ => [.always subject :: argument.toList.map .always]
  | .filter _ subject known positional named =>
    match evaluator.filters.get? known with
    | none => []
    | some _ => [.always subject :: argumentTurns positional named]
  | .conditional _ condition consequent alternative =>
    [[⟨condition, Value.isTruthy⟩, .always consequent],
      ⟨condition, fun value => !value.isTruthy⟩ :: alternative.toList.map .always]
  | _ => []

end Expr

namespace Evaluation

/-! ## Operands one after the other -/

section

variable (evaluator : Evaluator) (invoke : MacroCall → Evaluation Value)

/-- The evaluation begins with these operands, as long as their values let it go on. -/
def Follows {α : Type} : List Turn → Evaluation α → Prop
  | [], _ => True
  | turn :: rest, evaluation => ∃ next : Value → Evaluation α,
      evaluation = evaluate evaluator invoke turn.operand >>= next ∧
        ∀ value, turn.goesOn value → Follows rest (next value)

/-- Started in the first context, the operands come to this one in the second context. -/
inductive ComesTo : List Turn → Context → Expr Token → Context → Prop where
  | here {turn rest context} : ComesTo (turn :: rest) context turn.operand context
  | later {turn rest context value between operand inner} :
      (ExceptT.run (evaluate evaluator invoke turn.operand)).run context =
        some (.ok value, between) →
      turn.goesOn value → ComesTo rest between operand inner →
      ComesTo (turn :: rest) context operand inner

/-- The evaluation of the first expression in the first context comes to that of the second one in
the second context. -/
inductive Reaches : Expr Token → Context → Expr Token → Context → Prop where
  | self {expr context} : Reaches expr context expr context
  | step {expr context order operand between target inner} :
      order ∈ expr.orders evaluator → ComesTo evaluator invoke order context operand between →
      Reaches operand between target inner → Reaches expr context target inner

end

variable {evaluator : Evaluator} {invoke : MacroCall → Evaluation Value} {α : Type}
  {turns rest : List Turn} {context inner after : Context} {failure : Failure}

/-- Whatever comes to an operand that fails ends with its failure. -/
theorem Follows.fails {evaluation : Evaluation α} {operand : Expr Token}
    (hfollows : Follows evaluator invoke turns evaluation)
    (hcomes : ComesTo evaluator invoke turns context operand inner)
    (hfails : (ExceptT.run (evaluate evaluator invoke operand)).run inner =
      some (.error failure, after)) :
    (ExceptT.run evaluation).run context = some (.error failure, after) := by
  induction hcomes generalizing evaluation with
  | here =>
    obtain ⟨next, rfl, -⟩ := hfollows
    rw [run_bind_eq, hfails]
    rfl
  | later hvalue hgoesOn _ ih =>
    -- What follows depends on the value of the operand, which let the evaluation go on.
    obtain ⟨next, rfl, hnext⟩ := hfollows
    rw [run_bind_eq, hvalue]
    exact ih (hnext _ hgoesOn) hfails

theorem follows_always {operand : Expr Token} {next : Value → Evaluation α}
    (hnext : ∀ value, Follows evaluator invoke rest (next value)) :
    Follows evaluator invoke (.always operand :: rest)
      (evaluate evaluator invoke operand >>= next) :=
  ⟨next, rfl, fun value _ => hnext value⟩

theorem follows_single (operand : Expr Token) (next : Value → Evaluation α) :
    Follows evaluator invoke [.always operand] (evaluate evaluator invoke operand >>= next) :=
  follows_always fun _ => trivial

theorem follows_evaluate (operand : Expr Token) :
    Follows evaluator invoke [.always operand] (evaluate evaluator invoke operand) :=
  ⟨pure, (bind_pure _).symm, fun _ _ => trivial⟩

theorem follows_evaluateItems {items : List (Expr Token)} {next : List Value → Evaluation α}
    (hnext : ∀ values, Follows evaluator invoke rest (next values)) :
    Follows evaluator invoke (items.map .always ++ rest)
      (evaluateItems evaluator invoke items >>= next) := by
  induction items generalizing next with
  | nil =>
    rw [evaluateItems, pure_bind]
    exact hnext []
  | cons item items ih =>
    rw [evaluateItems, bind_assoc]
    refine follows_always fun value => ?_
    simp only [bind_assoc, pure_bind]
    exact ih fun values => hnext (value :: values)

theorem follows_evaluateOption {option : Option (Expr Token)}
    {next : Option Value → Evaluation α}
    (hnext : ∀ value?, Follows evaluator invoke rest (next value?)) :
    Follows evaluator invoke (option.toList.map .always ++ rest)
      (evaluateOption evaluator invoke option >>= next) := by
  cases option with
  | none =>
    rw [evaluateOption, pure_bind]
    exact hnext none
  | some expr =>
    rw [evaluateOption, bind_assoc]
    refine follows_always fun value => ?_
    rw [pure_bind]
    exact hnext (some value)

theorem follows_evaluatePairs (pairs : List (Expr Token × Expr Token)) (table : Table Value)
    (next : Table Value → Evaluation α) :
    Follows evaluator invoke (pairs.flatMap fun pair => [.always pair.1, .always pair.2])
      (evaluatePairs evaluator invoke pairs table >>= next) := by
  induction pairs generalizing table with
  | nil => trivial
  | cons pair pairs ih =>
    rw [evaluatePairs, bind_assoc]
    refine follows_always fun key => ?_
    rw [bind_assoc]
    exact follows_always fun value => ih _

theorem follows_evaluateNamed (named : List (String × Expr Token)) (arguments : Arguments)
    (next : Arguments → Evaluation α) :
    Follows evaluator invoke (named.map fun argument => .always argument.2)
      (evaluateNamed evaluator invoke named arguments >>= next) := by
  induction named generalizing arguments with
  | nil => trivial
  | cons argument named ih =>
    rw [evaluateNamed, bind_assoc]
    exact follows_always fun value => ih _

/-- A value that cannot be spread ends the evaluation before the next argument. -/
theorem follows_evaluatePositional {items : List (Expr Token)} {arguments : Arguments}
    {next : Arguments → Evaluation α}
    (hnext : ∀ arguments, Follows evaluator invoke rest (next arguments)) :
    Follows evaluator invoke (items.map .argument ++ rest)
      (evaluatePositional evaluator invoke items arguments >>= next) := by
  induction items generalizing arguments with
  | nil =>
    rw [evaluatePositional, pure_bind]
    exact hnext arguments
  | cons item items ih =>
    cases item with
    | spread token operand =>
      rw [evaluatePositional, bind_assoc]
      refine ⟨_, rfl, fun value hlist => ?_⟩
      cases value with
      | list values => exact ih
      | _ => simp [Turn.argument, Value.type] at hlist
    | namedSpread token operand =>
      rw [evaluatePositional, bind_assoc]
      refine ⟨_, rfl, fun value hmap => ?_⟩
      cases value with
      | map entries => exact ih
      | _ => simp [Turn.argument, Value.type] at hmap
    | _ =>
      rw [evaluatePositional_cons rfl, bind_assoc]
      exact follows_always fun value => ih

theorem follows_arguments (positional : List (Expr Token)) (named : List (String × Expr Token))
    (next : Arguments → Evaluation α) :
    Follows evaluator invoke (Expr.argumentTurns positional named)
      (evaluatePositional evaluator invoke positional {} >>= fun arguments =>
        evaluateNamed evaluator invoke named arguments >>= next) :=
  follows_evaluatePositional fun arguments => follows_evaluateNamed named arguments next

/-! ## Expressions -/

/-- An expression evaluates its operands in one of its orders, and then only looks at their
values. -/
theorem follows_of_mem_orders {expr : Expr Token} {order : List Turn}
    (horder : order ∈ expr.orders evaluator) :
    Follows evaluator invoke order (evaluate evaluator invoke expr) := by
  cases expr with
  | list token items | tuple token items =>
    obtain rfl := List.mem_singleton.1 horder
    rw [evaluate, ← List.append_nil (items.map _)]
    exact follows_evaluateItems fun _ => trivial
  | dict token pairs =>
    obtain rfl := List.mem_singleton.1 horder
    rw [evaluate]
    exact follows_evaluatePairs pairs [] _
  | member token operand | negation token operand | signed token sign operand =>
    obtain rfl := List.mem_singleton.1 horder
    rw [evaluate]
    exact follows_single _ _
  | subscript token subject key =>
    obtain rfl := List.mem_singleton.1 horder
    rw [evaluate]
    exact follows_always fun _ => follows_single _ _
  | slice token subject start stop =>
    obtain rfl := List.mem_singleton.1 horder
    rw [evaluate, ← List.append_nil (stop.toList.map _)]
    exact follows_always fun _ => follows_evaluateOption fun _ =>
      follows_evaluateOption fun _ => trivial
  | call token callee positional named =>
    obtain rfl := List.mem_singleton.1 horder
    rw [evaluate]
    exact follows_always fun _ => follows_arguments _ _ _
  | binary token op left right =>
    obtain rfl := List.mem_singleton.1 horder
    rw [evaluate]
    refine ⟨_, rfl, fun value hgoesOn => ?_⟩
    cases op with
    | and =>
      have htruthy : value.isTruthy := hgoesOn
      dsimp only
      rw [if_pos htruthy]
      exact follows_evaluate right
    | or =>
      dsimp only
      rw [if_neg (by simpa [Turn.left] using hgoesOn)]
      exact follows_evaluate right
    | _ => exact follows_single _ _
  | test token subject name argument =>
    rw [evaluate]
    cases htest : evaluator.tests.get? name with
    | none => simp [Expr.orders, htest] at horder
    | some test =>
      obtain rfl : order = _ := by simpa [Expr.orders, htest] using horder
      rw [← List.append_nil (List.map _ _)]
      exact follows_always fun _ => follows_evaluateOption fun _ => trivial
  | filter token subject name positional named =>
    rw [evaluate]
    cases hfilter : evaluator.filters.get? name with
    | none => simp [Expr.orders, hfilter] at horder
    | some filter =>
      obtain rfl : order = _ := by simpa [Expr.orders, hfilter] using horder
      exact follows_always fun _ => follows_arguments _ _ _
  | conditional token condition consequent alternative =>
    rw [evaluate]
    rcases List.mem_cons.1 horder with rfl | horder
    · refine ⟨_, rfl, fun value htruthy => ?_⟩
      rw [if_pos htruthy]
      exact follows_evaluate consequent
    · obtain rfl := List.mem_singleton.1 horder
      refine ⟨_, rfl, fun value hfalsy => ?_⟩
      rw [if_neg (by simpa using hfalsy), ← List.append_nil (List.map _ _)]
      exact follows_evaluateOption fun _ => trivial
  | _ => cases horder

/-- An expression whose evaluation comes to one that fails ends with the same failure, and in the
context which that one has left. -/
theorem Reaches.fails {expr target : Expr Token}
    (hreaches : Reaches evaluator invoke expr context target inner)
    (hfails : (ExceptT.run (evaluate evaluator invoke target)).run inner =
      some (.error failure, after)) :
    (ExceptT.run (evaluate evaluator invoke expr)).run context = some (.error failure, after) := by
  induction hreaches with
  | self => exact hfails
  | step horder hcomes _ ih => exact (follows_of_mem_orders horder).fails hcomes (ih hfails)

end Evaluation

end Stencil
