import Stencil.Evaluation.Source

/-!
# Evaluations that end with a value

An evaluation that ends with a value has run through all of its steps, and every step has ended with
a value before the next one began.
-/

namespace Stencil

namespace Evaluation

variable {α β : Type} {context after : Context}

theorem run_bind_eq (first : Evaluation α) (next : α → Evaluation β) (context : Context) :
    (ExceptT.run (first >>= next)).run context =
      ((ExceptT.run first).run context).bind fun (result, between) =>
        match result with
        | .ok step => (ExceptT.run (next step)).run between
        | .error failure => some (.error failure, between) := by
  refine Option.bind_congr fun outcome _ => ?_
  rcases outcome with ⟨_ | _, _⟩ <;> rfl

theorem run_bind_eq_ok {first : Evaluation α} {next : α → Evaluation β} {value : β} :
    (ExceptT.run (first >>= next)).run context = some (.ok value, after) ↔
      ∃ step between, (ExceptT.run first).run context = some (.ok step, between) ∧
        (ExceptT.run (next step)).run between = some (.ok value, after) := by
  rw [run_bind_eq]
  rcases (ExceptT.run first).run context with _ | ⟨failure | step, between⟩ <;>
    simp [and_assoc]

/-- A composed evaluation does not end if one of its two parts does not. -/
theorem run_bind_eq_none {first : Evaluation α} {next : α → Evaluation β} :
    (ExceptT.run (first >>= next)).run context = none ↔
      (ExceptT.run first).run context = none ∨
        ∃ step between, (ExceptT.run first).run context = some (.ok step, between) ∧
          (ExceptT.run (next step)).run between = none := by
  rw [run_bind_eq]
  rcases (ExceptT.run first).run context with _ | ⟨failure | step, between⟩ <;>
    simp [and_assoc]

theorem run_ofRun (run : Run α) (context : Context) :
    (ExceptT.run (ofRun run)).run context = (run.run context).map (Prod.map Except.ok id) := by
  change (run.run context).bind _ = _
  cases run.run context <;> rfl

theorem run_ofRun_eq_ok {run : Run α} {value : α} :
    (ExceptT.run (ofRun run)).run context = some (.ok value, after) ↔
      run.run context = some (value, after) := by
  rw [run_ofRun, Option.map_eq_some_iff]
  constructor
  · rintro ⟨⟨result, between⟩, hrun, hresult⟩
    cases hresult
    exact hrun
  · exact fun hrun => ⟨_, hrun, rfl⟩

theorem run_pure_eq_ok {value value' : α} :
    (ExceptT.run (pure value : Evaluation α)).run context = some (.ok value', after) ↔
      value = value' ∧ context = after := by
  change some (Except.ok value, context) = _ ↔ _
  simp

theorem run_outcomeValue (evaluation : Evaluation Value) (context : Context) :
    (outcomeValue evaluation).run context =
      ((ExceptT.run evaluation).run context).map fun (result, between) =>
        (match result with
          | .ok value => value
          | .error failure => .error failure, between) := by
  change ((ExceptT.run evaluation).run context).bind _ = _
  rcases (ExceptT.run evaluation).run context with _ | ⟨failure | value, between⟩ <;> rfl

/-- An outcome that is no failure is that of an evaluation that ends with a value. -/
theorem run_eq_ok_of_outcomeValue {evaluation : Evaluation Value} {value : Value}
    (hrun : (ExceptT.run (ofRun (outcomeValue evaluation))).run context = some (.ok value, after))
    (hvalue : ∀ failure, value ≠ .error failure) :
    (ExceptT.run evaluation).run context = some (.ok value, after) := by
  obtain ⟨⟨result, between⟩, hresult, hequal⟩ :=
    Option.map_eq_some_iff.1 (run_outcomeValue evaluation context ▸ run_ofRun_eq_ok.1 hrun)
  cases result with
  | ok value' =>
    cases hequal
    exact hresult
  | error failure =>
    cases hequal
    exact absurd rfl (hvalue failure)

/-! ## Operands -/

section

variable {evaluator : Evaluator} {depth : Nat} {left right : Expr Token} {between : Context}

/-- An operator that is not lazy is applied to the values of its operands. -/
theorem run_evaluateExpr_binary {leftValue rightValue : Value} (token : Token) (op : BinaryOp)
    (hand : op ≠ .and) (hor : op ≠ .or)
    (hleft : (ExceptT.run (evaluateExpr evaluator depth left)).run context =
      some (.ok leftValue, between))
    (hright : (ExceptT.run (evaluateExpr evaluator depth right)).run between =
      some (.ok rightValue, after)) :
    (ExceptT.run (evaluateExpr evaluator depth (.binary token op left right))).run context =
      (ExceptT.run (ofOperator token (Operator.binary op leftValue rightValue))).run after := by
  unfold evaluateExpr at *
  rw [evaluate, run_bind_eq, hleft]
  cases op <;> first | exact absurd rfl hand | exact absurd rfl hor | skip
  all_goals
    change (ExceptT.run (evaluate evaluator (invoke evaluator depth) right >>= _)).run between = _
    rw [run_bind_eq, hright]
    rfl

end

end Evaluation

end Stencil
