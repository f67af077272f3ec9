import Stencil.Proofs.Evaluation.Places
import Stencil.Proofs.Evaluation.Repetition

/-!
# Bodies one after the other

The output of two bodies one after the other is the output of the first and then that of the second,
which starts in the context that the first has left.
-/

namespace Stencil

namespace Evaluation

variable {evaluator : Evaluator} {depth : Nat} {context between after : Context}
  {first second body : List (Node Token)} {text text' : String}

section

variable (invoke : MacroCall → Evaluation Value)

/-- What has been written before stands in front of whatever is written next. -/
theorem execute_front (front written : String) (body : List (Node Token)) :
    execute evaluator invoke (front ++ written) body =
      (fun output => (front ++ output.1, output.2)) <$> execute evaluator invoke written body := by
  induction body generalizing written with
  | nil => rfl
  | cons node rest ih =>
    cases node with
    | text content =>
      rw [execute, execute, String.append_assoc]
      exact ih _
    | output expr =>
      rw [execute, execute, map_bind]
      refine bind_congr fun result => ?_
      cases result with
      | ok value =>
        dsimp only
        rw [String.append_assoc]
        exact ih _
      | error failure => rfl

/-- A failure in the first body keeps the second one from being written. -/
theorem execute_append (written : String) (first second : List (Node Token)) :
    execute evaluator invoke written (first ++ second) =
      execute evaluator invoke written first >>= fun (written, failure?) =>
        match failure? with
        | none => execute evaluator invoke written second
        | some failure => pure (written, some failure) := by
  induction first generalizing written with
  | nil => rfl
  | cons node rest ih =>
    cases node with
    | text content => exact ih _
    | output expr =>
      rw [List.cons_append, execute, execute, bind_assoc]
      refine bind_congr fun result => ?_
      cases result with
      | ok value => exact ih _
      | error failure => rfl

end

/-- The body writes the text without a failure and leaves the second context. -/
def Writes (evaluator : Evaluator) (depth : Nat) (body : List (Node Token)) (context : Context)
    (text : String) (after : Context) : Prop :=
  (executeBody evaluator depth "" body).run context = some ((text, none), after)

theorem renderBody_iff_writes :
    (ExceptT.run (renderBody evaluator depth body)).run context = some (.ok text, after) ↔
      Writes evaluator depth body context text after := by
  rw [run_renderBody, Writes, Option.map_eq_some_iff]
  constructor
  · rintro ⟨⟨⟨written, failure?⟩, last⟩, hrun, houtput⟩
    cases failure? with
    | none =>
      cases houtput
      exact hrun
    | some failure => cases houtput
  · intro hrun
    exact ⟨_, hrun, rfl⟩

theorem Writes.append (hfirst : Writes evaluator depth first context text between)
    (hsecond : Writes evaluator depth second between text' after) :
    Writes evaluator depth (first ++ second) context (text ++ text') after := by
  unfold Writes executeBody at *
  have hrest : (execute evaluator (invoke evaluator depth) "" (first ++ second)).run context =
      (execute evaluator (invoke evaluator depth) text second).run between := by
    rw [execute_append, StateT.run_bind, hfirst]
    rfl
  have hfront : execute evaluator (invoke evaluator depth) text second = _ :=
    String.append_empty ▸ execute_front (invoke evaluator depth) text "" second
  rw [hrest, hfront, StateT.run_map, hsecond]
  rfl

/-- What a body has written in one context it writes in the same context after other runs. -/
theorem Writes.again (hwrites : Writes evaluator depth body context text after)
    (hkeeps : evaluator.Keeps context.Past) (hwithin : context.Within context.Past)
    (hages : context.AgesTo between) : ∃ last, Writes evaluator depth body between text last := by
  have hagain : ((executeBody evaluator depth "" body).run between).map Prod.fst = _ :=
    executeBody_again hkeeps hwithin hages "" body
  rw [hwrites, Option.map_some, Option.map_eq_some_iff] at hagain
  obtain ⟨⟨output, last⟩, hrun, rfl⟩ := hagain
  exact ⟨last, hrun⟩

end Evaluation

end Stencil
