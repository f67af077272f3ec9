import Stencil.Proofs.Evaluation.Alike

/-!
# Evaluating again

An evaluation leaves its context as it was but for the serial numbers that it has used up, and these
make no difference to whatever is evaluated next.
-/

namespace Stencil

namespace Evaluation

open Context

variable {evaluator : Evaluator} {depth : Nat}

/-- The result of rendering a body whose output is known. -/
def rendered (output : String × Option Failure) : Except Failure String :=
  match output.2 with
  | none => .ok output.1
  | some failure => .error failure

theorem run_renderBody (body : List (Node Token)) (context : Context) :
    (ExceptT.run (renderBody evaluator depth body)).run context =
      ((executeBody evaluator depth "" body).run context).map
        fun (output, after) => (rendered output, after) := by
  unfold renderBody ofRun
  cases hrun : (executeBody evaluator depth "" body).run context with
  | none => simp [hrun]
  | some outcome =>
    obtain ⟨⟨written, failure?⟩, after⟩ := outcome
    cases failure? <;> simp [hrun, rendered]

theorem map_fst_renderBody (body : List (Node Token)) (context : Context) :
    ((ExceptT.run (renderBody evaluator depth body)).run context).map Prod.fst =
      (((executeBody evaluator depth "" body).run context).map Prod.fst).map rendered := by
  rw [run_renderBody, Option.map_map, Option.map_map]
  rfl

variable {context after : Context}

theorem evaluateExpr_again (hkeeps : evaluator.Keeps context.Past)
    (hwithin : context.Within context.Past) (hages : context.AgesTo after) (expr : Expr Token) :
    ((ExceptT.run (evaluateExpr evaluator depth expr)).run after).map Prod.fst =
      ((ExceptT.run (evaluateExpr evaluator depth expr)).run context).map Prod.fst :=
  (map_fst_eq_of_tiedOutcome (couples_evaluateExpr (lawful_alike hkeeps) nests_alike depth ([], [])
    expr (alike_self hages hwithin)) fun _ _ => eq_of_sameResult).symm

theorem executeBody_again (hkeeps : evaluator.Keeps context.Past)
    (hwithin : context.Within context.Past) (hages : context.AgesTo after) (written : String)
    (body : List (Node Token)) :
    ((executeBody evaluator depth written body).run after).map Prod.fst =
      ((executeBody evaluator depth written body).run context).map Prod.fst :=
  (map_fst_eq_of_tiedOutcome (tied_executeBody (lawful_alike hkeeps) nests_alike depth ([], [])
    written body (alike_self hages hwithin)) fun _ _ => eq_of_sameOutput).symm

theorem agesTo_of_renderBody {body : List (Node Token)} {result : Except Failure String}
    (hrun : (ExceptT.run (renderBody evaluator depth body)).run context = some (result, after)) :
    context.AgesTo after := by
  rw [run_renderBody] at hrun
  obtain ⟨⟨output, last⟩, houtput, hlast⟩ := Option.map_eq_some_iff.1 hrun
  rw [← (Prod.mk.inj hlast).2]
  exact agesTo_of_executeBody houtput

theorem renderBody_again (hkeeps : evaluator.Keeps context.Past)
    (hwithin : context.Within context.Past) (hages : context.AgesTo after)
    (body : List (Node Token)) :
    ((ExceptT.run (renderBody evaluator depth body)).run after).map Prod.fst =
      ((ExceptT.run (renderBody evaluator depth body)).run context).map Prod.fst := by
  rw [map_fst_renderBody, map_fst_renderBody, executeBody_again hkeeps hwithin hages]

/-- Whatever becomes of an evaluation or of a body, the context is left as it was but for the serial
numbers used up, and from a context that a host can bring about, doing the same once more has the
same outcome. -/
theorem evaluation_leaves_no_trace (evaluator : Evaluator) (depth : Nat) (context : Context) :
    (∀ expr result after,
      (ExceptT.run (evaluateExpr evaluator depth expr)).run context = some (result, after) →
        context.AgesTo after) ∧
    (∀ written body output after,
      (executeBody evaluator depth written body).run context = some (output, after) →
        context.AgesTo after) ∧
    (∀ body result after,
      (ExceptT.run (renderBody evaluator depth body)).run context = some (result, after) →
        context.AgesTo after) ∧
    ∀ workspace name, Workspace.Reachable workspace → workspace.context? name = some context →
      evaluator.Keeps context.Past →
        (∀ expr result after,
          (ExceptT.run (evaluateExpr evaluator depth expr)).run context = some (result, after) →
            ((ExceptT.run (evaluateExpr evaluator depth expr)).run after).map Prod.fst =
              some result) ∧
        (∀ written body output after,
          (executeBody evaluator depth written body).run context = some (output, after) →
            ((executeBody evaluator depth written body).run after).map Prod.fst = some output) ∧
        ∀ body result after,
          (ExceptT.run (renderBody evaluator depth body)).run context = some (result, after) →
            ((ExceptT.run (renderBody evaluator depth body)).run after).map Prod.fst =
              some result := by
  refine ⟨fun _ _ _ => agesTo_of_evaluateExpr, fun _ _ _ _ => agesTo_of_executeBody,
    fun _ _ _ => agesTo_of_renderBody, fun workspace name hreachable hcontext hkeeps => ?_⟩
  have hwithin := hreachable.within_past hcontext
  refine ⟨fun expr result after hrun => ?_, fun written body output after hrun => ?_,
    fun body result after hrun => ?_⟩
  · rw [evaluateExpr_again hkeeps hwithin (agesTo_of_evaluateExpr hrun) expr, hrun, Option.map_some]
  · rw [executeBody_again hkeeps hwithin (agesTo_of_executeBody hrun) written body, hrun,
      Option.map_some]
  · rw [renderBody_again hkeeps hwithin (agesTo_of_renderBody hrun) body, hrun, Option.map_some]

/-- A macro with the body `{{ greeting }}{{ greeting() if loud }}`, which fails if it is loud. -/
def greeter : Macro Token where
  name := "greet"
  required := []
  defaulted := [("loud", .bool ⟨.name, "false", ⟨0, 5, 1, 1⟩⟩ false)]
  body := [.output (.name ⟨.name, "greeting", ⟨3, 11, 1, 4⟩⟩ "greeting"),
    .output (.conditional ⟨.name, "if", ⟨28, 30, 1, 29⟩⟩
      (.name ⟨.name, "loud", ⟨31, 35, 1, 32⟩⟩ "loud")
      (.call ⟨.leftParen, "(", ⟨25, 26, 1, 26⟩⟩
        (.name ⟨.name, "greeting", ⟨17, 25, 1, 18⟩⟩ "greeting") [] []) none)]

def callGreeter (arguments : List (Expr Token)) : Expr Token :=
  .call ⟨.leftParen, "(", ⟨5, 6, 1, 6⟩⟩ (.name ⟨.name, "greet", ⟨0, 5, 1, 1⟩⟩ "greet") arguments []

/-- A call opens a frame and closes it again, whether it returns or fails, and the next call finds
what the first one found. -/
theorem evaluation_leaves_no_trace_call :
    let quiet := callGreeter []
    let loud := callGreeter [.bool ⟨.name, "true", ⟨6, 10, 1, 7⟩⟩ true]
    let context := (Context.ofBindings 0 [("greeting", .string "hello")]).define "greet"
      (.procedure 0 greeter ⟨[], [("loud", .bool false)], false, false⟩ ⟨0, 0, 0⟩)
    let after : Context := { context with nextSerial := context.nextSerial + 1 }
    let failure : Failure := .execution "greet" (.evaluation (.notCallable .string) 1 26)
    ((ExceptT.run (evaluateExpr .bare 1 quiet)).run context = some (.ok (.safe "hello"), after) ∧
      (ExceptT.run (evaluateExpr .bare 1 loud)).run context = some (.error failure, after)) ∧
    context.AgesTo after ∧
    ((ExceptT.run (evaluateExpr .bare 1 quiet)).run after).map Prod.fst =
      some (.ok (.safe "hello")) ∧
    ((ExceptT.run (evaluateExpr .bare 1 loud)).run after).map Prod.fst = some (.error failure) := by
  intro quiet loud context after failure
  let made := Workspace.create (.empty .bare) "main" [("greeting", .string "hello")]
  have hmade : made.Reachable :=
    .step (.create "main" [("greeting", .string "hello")]) (.empty .bare)
      (List.forall_mem_singleton.2 (Value.within_of_isPlain rfl)) rfl
  have hreachable : Workspace.Reachable
      { made.putContext "main" context with nextMacro := 1 } :=
    .step (.declareMacro "main" 0 greeter) hmade (Evaluator.keeps_bare _) rfl
  obtain ⟨hages, -, -, hagain⟩ := evaluation_leaves_no_trace .bare 1 context
  obtain ⟨hexpr, -, -⟩ := hagain _ "main" hreachable rfl (Evaluator.keeps_bare _)
  have hquiet : (ExceptT.run (evaluateExpr .bare 1 quiet)).run context =
    some (.ok (.safe "hello"), after) := rfl
  have hloud : (ExceptT.run (evaluateExpr .bare 1 loud)).run context =
    some (.error failure, after) := rfl
  exact ⟨⟨hquiet, hloud⟩, hages _ _ _ hloud, hexpr _ _ _ hquiet, hexpr _ _ _ hloud⟩

end Evaluation

end Stencil
