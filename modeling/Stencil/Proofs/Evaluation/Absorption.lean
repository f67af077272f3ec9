import Stencil.Proofs.Call.Delivery
import Stencil.Proofs.Evaluation.Bodies
import Stencil.Proofs.Evaluation.Clean
import Stencil.Proofs.Evaluation.Order

/-!
# Failures are not absorbed

An expression that fails ends whatever has come to it: the expressions around it, the body in which
it stands, and the call of a macro with that body.  So what ends with a value has met no failure on
its way, and what it shows are its own texts and clean values.
-/

namespace Stencil

namespace Evaluation

open Value

/-! ## Bodies -/

/-- Started in the first context, the body shows the text and leaves the second context.  The text
is made of the body's own texts and of what its expressions show, which are clean values. -/
inductive Shows (evaluator : Evaluator) (depth : Nat) :
    List (Node Token) → Context → String → Context → Prop where
  | nil {context} : Shows evaluator depth [] context "" context
  | text {content rest context shown after} : Shows evaluator depth rest context shown after →
      Shows evaluator depth (.text content :: rest) context (content ++ shown) after
  | output {expr rest context value between shown after} :
      (ExceptT.run (evaluateExpr evaluator depth expr)).run context = some (.ok value, between) →
      value.Clean → Shows evaluator depth rest between shown after →
      Shows evaluator depth (.output expr :: rest) context (value.display ++ shown) after

/-- Behind the text shown so far the body comes to an expression that fails. -/
inductive Breaks (evaluator : Evaluator) (depth : Nat) :
    List (Node Token) → Context → String → Failure → Context → Prop where
  | intro {before expr rest context shown between target inner failure after} :
      Shows evaluator depth before context shown between →
      Reaches evaluator (invoke evaluator depth) expr between target inner →
      (ExceptT.run (evaluateExpr evaluator depth target)).run inner =
        some (.error failure, after) →
      Breaks evaluator depth (before ++ .output expr :: rest) context shown failure after

variable {evaluator : Evaluator} {depth : Nat} {context after : Context}
  {body rest : List (Node Token)} {shown written text : String} {failure : Failure}

theorem run_executeBody_output (written : String) (expr : Expr Token) (rest : List (Node Token))
    (context : Context) :
    (executeBody evaluator depth written (.output expr :: rest)).run context =
      ((ExceptT.run (evaluateExpr evaluator depth expr)).run context).bind
        fun (result, between) =>
          match result with
          | .ok value => (executeBody evaluator depth (written ++ value.display) rest).run between
          | .error failure => some ((written, some failure), between) := by
  refine Option.bind_congr fun outcome _ => ?_
  rcases outcome with ⟨_ | _, _⟩ <;> rfl

/-- What a body shows stands in front of whatever is written next. -/
theorem Shows.run_executeBody_append (hshows : Shows evaluator depth body context shown after)
    (written : String) (rest : List (Node Token)) :
    (executeBody evaluator depth written (body ++ rest)).run context =
      (executeBody evaluator depth (written ++ shown) rest).run after := by
  induction hshows generalizing written with
  | nil => rw [List.nil_append, String.append_empty]
  | text _ ih =>
    rw [← String.append_assoc]
    exact ih _
  | output hvalue _ _ ih =>
    rw [List.cons_append, run_executeBody_output, hvalue, ← String.append_assoc]
    exact ih _

theorem exists_shows_of_executeBody (hyields : evaluator.Yields Clean) (hclean : context.Clean)
    (hrun : (executeBody evaluator depth written body).run context = some ((text, none), after)) :
    ∃ shown, text = written ++ shown ∧ Shows evaluator depth body context shown after := by
  induction body generalizing written context with
  | nil =>
    cases hrun
    exact ⟨"", String.append_empty.symm, .nil⟩
  | cons node rest ih =>
    cases node with
    | text content =>
      obtain ⟨shown, rfl, hshows⟩ := ih hclean hrun
      exact ⟨content ++ shown, String.append_assoc .., .text hshows⟩
    | output expr =>
      rw [run_executeBody_output, Option.bind_eq_some_iff] at hrun
      obtain ⟨⟨result, between⟩, hresult, hrest⟩ := hrun
      cases result with
      | error failure => cases hrest
      | ok value =>
        -- The next node runs in the context that this one has left, which is clean again.
        obtain ⟨hvalue, hbetween⟩ := clean_of_evaluateExpr hyields hclean hresult
        obtain ⟨shown, rfl, hshows⟩ := ih hbetween hrest
        exact ⟨value.display ++ shown, String.append_assoc .., .output hresult hvalue hshows⟩

theorem executeBody_iff_shows (hyields : evaluator.Yields Clean) (hclean : context.Clean) :
    (executeBody evaluator depth "" body).run context = some ((text, none), after) ↔
      Shows evaluator depth body context text after := by
  constructor
  · intro hrun
    obtain ⟨shown, rfl, hshows⟩ := exists_shows_of_executeBody hyields hclean hrun
    rwa [String.empty_append]
  · intro hshows
    have hrun := hshows.run_executeBody_append "" []
    rwa [List.append_nil, String.empty_append] at hrun

/-- The text shown before the failure is all that the body writes. -/
theorem Breaks.run_executeBody (hbreaks : Breaks evaluator depth body context shown failure after) :
    (executeBody evaluator depth "" body).run context = some ((shown, some failure), after) := by
  obtain ⟨hshows, hreaches, hfails⟩ := hbreaks
  have hexpr : (ExceptT.run (evaluateExpr evaluator depth _)).run _ = _ := hreaches.fails hfails
  rw [hshows.run_executeBody_append, run_executeBody_output, hexpr, String.empty_append]
  rfl

theorem Breaks.run_renderBody (hbreaks : Breaks evaluator depth body context shown failure after) :
    (ExceptT.run (renderBody evaluator depth body)).run context = some (.error failure, after) := by
  rw [Evaluation.run_renderBody, hbreaks.run_executeBody]
  rfl

/-! ## Macros -/

/-- A call that ends with a value has bound clean values, and its body shows the text returned. -/
theorem exists_shows_of_invoke (hyields : evaluator.Yields Clean) (hclean : context.Clean)
    {call : MacroCall} (hcall : call.All Clean) {value : Value}
    (hrun : (ExceptT.run (invoke evaluator (depth + 1) call)).run context =
      some (.ok value, after)) :
    ∃ bound text last, call.signature.bind call.arguments = .ok bound ∧
      Table.All Clean bound ∧ value = .safe text ∧
      Shows evaluator depth call.definition.body
        (context.pushBound call.scope.index (Table.ofList bound)) text last := by
  rw [run_invoke] at hrun
  split at hrun
  · cases hbind : call.signature.bind call.arguments with
    | error fault =>
      rw [hbind] at hrun
      cases hrun
    | ok bound =>
      obtain ⟨identity, hcallee⟩ := hcall.callee
      have hbound : Table.All Clean bound :=
        Signature.all_bind hereditary_clean (clean_procedure.1 hcallee) hcall.arguments hbind
      have hopened := hclean.pushBound call.scope.index (Table.all_nil.insertAll hbound)
      rw [hbind] at hrun
      obtain ⟨⟨⟨text, failure?⟩, last⟩, hbody, hresult⟩ := Option.map_eq_some_iff.1 hrun
      cases failure? with
      | some failure => cases hresult
      | none =>
        cases hresult
        exact ⟨bound, text, last, rfl, hbound, rfl,
          (executeBody_iff_shows hyields hopened).1 hbody⟩
  · cases hrun

theorem Breaks.run_invoke {call : MacroCall} {bound : Table Value}
    (hlive : context.isLive call.scope) (hbind : call.signature.bind call.arguments = .ok bound)
    (hbreaks : Breaks evaluator depth call.definition.body
      (context.pushBound call.scope.index (Table.ofList bound)) shown failure after) :
    (ExceptT.run (invoke evaluator (depth + 1) call)).run context =
      some (.error (.execution call.definition.name failure), after.pop) := by
  rw [Evaluation.run_invoke, if_pos hlive, hbind]
  dsimp only
  rw [hbreaks.run_executeBody]
  rfl

theorem Defaults.clean (hyields : evaluator.Yields Clean) (hclean : context.Clean)
    {defaulted : List (String × Expr Token)} {values : List (String × Value)}
    (hdefaults : Defaults evaluator depth context defaulted values after) :
    Table.All Clean values ∧ after.Clean := by
  induction hdefaults with
  | nil => exact ⟨Table.all_nil, hclean⟩
  | cons hvalue _ ih =>
    obtain ⟨hfirst, hbetween⟩ := clean_of_evaluateExpr hyields hclean hvalue
    obtain ⟨hrest, hafter⟩ := ih hbetween
    exact ⟨List.forall_mem_cons.2 ⟨hfirst, hrest⟩, hafter⟩

/-- A macro is declared only if none of its defaults fails. -/
theorem clean_of_closeMacro (hyields : evaluator.Yields Clean) (hclean : context.Clean)
    {identity : Nat} {definition : Macro Token} {value : Value}
    (hrun : (ExceptT.run (closeMacro evaluator depth identity definition)).run context =
      some (.ok value, after)) : value.Clean ∧ after.Clean := by
  obtain ⟨signature, rfl, -⟩ :=
    within_of_closeMacro evaluator.keeps_true context.within_true hrun
  obtain ⟨defaults, hdefaults, rfl⟩ := signature_of_closeMacro hrun
  obtain ⟨hvalues, hafter⟩ := hdefaults.clean hyields hclean
  exact ⟨clean_procedure.2 hvalues, hafter⟩

/-! ## The law -/

/-- In a context that binds clean values and failures, and with a host that hides no failures in its
results, whatever ends with a value ends with a clean one, and the host is given clean values only.
A subexpression that is evaluated and fails ends the expression, the body and the call around it; a
body or a call that ends without a failure shows texts and clean values; and a macro that is
declared has clean defaults. -/
theorem errors_are_never_absorbed (hyields : evaluator.Yields Clean) (hclean : context.Clean)
    (depth : Nat) :
    (∀ expr value after,
      (ExceptT.run (evaluateExpr evaluator depth expr)).run context = some (.ok value, after) →
        value.Clean ∧ after.Clean) ∧
    (∀ evaluator' : Evaluator, evaluator.Agrees Clean evaluator' →
      (∀ expr, (ExceptT.run (evaluateExpr evaluator' depth expr)).run context =
        (ExceptT.run (evaluateExpr evaluator depth expr)).run context) ∧
      ∀ written body, (executeBody evaluator' depth written body).run context =
        (executeBody evaluator depth written body).run context) ∧
    (∀ expr target inner failure after,
      Reaches evaluator (invoke evaluator depth) expr context target inner →
      (ExceptT.run (evaluateExpr evaluator depth target)).run inner =
        some (.error failure, after) →
      (ExceptT.run (evaluateExpr evaluator depth expr)).run context =
        some (.error failure, after)) ∧
    (∀ body text after,
      (ExceptT.run (renderBody evaluator depth body)).run context = some (.ok text, after) ↔
        Shows evaluator depth body context text after) ∧
    (∀ body shown failure after, Breaks evaluator depth body context shown failure after →
      (executeBody evaluator depth "" body).run context = some ((shown, some failure), after) ∧
      (ExceptT.run (renderBody evaluator depth body)).run context =
        some (.error failure, after)) ∧
    (∀ call : MacroCall, call.All Clean → ∀ value after,
      (ExceptT.run (invoke evaluator (depth + 1) call)).run context = some (.ok value, after) →
        ∃ bound text last, call.signature.bind call.arguments = .ok bound ∧
          Table.All Clean bound ∧ value = .safe text ∧
          Shows evaluator depth call.definition.body
            (context.pushBound call.scope.index (Table.ofList bound)) text last) ∧
    (∀ (call : MacroCall) bound shown failure last, context.isLive call.scope →
      call.signature.bind call.arguments = .ok bound →
      Breaks evaluator depth call.definition.body
        (context.pushBound call.scope.index (Table.ofList bound)) shown failure last →
      (ExceptT.run (invoke evaluator (depth + 1) call)).run context =
        some (.error (.execution call.definition.name failure), last.pop)) ∧
    ∀ identity definition value after,
      (ExceptT.run (closeMacro evaluator depth identity definition)).run context =
        some (.ok value, after) → value.Clean ∧ after.Clean := by
  exact ⟨fun expr value after => clean_of_evaluateExpr hyields hclean,
    fun evaluator' hagrees => ⟨evaluateExpr_congr_of_agrees hyields hagrees hclean,
      executeBody_congr_of_agrees hyields hagrees hclean⟩,
    fun expr target inner failure after hreaches => hreaches.fails,
    fun body text after => renderBody_iff_writes.trans (executeBody_iff_shows hyields hclean),
    fun body shown failure after hbreaks => ⟨hbreaks.run_executeBody, hbreaks.run_renderBody⟩,
    fun call hcall value after => exists_shows_of_invoke hyields hclean hcall,
    fun call bound shown failure last hlive hbind hbreaks => hbreaks.run_invoke hlive hbind,
    fun identity definition value after => clean_of_closeMacro hyields hclean⟩

/-- A host whose functions always fail. -/
def unwilling : Evaluator :=
  { Evaluator.bare with functions := fun _ _ => .error (.staleScope "gone") }

theorem yields_clean_unwilling : unwilling.Yields Clean where
  functions _ _ _ := .inr rfl
  filters _ _ hfilter := nomatch hfilter

/-- A failure that stands to the left of a disjunction, inside of a list. -/
theorem errors_are_never_absorbed_disjunction :
    let context := Context.ofBindings 0
      [("bad", .error (.staleScope "bad")), ("f", .function ⟨0, "f"⟩)]
    let token : Token := ⟨.name, "f", ⟨0, 1, 1, 1⟩⟩
    let call : Expr Token := .call token (.name token "f") [] []
    let either : Expr Token := .binary token .or call (.integer token 2)
    let items : Expr Token := .list token [.integer token 1, either]
    Clean (.list [.integer 1]) ∧
      (ExceptT.run (evaluateExpr unwilling 0 items)).run context =
        some (.error (.staleScope "gone"), context) := by
  intro context token call either items
  have hclean : context.Clean :=
    ⟨List.forall_mem_cons.2 ⟨.inr rfl, List.forall_mem_singleton.2 (.inl rfl)⟩, nofun⟩
  obtain ⟨hvalue, -, hfails, -⟩ := errors_are_never_absorbed yields_clean_unwilling hclean 0
  have hcall : (ExceptT.run (evaluateExpr unwilling 0 call)).run context =
      some (.error (.staleScope "gone"), context) := rfl
  have heither : Reaches unwilling (invoke unwilling 0) either context call context :=
    .step (List.mem_singleton.2 rfl) .here .self
  have hreaches : Reaches unwilling (invoke unwilling 0) items context call context :=
    .step (List.mem_singleton.2 rfl) (.later rfl rfl .here) heither
  exact ⟨(hvalue (.list token [.integer token 1]) _ context rfl).1,
    hfails _ _ _ _ _ hreaches hcall⟩

end Evaluation

end Stencil
