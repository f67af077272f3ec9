import Stencil.Proofs.Evaluation.Calls
import Stencil.Proofs.Scope.Bindings

/-!
# Clean values

A value is clean if no failure occurs in it, however deep.  In contexts that bind clean values and
failures, an evaluation that ends with a value ends with a clean one, as long as the host does not
hide failures inside of its own results; and the host is never given a value that is not clean.
-/

namespace Stencil

namespace Value

mutual

/-- Whether no failure occurs in the value, neither as an item or an entry nor in the default of a
macro. -/
def isClean : Value → Bool
  | list items => areClean items
  | map entries => entriesClean entries
  | procedure _ _ ⟨_, defaulted, _, _⟩ _ => entriesClean defaulted
  | error _ => false
  | _ => true

def areClean : List Value → Bool
  | [] => true
  | item :: items => item.isClean && areClean items

def entriesClean : List (String × Value) → Bool
  | [] => true
  | (_, value) :: entries => value.isClean && entriesClean entries

end

def Clean (value : Value) : Prop :=
  value.isClean

theorem areClean_iff {items : List Value} : areClean items ↔ ∀ item ∈ items, item.Clean := by
  induction items with
  | nil => simp [areClean]
  | cons item items ih =>
    rw [areClean, Bool.and_eq_true, ih, List.forall_mem_cons]
    rfl

theorem entriesClean_iff {entries : List (String × Value)} :
    entriesClean entries ↔ Table.All Clean entries := by
  induction entries with
  | nil => simp [entriesClean, Table.All]
  | cons entry entries ih =>
    rw [entriesClean, Bool.and_eq_true, ih, Table.All, Table.All, List.forall_mem_cons]
    rfl

theorem clean_procedure {identity : Nat} {definition : Macro Token} {signature : Signature Value}
    {scope : ScopeHandle} : (procedure identity definition signature scope).Clean ↔
      Table.All Clean signature.defaulted := by
  rw [← entriesClean_iff, Clean, isClean]

theorem hereditary_clean : Hereditary Clean where
  scalar value hscalar := by
    cases value with
    | list | map | function | procedure | error => cases hscalar
    | _ => rfl
  list _ := areClean_iff
  map _ := entriesClean_iff

end Value

/-- Every name of the context is bound to a clean value or to a failure. -/
def Context.Clean (context : Context) : Prop :=
  context.All fun value => value.Clean ∨ value.isError

theorem Context.Clean.pushBound {context : Context} (hclean : context.Clean) (parent : Nat)
    {bindings : Table Value} (hbindings : Table.All Value.Clean bindings) :
    (context.pushBound parent bindings).Clean :=
  All.pushBound hclean parent (hbindings.imp fun _ => .inl)

namespace Evaluation

open Value

/-- A run held against itself in clean contexts. -/
def cleanly : Coupling where
  contexts context context' := context' = context ∧ context.Clean
  scopes _ := True
  failures := Eq

variable {evaluator evaluator' : Evaluator} {depth : Nat} {context after : Context}

theorem finds_cleanly (name : String) : cleanly.Finds Clean name := by
  rintro _ context ⟨rfl, hclean⟩
  exact ⟨rfl, fun value hvalue => hclean.get? hvalue⟩

section

variable (hyields : evaluator.Yields Clean) (hagrees : evaluator.Agrees Clean evaluator')
include hyields hagrees

theorem respects_cleanly : cleanly.Respects Clean evaluator evaluator' id where
  hereditary := hereditary_clean
  yields := hyields
  agrees := hagrees
  refl _ := rfl
  moved _ _ := rfl
  text _ := rfl

/-- The frame that a call opens binds clean values only, so the body runs in a clean context too. -/
theorem couples_invoke_cleanly (depth : Nat) {call : MacroCall} (hcall : call.All Clean) :
    cleanly.Couples Clean (invoke evaluator depth call) (invoke evaluator' depth call) := by
  -- The calls inside of the body may be nested one level less deep.
  induction depth generalizing call with
  | zero => exact fun _ _ _ => .exhausted
  | succ depth ih =>
    rintro context _ ⟨rfl, hclean⟩
    obtain ⟨identity, hcallee⟩ := hcall.callee
    refine tiedOutcome_callMacro (fun _ => rfl) rfl ⟨rfl, hclean⟩
      (fun _ => ⟨rfl, (hclean.push _).pop⟩) fun _ bound hbind => ?_
    have hbound : Table.All Clean (Table.ofList bound) :=
      Table.all_nil.insertAll
        (Signature.all_bind hereditary_clean (clean_procedure.1 hcallee) hcall.arguments hbind)
    refine ⟨cleanly.contexts, ?_, ?_⟩
    · rintro after _ ⟨rfl, hafter⟩
      exact ⟨rfl, hafter.pop⟩
    · exact tied_execute_of_finds (respects_cleanly hyields hagrees) (fun _ => ih) ""
        (fun _ _ name _ => finds_cleanly name) ⟨rfl, hclean.pushBound _ hbound⟩

theorem couples_evaluateExpr_cleanly (expr : Expr Token) :
    cleanly.Couples Clean (evaluateExpr evaluator depth expr)
      (evaluateExpr evaluator' depth expr) := by
  have hnames : ∀ name ∈ expr.names, cleanly.Finds Clean name := fun name _ => finds_cleanly name
  have hcouples := couples_evaluate_of_finds (respects_cleanly hyields hagrees)
    (fun _ => couples_invoke_cleanly hyields hagrees depth) hnames
  rwa [Expr.mapMarks_id] at hcouples

theorem tied_executeBody_cleanly (written : String) (body : List (Node Token)) :
    Tied cleanly.contexts (SameOutput Eq) (executeBody evaluator depth written body)
      (executeBody evaluator' depth written body) :=
  tied_execute_of_finds (respects_cleanly hyields hagrees)
    (fun _ => couples_invoke_cleanly hyields hagrees depth) written
    fun _ _ name _ => finds_cleanly name

/-- What the host does with values that are not clean makes no difference. -/
theorem evaluateExpr_congr_of_agrees (hclean : context.Clean) (expr : Expr Token) :
    (ExceptT.run (evaluateExpr evaluator' depth expr)).run context =
      (ExceptT.run (evaluateExpr evaluator depth expr)).run context :=
  eq_of_tiedOutcome (couples_evaluateExpr_cleanly hyields hagrees expr ⟨rfl, hclean⟩)
    (fun _ _ => eq_of_sameResult) fun _ _ hcontexts => hcontexts.1

theorem executeBody_congr_of_agrees (hclean : context.Clean) (written : String)
    (body : List (Node Token)) :
    (executeBody evaluator' depth written body).run context =
      (executeBody evaluator depth written body).run context :=
  eq_of_tiedOutcome (tied_executeBody_cleanly hyields hagrees written body ⟨rfl, hclean⟩)
    (fun _ _ => eq_of_sameOutput) fun _ _ hcontexts => hcontexts.1

end

/-! ## Clean results -/

theorem clean_of_couples {α : Type} {good : α → Prop} {evaluation : Evaluation α}
    {result : Except Failure α} (hclean : context.Clean)
    (hcouples : cleanly.Couples good evaluation evaluation)
    (hrun : (ExceptT.run evaluation).run context = some (result, after)) :
    (∀ value, result = .ok value → good value) ∧ after.Clean := by
  have houtcome := hcouples ⟨rfl, hclean⟩
  rw [hrun] at houtcome
  cases houtcome with
  | done hresult hcontexts =>
    refine ⟨?_, hcontexts.2⟩
    rintro value rfl
    cases hresult with
    | ok hvalue => exact hvalue

theorem clean_of_evaluateExpr (hyields : evaluator.Yields Clean) (hclean : context.Clean)
    {expr : Expr Token} {value : Value}
    (hrun : (ExceptT.run (evaluateExpr evaluator depth expr)).run context =
      some (.ok value, after)) : value.Clean ∧ after.Clean :=
  (clean_of_couples hclean
    (couples_evaluateExpr_cleanly hyields (evaluator.agrees_self _) expr) hrun).imp_left
      fun hvalue => hvalue value rfl

end Evaluation

end Stencil
