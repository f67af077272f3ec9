import Stencil.Proofs.Evaluation.Order
import Stencil.Proofs.Table

/-!
# Spread arguments

The arguments of a call or a filter are collected from left to right.  The elements of a spread list
stand among the positional arguments like arguments of their own, the entries of spread maps come
before all named arguments, and of several values for a name the last one counts.
-/

namespace Stencil

/-- The positional arguments for which an argument with this value stands. -/
def Expr.givenPositional (item : Expr Token) (value : Value) : List Value :=
  match item with
  | .spread _ _ =>
    match value with
    | .list items => items
    | _ => []
  | .namedSpread _ _ => []
  | _ => [value]

/-- The named arguments for which an argument with this value stands. -/
def Expr.givenNamed (item : Expr Token) (value : Value) : List (String × Value) :=
  match item with
  | .namedSpread _ _ =>
    match value with
    | .map entries => entries
    | _ => []
  | _ => []

/-- Why the value of an argument cannot be spread as it is to be. -/
def Expr.spreadFault? (item : Expr Token) (value : Value) : Option EvaluationFault :=
  match item with
  | .spread _ _ => if value.type = .list then none else some (.spreadNotList value.type)
  | .namedSpread _ _ => if value.type = .map then none else some (.spreadNotMap value.type)
  | _ => none

theorem Turn.goesOn_argument_iff {item : Expr Token} {value : Value} :
    (argument item).goesOn value ↔ item.spreadFault? value = none := by
  cases item <;> simp [argument, always, Expr.spreadFault?]

/-! ## Arguments -/

namespace Arguments

/-- The arguments with those for which one more positional argument stands. -/
def give (arguments : Arguments) (item : Expr Token) (value : Value) : Arguments :=
  (arguments.addPositional (item.givenPositional value)).addNamed (item.givenNamed value)

/-- The arguments that are given by some expressions with these values. -/
def giveAll (arguments : Arguments) (items : List (Expr Token)) (values : List Value) : Arguments :=
  (arguments.addPositional (List.zipWith Expr.givenPositional items values).flatten).addNamed
    (List.zipWith Expr.givenNamed items values).flatten

theorem giveAll_cons (arguments : Arguments) (item : Expr Token) (items : List (Expr Token))
    (value : Value) (values : List Value) :
    arguments.giveAll (item :: items) (value :: values) =
      (arguments.give item value).giveAll items values := by
  simp only [giveAll, give, addPositional, addNamed, List.zipWith_cons_cons, List.flatten_cons,
    List.append_assoc, Table.insertAll_append]

theorem addPositional_addPositional (arguments : Arguments) (values later : List Value) :
    (arguments.addPositional values).addPositional later =
      arguments.addPositional (values ++ later) := by
  simp only [addPositional, List.append_assoc]

end Arguments

namespace Evaluation

section

variable (evaluator : Evaluator) (invoke : MacroCall → Evaluation Value)

/-- The arguments of a call or a filter, all of them evaluated. -/
def collect (positional : List (Expr Token)) (named : List (String × Expr Token)) :
    Evaluation Arguments :=
  evaluatePositional evaluator invoke positional {} >>= evaluateNamed evaluator invoke named

/-- All operands are evaluated, in turn, to these values, and each of them lets the evaluation go
on. -/
inductive Passes : List Turn → Context → List Value → Context → Prop where
  | nil {context} : Passes [] context [] context
  | cons {turn rest context value between values after} :
      (ExceptT.run (evaluate evaluator invoke turn.operand)).run context =
        some (.ok value, between) →
      turn.goesOn value → Passes rest between values after →
      Passes (turn :: rest) context (value :: values) after

/-- The operands come to one whose evaluation does not end. -/
def Stalls (turns : List Turn) (context : Context) : Prop :=
  ∃ operand inner, ComesTo evaluator invoke turns context operand inner ∧
    (ExceptT.run (evaluate evaluator invoke operand)).run inner = none

end

section

variable {evaluator : Evaluator} {invoke : MacroCall → Evaluation Value}
  {positional items rest : List (Expr Token)} {named : List (String × Expr Token)}
  {turns later : List Turn} {context between after : Context} {arguments result : Arguments}
  {values : List Value}

/-! ## Operands in turn -/

theorem Stalls.append (hstalls : Stalls evaluator invoke turns context) (later : List Turn) :
    Stalls evaluator invoke (turns ++ later) context := by
  obtain ⟨operand, inner, hcomes, hendless⟩ := hstalls
  refine ⟨operand, inner, ?_, hendless⟩
  induction hcomes with
  | here => exact .here
  | later hvalue hgoesOn _ ih => exact .later hvalue hgoesOn (ih hendless)

theorem Passes.stalls (hpasses : Passes evaluator invoke turns context values between)
    (hstalls : Stalls evaluator invoke later between) :
    Stalls evaluator invoke (turns ++ later) context := by
  induction hpasses with
  | nil => exact hstalls
  | cons hvalue hgoesOn _ ih =>
    obtain ⟨operand, inner, hcomes, hendless⟩ := ih hstalls
    exact ⟨operand, inner, .later hvalue hgoesOn hcomes, hendless⟩

/-! ## Positional arguments -/

/-- A positional argument is evaluated and given, if its value can be spread as it is to be. -/
theorem evaluatePositional_step (item : Expr Token) (rest : List (Expr Token))
    (arguments : Arguments) :
    evaluatePositional evaluator invoke (item :: rest) arguments =
      evaluate evaluator invoke (Turn.argument item).operand >>= fun value =>
        match item.spreadFault? value with
        | none => evaluatePositional evaluator invoke rest (arguments.give item value)
        | some fault => raise item.mark fault := by
  cases item with
  | spread token operand =>
    rw [evaluatePositional]
    refine bind_congr fun value => ?_
    cases value <;> rfl
  | namedSpread token operand =>
    have hgive (value : Value) : arguments.give (.namedSpread token operand) value =
        arguments.addNamed ((Expr.namedSpread token operand).givenNamed value) := by
      simp only [Arguments.give, Expr.givenPositional, Arguments.addPositional, List.append_nil]
    rw [evaluatePositional]
    refine bind_congr fun value => ?_
    rw [hgive]
    cases value <;> rfl
  | _ => exact evaluatePositional_cons rfl

theorem run_evaluatePositional_eq_ok :
    (ExceptT.run (evaluatePositional evaluator invoke positional arguments)).run context =
        some (.ok result, after) ↔
      ∃ values, Passes evaluator invoke (positional.map .argument) context values after ∧
        result = arguments.giveAll positional values := by
  induction positional generalizing arguments context with
  | nil =>
    rw [evaluatePositional, run_pure_eq_ok]
    constructor
    · rintro ⟨rfl, rfl⟩
      exact ⟨[], .nil, by simp [Arguments.giveAll, Arguments.addPositional, Arguments.addNamed,
        Table.insertAll]⟩
    · rintro ⟨values, hpasses, rfl⟩
      cases hpasses
      exact ⟨by simp [Arguments.giveAll, Arguments.addPositional, Arguments.addNamed,
        Table.insertAll], rfl⟩
  | cons item rest ih =>
    rw [evaluatePositional_step, run_bind_eq_ok, List.map_cons]
    constructor
    · rintro ⟨value, between, hvalue, hrest⟩
      cases hfault : item.spreadFault? value with
      | some fault =>
        rw [hfault] at hrest
        cases hrest
      | none =>
        rw [hfault] at hrest
        obtain ⟨values, hpasses, rfl⟩ := ih.1 hrest
        exact ⟨value :: values, .cons hvalue (Turn.goesOn_argument_iff.2 hfault) hpasses,
          (arguments.giveAll_cons ..).symm⟩
    · rintro ⟨values, hpasses, rfl⟩
      cases hpasses with
      | @cons _ _ _ value between values _ hvalue hgoesOn hpasses =>
        refine ⟨value, between, hvalue, ?_⟩
        rw [Turn.goesOn_argument_iff.1 hgoesOn]
        exact ih.2 ⟨values, hpasses, arguments.giveAll_cons ..⟩

theorem stalls_of_evaluatePositional
    (hrun : (ExceptT.run (evaluatePositional evaluator invoke positional arguments)).run context =
      none) : Stalls evaluator invoke (positional.map .argument) context := by
  induction positional generalizing arguments context with
  | nil =>
    rw [evaluatePositional] at hrun
    cases hrun
  | cons item rest ih =>
    rw [evaluatePositional_step, run_bind_eq_none] at hrun
    rcases hrun with hendless | ⟨value, between, hvalue, hrest⟩
    · exact ⟨_, _, .here, hendless⟩
    · cases hfault : item.spreadFault? value with
      | some fault =>
        rw [hfault] at hrest
        cases hrest
      | none =>
        rw [hfault] at hrest
        obtain ⟨operand, inner, hcomes, hendless⟩ := ih hrest
        exact ⟨operand, inner, .later hvalue (Turn.goesOn_argument_iff.2 hfault) hcomes, hendless⟩

/-! ## Named arguments -/

theorem run_evaluateNamed_eq_ok :
    (ExceptT.run (evaluateNamed evaluator invoke named arguments)).run context =
        some (.ok result, after) ↔
      ∃ given, Passes evaluator invoke (named.map fun argument => .always argument.2) context given
          after ∧
        result = arguments.addNamed ((named.map Prod.fst).zip given) := by
  induction named generalizing arguments context with
  | nil =>
    rw [evaluateNamed, run_pure_eq_ok]
    constructor
    · rintro ⟨rfl, rfl⟩
      exact ⟨[], .nil, rfl⟩
    · rintro ⟨given, hpasses, rfl⟩
      cases hpasses
      exact ⟨rfl, rfl⟩
  | cons argument rest ih =>
    rw [evaluateNamed, run_bind_eq_ok, List.map_cons]
    constructor
    · rintro ⟨value, between, hvalue, hrest⟩
      obtain ⟨given, hpasses, rfl⟩ := ih.1 hrest
      exact ⟨value :: given, .cons hvalue rfl hpasses, rfl⟩
    · rintro ⟨given, hpasses, rfl⟩
      cases hpasses with
      | @cons _ _ _ value between given _ hvalue _ hpasses =>
        exact ⟨value, between, hvalue, ih.2 ⟨given, hpasses, rfl⟩⟩

theorem stalls_of_evaluateNamed
    (hrun : (ExceptT.run (evaluateNamed evaluator invoke named arguments)).run context = none) :
    Stalls evaluator invoke (named.map fun argument => .always argument.2) context := by
  induction named generalizing arguments context with
  | nil =>
    rw [evaluateNamed] at hrun
    cases hrun
  | cons argument rest ih =>
    rw [evaluateNamed, run_bind_eq_none] at hrun
    rcases hrun with hendless | ⟨value, between, hvalue, hrest⟩
    · exact ⟨_, _, .here, hendless⟩
    · obtain ⟨operand, inner, hcomes, hendless⟩ := ih hrest
      exact ⟨operand, inner, .later hvalue rfl hcomes, hendless⟩

/-! ## All arguments -/

variable {given : List Value}

/-- Collecting succeeds if all arguments are evaluated and can be given, and only then. -/
theorem run_collect_eq_ok :
    (ExceptT.run (collect evaluator invoke positional named)).run context =
        some (.ok result, after) ↔
      ∃ values between given,
        Passes evaluator invoke (positional.map .argument) context values between ∧
        Passes evaluator invoke (named.map fun argument => .always argument.2) between given
          after ∧
        result = (Arguments.giveAll {} positional values).addNamed
          ((named.map Prod.fst).zip given) := by
  rw [collect, run_bind_eq_ok]
  constructor
  · rintro ⟨arguments, between, hpositional, hnamed⟩
    obtain ⟨values, hvalues, rfl⟩ := run_evaluatePositional_eq_ok.1 hpositional
    obtain ⟨given, hgiven, rfl⟩ := run_evaluateNamed_eq_ok.1 hnamed
    exact ⟨values, between, given, hvalues, hgiven, rfl⟩
  · rintro ⟨values, between, given, hvalues, hgiven, rfl⟩
    exact ⟨_, between, run_evaluatePositional_eq_ok.2 ⟨values, hvalues, rfl⟩,
      run_evaluateNamed_eq_ok.2 ⟨given, hgiven, rfl⟩⟩

theorem stalls_of_collect
    (hrun : (ExceptT.run (collect evaluator invoke positional named)).run context = none) :
    Stalls evaluator invoke (Expr.argumentTurns positional named) context := by
  rw [collect, run_bind_eq_none] at hrun
  rcases hrun with hpositional | ⟨arguments, between, hpositional, hnamed⟩
  · exact (stalls_of_evaluatePositional hpositional).append _
  · obtain ⟨values, hvalues, -⟩ := run_evaluatePositional_eq_ok.1 hpositional
    exact hvalues.stalls (stalls_of_evaluateNamed hnamed)

/-- An explicit argument of a name counts before those of spread maps, of which the last one
counts. -/
theorem getNamed?_giveAll (positional : List (Expr Token)) (values : List Value)
    (explicit : List (String × Value)) (name : String) :
    ((Arguments.giveAll {} positional values).addNamed explicit).getNamed? name =
      (Table.get? name (Table.ofList explicit)).or
        ((List.zipWith Expr.givenNamed positional values).reverse.findSome? fun entries =>
          Table.get? name (Table.ofList entries)) := by
  rw [← Table.get?_ofList_flatten]
  exact Table.get?_insertAll_ofList name explicit _

/-! ## Spread list literals -/

/-- Arguments that are not spread are evaluated like the items of a list. -/
theorem evaluatePositional_append (hitems : ∀ item ∈ items, item.isSpread = false) :
    evaluatePositional evaluator invoke (items ++ rest) arguments =
      evaluateItems evaluator invoke items >>= fun values =>
        evaluatePositional evaluator invoke rest (arguments.addPositional values) := by
  induction items generalizing arguments with
  | nil =>
    have hnone : arguments.addPositional [] = arguments := by
      simp only [Arguments.addPositional, List.append_nil]
    rw [evaluateItems, pure_bind, hnone, List.nil_append]
  | cons item items ih =>
    obtain ⟨hitem, hitems⟩ := List.forall_mem_cons.1 hitems
    rw [List.cons_append, evaluatePositional_cons hitem, evaluateItems, bind_assoc]
    refine bind_congr fun value => ?_
    rw [ih hitems, bind_assoc]
    refine bind_congr fun values => ?_
    rw [pure_bind, Arguments.addPositional_addPositional, List.singleton_append]

theorem evaluatePositional_spread_list (star bracket : Token)
    (hitems : ∀ item ∈ items, item.isSpread = false) :
    evaluatePositional evaluator invoke (.spread star (.list bracket items) :: rest) arguments =
      evaluatePositional evaluator invoke (items ++ rest) arguments := by
  rw [evaluatePositional_append hitems, evaluatePositional, evaluate, bind_assoc]
  exact bind_congr fun values => pure_bind _ _

/-- What stands behind some arguments may be replaced by what evaluates alike. -/
theorem evaluatePositional_congr {rest' : List (Expr Token)} (before : List (Expr Token))
    (hrest : ∀ arguments, evaluatePositional evaluator invoke rest' arguments =
      evaluatePositional evaluator invoke rest arguments) (arguments : Arguments) :
    evaluatePositional evaluator invoke (before ++ rest') arguments =
      evaluatePositional evaluator invoke (before ++ rest) arguments := by
  induction before generalizing arguments with
  | nil => exact hrest arguments
  | cons item before ih =>
    rw [List.cons_append, List.cons_append, evaluatePositional_step, evaluatePositional_step]
    simp only [ih]

theorem collect_spread_list (star bracket : Token) (before : List (Expr Token))
    (hitems : ∀ item ∈ items, item.isSpread = false) :
    collect evaluator invoke (before ++ .spread star (.list bracket items) :: rest) named =
      collect evaluator invoke (before ++ (items ++ rest)) named := by
  rw [collect, evaluatePositional_congr before fun _ =>
    evaluatePositional_spread_list star bracket hitems]
  rfl

/-- A call collects its arguments after its callee has been evaluated. -/
theorem evaluate_call (token : Token) (callee : Expr Token) :
    evaluate evaluator invoke (.call token callee positional named) =
      evaluate evaluator invoke callee >>= fun value =>
        collect evaluator invoke positional named >>= apply evaluator invoke token value := by
  simp only [evaluate, collect, bind_assoc]

/-- A filter that the host knows collects its arguments after its subject has been evaluated. -/
theorem evaluate_filter (token : Token) (subject : Expr Token) (name : String) :
    evaluate evaluator invoke (.filter token subject name positional named) =
      match evaluator.filters.get? name with
      | none => throw (.unknownFilter name)
      | some filter => evaluate evaluator invoke subject >>= fun value =>
          collect evaluator invoke positional named >>= fun arguments =>
            checked (filter value arguments) := by
  rw [evaluate]
  cases evaluator.filters.get? name with
  | none => rfl
  | some filter => simp only [collect, bind_assoc]

end

/-- A call and a filter collect their arguments after their callee and their subject.  If all arguments
are evaluated, those to be spread to lists and maps, then the positional ones are their values with
the elements of spread lists in their places, and a name has its explicit argument if there is one,
and otherwise that of the last spread map with the name.  In any other case no arguments are
collected: there is a failure, unless the evaluation of an argument does not end.  And instead of
arguments that are not spread, their list may be spread, whatever becomes of the call. -/
theorem spreading_is_transparent (evaluator : Evaluator) (invoke : MacroCall → Evaluation Value)
    (positional : List (Expr Token)) (named : List (String × Expr Token)) (context : Context) :
    let collected := (ExceptT.run (collect evaluator invoke positional named)).run context
    let explicitTurns := named.map fun argument => Turn.always argument.2
    (∀ token callee,
      evaluate evaluator invoke (.call token callee positional named) =
        evaluate evaluator invoke callee >>= fun value =>
          collect evaluator invoke positional named >>= apply evaluator invoke token value) ∧
    (∀ token subject name filter, evaluator.filters.get? name = some filter →
      evaluate evaluator invoke (.filter token subject name positional named) =
        evaluate evaluator invoke subject >>= fun value =>
          collect evaluator invoke positional named >>= fun arguments =>
            checked (filter value arguments)) ∧
    (∀ values between given after,
      Passes evaluator invoke (positional.map .argument) context values between →
      Passes evaluator invoke explicitTurns between given after →
        ∃ arguments, collected = some (.ok arguments, after) ∧
          arguments.positional = (List.zipWith Expr.givenPositional positional values).flatten ∧
          ∀ name, arguments.getNamed? name =
            (Table.get? name (Table.ofList ((named.map Prod.fst).zip given))).or
              ((List.zipWith Expr.givenNamed positional values).reverse.findSome? fun entries =>
                Table.get? name (Table.ofList entries))) ∧
    ((¬ ∃ values between given after,
        Passes evaluator invoke (positional.map .argument) context values between ∧
        Passes evaluator invoke explicitTurns between given after) →
      (∃ failure after, collected = some (.error failure, after)) ∨
        Stalls evaluator invoke (Expr.argumentTurns positional named) context) ∧
    ∀ before items rest star bracket, positional = before ++ (items ++ rest) →
      (∀ item ∈ items, item.isSpread = false) →
        let spread := before ++ .spread star (.list bracket items) :: rest
        (∀ token callee,
          evaluate evaluator invoke (.call token callee spread named) =
            evaluate evaluator invoke (.call token callee positional named)) ∧
        ∀ token subject name,
          evaluate evaluator invoke (.filter token subject name spread named) =
            evaluate evaluator invoke (.filter token subject name positional named) := by
  intro collected explicitTurns
  refine ⟨evaluate_call, fun token subject name filter hfilter => ?_,
    fun values between given after hvalues hgiven => ?_, fun hother => ?_, ?_⟩
  · rw [evaluate_filter, hfilter]
  · exact ⟨_, run_collect_eq_ok.2 ⟨values, between, given, hvalues, hgiven, rfl⟩, rfl,
      getNamed?_giveAll positional values _⟩
  · rcases houtcome : collected with _ | ⟨failure | arguments, after⟩
    · exact .inr (stalls_of_collect houtcome)
    · exact .inl ⟨failure, after, rfl⟩
    · obtain ⟨values, between, given, hvalues, hgiven, -⟩ := run_collect_eq_ok.1 houtcome
      exact absurd ⟨values, between, given, after, hvalues, hgiven⟩ hother
  · rintro before items rest star bracket rfl hitems
    refine ⟨fun token callee => ?_, fun token subject name => ?_⟩
    · rw [evaluate_call, evaluate_call, collect_spread_list star bracket before hitems]
    · rw [evaluate_filter, evaluate_filter, collect_spread_list star bracket before hitems]

/-- One argument, a spread list of two, and a name that is in a spread map and given explicitly; and
the same with the first argument in a spread list. -/
theorem spreading_is_transparent_mixed :
    let token : Token := ⟨.mul, "*", ⟨0, 1, 1, 1⟩⟩
    let context := Context.ofBindings 0 []
    let number value : Expr Token := .integer token value
    let rest := [.spread token (.list token [number 2, number 3]),
      .namedSpread token (.dict token [(.string token "a", number 4), (.string token "b", number 5)])]
    let call positional := evaluateExpr .bare 0
      (.call token (.name token "f") positional [("a", number 6)])
    (∃ arguments,
      (ExceptT.run (collect .bare (invoke .bare 0) (number 1 :: rest) [("a", number 6)])).run
          context = some (.ok arguments, context) ∧
        arguments.positional = [.integer 1, .integer 2, .integer 3] ∧
        arguments.getNamed? "a" = some (.integer 6) ∧
        arguments.getNamed? "b" = some (.integer 5)) ∧
      call (.spread token (.list token [number 1]) :: rest) = call (number 1 :: rest) := by
  intro token context number rest call
  obtain ⟨-, -, hcollected, -, hspread⟩ := spreading_is_transparent .bare (invoke .bare 0)
    (number 1 :: rest) [("a", number 6)] context
  constructor
  · obtain ⟨arguments, hrun, hpositional, hnamed⟩ := hcollected
      [.integer 1, .list [.integer 2, .integer 3], .map [("a", .integer 4), ("b", .integer 5)]]
      context [.integer 6] context
      (.cons rfl rfl (.cons rfl rfl (.cons rfl rfl .nil))) (.cons rfl rfl .nil)
    exact ⟨arguments, hrun, hpositional, hnamed "a", hnamed "b"⟩
  · exact (hspread [] [number 1] rest token token rfl (by simp [number, Expr.isSpread])).1 token
      (.name token "f")

end Evaluation

end Stencil
