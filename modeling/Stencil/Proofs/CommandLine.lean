import Stencil.CommandLine
import Stencil.Proofs.Evaluation.Settled

/-!
# Rendering and checking files

The command that renders a template file evaluates the given bindings from left to right in one root
context, and then the template in the context that they have left.  It either writes the whole
output or one message.  The command that checks a file sees the same faults of the file, and only
these.
-/

namespace Stencil

namespace CommandLine

open Evaluation
open Value (IsData)

variable {path argument name source : String} {content : Option ByteArray} {fault : Fault}

/-! ## Files -/

/-- There is no file, or its content is the encoding of no text. -/
inductive Unreadable (path : String) : Option ByteArray → Fault → Prop where
  | missing : Unreadable path none (.fileNotFound path)
  | notUnicode {bytes : ByteArray} : (∀ source : String, source.toUTF8 ≠ bytes) →
      Unreadable path (some bytes) (.notUnicode path)

/-- A text is what its bytes decode to, and no other bytes do. -/
theorem fromUTF8?_eq_some_iff {bytes : ByteArray} :
    String.fromUTF8? bytes = some source ↔ source.toUTF8 = bytes := by
  unfold String.fromUTF8?
  constructor
  · intro hread
    split at hread
    · cases hread
      rfl
    · cases hread
  · rintro rfl
    exact dif_pos source.isValidUTF8

/-- Bytes are not decoded exactly if no text has them. -/
theorem fromUTF8?_eq_none_iff {bytes : ByteArray} :
    String.fromUTF8? bytes = none ↔ ∀ source : String, source.toUTF8 ≠ bytes := by
  rw [Option.eq_none_iff_forall_ne_some]
  exact forall_congr' fun source => not_congr fromUTF8?_eq_some_iff

/-- A file is read if it is there and has the bytes of a text. -/
theorem fileText_eq_ok_iff : fileText path content = .ok source ↔ content = some source.toUTF8 := by
  cases content with
  | none => simp [fileText]
  | some bytes =>
    rw [Option.some.injEq, eq_comm (a := bytes), ← fromUTF8?_eq_some_iff, fileText]
    cases String.fromUTF8? bytes <;> simp

/-- A file is not read for one of two reasons, each with its own fault. -/
theorem fileText_eq_error_iff :
    fileText path content = .error fault ↔ Unreadable path content fault := by
  constructor
  · intro hread
    cases content with
    | none =>
      cases hread
      exact .missing
    | some bytes =>
      rw [fileText] at hread
      split at hread
      · cases hread
      · next hnone =>
        cases hread
        exact .notUnicode (fromUTF8?_eq_none_iff.1 hnone)
  · rintro (_ | hnone)
    · rfl
    · rw [fileText, fromUTF8?_eq_none_iff.2 hnone]

theorem Unreadable.content_ne (hunreadable : Unreadable path content fault) (source : String) :
    content ≠ some source.toUTF8 := by
  intro hcontent
  cases (fileText_eq_error_iff.2 hunreadable).symm.trans (fileText_eq_ok_iff.2 hcontent)

theorem source_unique {other : String} (hsource : content = some source.toUTF8)
    (hother : content = some other.toUTF8) : other = source :=
  String.toByteArray_inj.1 (Option.some.inj (hother.symm.trans hsource))

/-! ## Bindings -/

theorem splitBinding?_eq_none (hargument : '=' ∉ argument.toList) :
    splitBinding? argument = none := by
  have hwhole : argument.toList.takeWhile (· != '=') = argument.toList := by
    refine List.takeWhile_eq_self_iff.2 fun char hchar => ?_
    simpa using ne_of_mem_of_not_mem hchar hargument
  rw [splitBinding?, hwhole, List.drop_length]

/-- An argument is divided at its first equals sign, so a source may have others. -/
theorem splitBinding?_append (hname : '=' ∉ name.toList) (source : String) :
    splitBinding? (name ++ "=" ++ source) = some (name, source) := by
  have hchars : (name ++ "=" ++ source).toList = name.toList ++ '=' :: source.toList := by simp
  have hleft : (name.toList ++ '=' :: source.toList).takeWhile (· != '=') = name.toList := by
    rw [List.takeWhile_append_of_pos fun char hchar => ?_]
    · simp
    · simpa using ne_of_mem_of_not_mem hchar hname
  rw [splitBinding?, hchars, hleft, List.drop_left]
  simp

/-- An argument with an equals sign is a binding in one way. -/
theorem exists_binding_of_mem (hargument : '=' ∈ argument.toList) :
    ∃ name source, argument = name ++ "=" ++ source ∧ '=' ∉ name.toList := by
  obtain ⟨name, source, hchars, hname⟩ := List.eq_append_cons_of_mem hargument
  refine ⟨String.ofList name, String.ofList source, String.toList_inj.1 ?_, by simpa using hname⟩
  simpa using hchars

/-- The root context of some bindings. -/
def rootOf (given : List (String × Value)) : Context :=
  .ofBindings 0 (Table.ofList given)

theorem ofList_append_singleton (given : List (String × Value)) (binding : String × Value) :
    Table.ofList (given ++ [binding]) =
      Table.insert binding.1 binding.2 (Table.ofList given) := by
  rw [Table.ofList, Table.insertAll, List.foldl_append]
  rfl

theorem holder?_rootOf (given : List (String × Value)) (name : String) :
    (rootOf given).holder? name =
      if Table.contains name (Table.ofList given) then some 0 else none := rfl

/-- Setting a variable in the root is giving one more binding. -/
theorem set_rootOf (given : List (String × Value)) (name : String) (value : Value) :
    (rootOf given).set name value = rootOf (given ++ [(name, value)]) := by
  rw [Context.set, Context.overwrite?, holder?_rootOf, rootOf, rootOf, ofList_append_singleton]
  split <;> rfl

/-- The last value that is given to a name counts. -/
theorem get?_rootOf (given : List (String × Value)) (name : String) :
    (rootOf given).get? name = given.reverse.lookup name := by
  have hroot : (rootOf given).get? name = Table.get? name (Table.ofList given) := by
    rw [Context.get?, holder?_rootOf]
    split
    · rfl
    · next hcontains =>
      rw [Table.contains, Option.isSome_iff_ne_none, not_not] at hcontains
      exact hcontains.symm
  rw [hroot]
  clear hroot
  induction given using List.reverseRecOn with
  | nil => rfl
  | append_singleton given binding ih =>
    rw [ofList_append_singleton, Table.get?_insert, List.reverse_append, List.reverse_singleton,
      List.singleton_append, List.lookup_cons, ih]
    by_cases hname : name = binding.1
    · simp [hname]
    · rw [if_neg hname, beq_false_of_ne hname]

theorem all_rootOf (hgiven : ∀ binding ∈ given, IsData binding.2) : (rootOf given).All IsData :=
  ⟨Table.all_nil.insertAll hgiven, nofun⟩

/-- The source of an expression has a value in the root context of some bindings. -/
def Evaluates (depth : Nat) (given : List (String × Value)) (source : String)
    (result : Except Failure Value) : Prop :=
  (ExceptT.run (evaluateSource .bare depth source)).run (rootOf given) =
    some (result, rootOf given)

/-- Each of the arguments binds a name to the value that its expression has in the root context of
all bindings before it. -/
inductive Assigns (depth : Nat) :
    List (String × Value) → List String → List (String × Value) → Prop where
  | nil {given : List (String × Value)} : Assigns depth given [] given
  | cons {given last : List (String × Value)} {name source : String} {value : Value}
      {arguments : List String} :
      '=' ∉ name.toList → Evaluates depth given source (.ok value) →
      Assigns depth (given ++ [(Text.trimBlank name, value)]) arguments last →
      Assigns depth given ((name ++ "=" ++ source) :: arguments) last

/-- An argument is no binding, or its expression fails. -/
inductive Refuses (depth : Nat) (given : List (String × Value)) : String → Fault → Prop where
  | notBinding {argument : String} : '=' ∉ argument.toList →
      Refuses depth given argument (.notBinding argument)
  | binding {name source : String} {failure : Failure} : '=' ∉ name.toList →
      Evaluates depth given source (.error failure) →
      Refuses depth given (name ++ "=" ++ source) (.binding (Text.trimBlank name) failure)

variable {depth : Nat} {arguments before : List String} {given last : List (String × Value)}

/-- The source of a template comes to a result in the root context of some bindings. -/
def Comes (depth : Nat) (given : List (String × Value)) (source : String)
    (result : Except Failure String) : Prop :=
  (ExceptT.run (renderSource .bare depth source)).run (rootOf given) =
    some (result, rootOf given)

/-- Arguments are bound from left to right as far as the first that is refused. -/
theorem run_bindVariables_cons (context : Context) (argument : String) (rest : List String) :
    (bindVariables depth (argument :: rest)).run.run context =
      ((bindVariable depth argument).run.run context).bind fun (result, between) =>
        match result with
        | .ok _ => (bindVariables depth rest).run.run between
        | .error fault => some (.error fault, between) := by
  refine Option.bind_congr fun outcome _ => ?_
  rcases outcome with ⟨_ | _, _⟩ <;> rfl

/-- A binding is evaluated under those before it and then given, or refused with its name. -/
theorem run_bindVariable_binding (hname : '=' ∉ name.toList) {result : Except Failure Value}
    (hevaluates : Evaluates depth given source result) :
    (bindVariable depth (name ++ "=" ++ source)).run.run (rootOf given) =
      match result with
      | .ok value => some (.ok (), rootOf (given ++ [(Text.trimBlank name, value)]))
      | .error failure => some (.error (.binding (Text.trimBlank name) failure), rootOf given) := by
  have hrun : (outcome (evaluateSource .bare depth source)).run (rootOf given) =
      some (result, rootOf given) := hevaluates
  rw [bindVariable, splitBinding?_append hname]
  dsimp only
  rw [ExceptT.run_bind, ExceptT.run_lift, StateT.run_bind, StateT.run_map, hrun]
  cases result with
  | error failure => rfl
  | ok value =>
    have hset := set_rootOf given (Text.trimBlank name) value
    exact congrArg (fun context => some (Except.ok (), context)) hset

theorem run_bindVariable_notBinding (hargument : '=' ∉ argument.toList) (context : Context) :
    (bindVariable depth argument).run.run context =
      some (.error (.notBinding argument), context) := by
  rw [bindVariable, splitBinding?_eq_none hargument]
  rfl

theorem Assigns.run_append (hassigns : Assigns depth given before last) (rest : List String) :
    (bindVariables depth (before ++ rest)).run.run (rootOf given) =
      (bindVariables depth rest).run.run (rootOf last) := by
  induction hassigns with
  | nil => rfl
  | cons hname hevaluates _ ih =>
    rw [List.cons_append, run_bindVariables_cons, run_bindVariable_binding hname hevaluates]
    exact ih

theorem Assigns.run (hassigns : Assigns depth given arguments last) :
    (bindVariables depth arguments).run.run (rootOf given) = some (.ok (), rootOf last) := by
  have hrun := hassigns.run_append []
  rwa [List.append_nil] at hrun

/-- An argument that is refused ends the binding, whatever arguments come behind it. -/
theorem Refuses.run (hrefuses : Refuses depth given argument fault) (rest : List String) :
    (bindVariables depth (argument :: rest)).run.run (rootOf given) =
      some (.error fault, rootOf given) := by
  rw [run_bindVariables_cons]
  cases hrefuses with
  | notBinding hargument =>
    rw [run_bindVariable_notBinding hargument]
    rfl
  | binding hname hevaluates =>
    rw [run_bindVariable_binding hname hevaluates]
    rfl

/-! ## Sources without macros -/

/-- Without macros every evaluation ends at any depth, and its value is data again. -/
theorem exists_evaluates (depth : Nat) (hgiven : ∀ binding ∈ given, IsData binding.2)
    (source : String) :
    ∃ result, Evaluates depth given source result ∧ ∀ value, result = .ok value → IsData value := by
  unfold Evaluates
  rw [evaluateSource]
  cases parseExpression .standard source with
  | error error => exact ⟨_, rfl, nofun⟩
  | ok expr =>
    obtain ⟨result, hrun, hsettled⟩ := settles_evaluateExpr depth (all_rootOf hgiven) expr
    refine ⟨result, hrun, ?_⟩
    rintro value rfl
    cases hsettled with
    | ok hvalue => exact hvalue

theorem comes_malformed {error : SyntaxError}
    (hparse : parseTemplate .standard source = .error error) :
    Comes depth given source (.error (.malformed error)) := by
  rw [Comes, renderSource, hparse]
  rfl

/-- A template that can be parsed comes to a text or to a failure of one of its expressions. -/
theorem exists_comes (depth : Nat) (hgiven : ∀ binding ∈ given, IsData binding.2)
    {body : List (Node Token)} (hparse : parseTemplate .standard source = .ok body) :
    ∃ result, Comes depth given source result ∧
      ∀ failure, result = .error failure → failure.IsDirect := by
  unfold Comes
  rw [renderSource, hparse]
  obtain ⟨result, hrun, hsettled⟩ := settles_renderBody depth (all_rootOf hgiven) body
  refine ⟨result, hrun, ?_⟩
  rintro failure rfl
  cases hsettled with
  | error hfailure => exact hfailure

theorem Assigns.isData (hassigns : Assigns depth given arguments last)
    (hgiven : ∀ binding ∈ given, IsData binding.2) : ∀ binding ∈ last, IsData binding.2 := by
  induction hassigns with
  | nil => exact hgiven
  | @cons given last name source value arguments hname hevaluates _ ih =>
    obtain ⟨result, hresult, hdata⟩ := exists_evaluates depth hgiven source
    cases hresult.symm.trans hevaluates
    exact ih (List.forall_mem_append.2 ⟨hgiven, List.forall_mem_singleton.2 (hdata value rfl)⟩)

/-- All arguments bind their names, or one of them is the first that does not. -/
theorem exists_assigns_or_refuses (depth : Nat) (hgiven : ∀ binding ∈ given, IsData binding.2)
    (arguments : List String) :
    (∃ last, Assigns depth given arguments last) ∨
      ∃ before argument behind last fault, arguments = before ++ argument :: behind ∧
        Assigns depth given before last ∧ Refuses depth last argument fault := by
  induction arguments generalizing given with
  | nil => exact .inl ⟨given, .nil⟩
  | cons argument rest ih =>
    by_cases hargument : '=' ∈ argument.toList
    · obtain ⟨name, source, rfl, hname⟩ := exists_binding_of_mem hargument
      obtain ⟨result, hevaluates, hdata⟩ := exists_evaluates depth hgiven source
      cases result with
      | error failure =>
        exact .inr ⟨[], _, rest, given, _, rfl, .nil, .binding hname hevaluates⟩
      | ok value =>
        have hnext : ∀ binding ∈ given ++ [(Text.trimBlank name, value)], IsData binding.2 :=
          List.forall_mem_append.2 ⟨hgiven, List.forall_mem_singleton.2 (hdata value rfl)⟩
        rcases ih hnext with
          ⟨last, hrest⟩ | ⟨before, other, behind, last, fault, rfl, hbefore, hother⟩
        · exact .inl ⟨last, .cons hname hevaluates hrest⟩
        · exact .inr ⟨_ :: before, other, behind, last, fault, rfl,
            .cons hname hevaluates hbefore, hother⟩
    · exact .inr ⟨[], argument, rest, given, _, rfl, .nil, .notBinding hargument⟩

/-! ## The commands -/

/-- What the rendering of a file comes to: the first fault of the file, of the bindings and of the
template, in this order, or else the text. -/
inductive Renders (depth : Nat) (path : String) (content : Option ByteArray)
    (arguments : List String) : Outcome → Prop where
  | unreadable {fault : Fault} : Unreadable path content fault →
      Renders depth path content arguments (.failure fault.message)
  | refused {source argument : String} {before behind : List String}
      {given : List (String × Value)} {fault : Fault} : content = some source.toUTF8 →
      arguments = before ++ argument :: behind → Assigns depth [] before given →
      Refuses depth given argument fault →
      Renders depth path content arguments (.failure fault.message)
  | failed {source : String} {given : List (String × Value)} {failure : Failure} :
      content = some source.toUTF8 → Assigns depth [] arguments given →
      Comes depth given source (.error failure) →
      Renders depth path content arguments (.failure ("Render error: " ++ failure.message))
  | written {source text : String} {given : List (String × Value)} :
      content = some source.toUTF8 → Assigns depth [] arguments given →
      Comes depth given source (.ok text) →
      Renders depth path content arguments (.success text)

variable {outcome : Outcome}

theorem run_render_of_readable (hcontent : content = some source.toUTF8) :
    run depth content (.render path arguments) =
      ((renderWith depth source arguments).run.run (rootOf [])).map fun (result, _) =>
        match result with
        | .error fault => .failure fault.message
        | .ok written => .success written := by
  rw [run, renderOutcome, fileText_eq_ok_iff.2 hcontent]
  rfl

/-- Once all arguments have assigned, the result is that of the text. -/
theorem run_renderWith {result : Except Failure String}
    (hassigns : Assigns depth [] arguments given) (hcomes : Comes depth given source result) :
    (renderWith depth source arguments).run.run (rootOf []) =
      match result with
      | .ok text => some (.ok text, rootOf given)
      | .error failure => some (.error (.rendering failure), rootOf given) := by
  have hrun : (Evaluation.outcome (renderSource .bare depth source)).run (rootOf given) =
      some (result, rootOf given) := hcomes
  have htemplate : (ExceptT.run (ExceptT.lift (Evaluation.outcome
      (renderSource .bare depth source)) : ExceptT Fault Run (Except Failure String))).run
        (rootOf given) = some (.ok result, rootOf given) := by
    rw [ExceptT.run_lift, StateT.run_map, hrun]
    rfl
  rw [renderWith, ExceptT.run_bind, StateT.run_bind, hassigns.run]
  dsimp only [Option.bind_eq_bind, Option.bind_some]
  rw [ExceptT.run_bind, StateT.run_bind, htemplate]
  cases result <;> rfl

/-- The first argument that is refused is the result, and nothing is rendered. -/
theorem run_renderWith_of_refuses (hassigns : Assigns depth [] before given)
    (hrefuses : Refuses depth given argument fault) (behind : List String) :
    (renderWith depth source (before ++ argument :: behind)).run.run (rootOf []) =
      some (.error fault, rootOf given) := by
  rw [renderWith, ExceptT.run_bind, StateT.run_bind, hassigns.run_append, hrefuses.run]
  rfl

/-- What the rendering comes to is the outcome of the command. -/
theorem Renders.run_eq (hrenders : Renders depth path content arguments outcome) :
    run depth content (.render path arguments) = some outcome := by
  cases hrenders with
  | unreadable hunreadable =>
    rw [run, renderOutcome, fileText_eq_error_iff.2 hunreadable]
  | refused hcontent harguments hassigns hrefuses =>
    subst harguments
    rw [run_render_of_readable hcontent, run_renderWith_of_refuses hassigns hrefuses]
    rfl
  | failed hcontent hassigns hcomes =>
    rw [run_render_of_readable hcontent, run_renderWith hassigns hcomes]
    rfl
  | written hcontent hassigns hcomes =>
    rw [run_render_of_readable hcontent, run_renderWith hassigns hcomes]
    rfl

/-- Every command has an outcome that the relation describes. -/
theorem exists_renders (depth : Nat) (path : String) (content : Option ByteArray)
    (arguments : List String) : ∃ outcome, Renders depth path content arguments outcome := by
  cases hread : fileText path content with
  | error fault => exact ⟨_, .unreadable (fileText_eq_error_iff.1 hread)⟩
  | ok source =>
    have hcontent := fileText_eq_ok_iff.1 hread
    have hnone : ∀ binding ∈ ([] : List (String × Value)), IsData binding.2 := nofun
    rcases exists_assigns_or_refuses depth hnone arguments with
      ⟨given, hassigns⟩ | ⟨before, argument, behind, given, fault, hsplit, hassigns, hrefuses⟩
    · have hgiven := hassigns.isData hnone
      cases hparse : parseTemplate .standard source with
      | error error => exact ⟨_, .failed hcontent hassigns (comes_malformed hparse)⟩
      | ok body =>
        obtain ⟨result, hcomes, -⟩ := exists_comes depth hgiven hparse
        cases result with
        | error failure => exact ⟨_, .failed hcontent hassigns hcomes⟩
        | ok text => exact ⟨_, .written hcontent hassigns hcomes⟩
    · exact ⟨_, .refused hcontent hsplit hassigns hrefuses⟩

/-- The outcome of a command is the one that the relation describes, and there is no other. -/
theorem run_render_eq_iff :
    run depth content (.render path arguments) = some outcome ↔
      Renders depth path content arguments outcome := by
  refine ⟨fun hrun => ?_, Renders.run_eq⟩
  obtain ⟨outcome', hrenders⟩ := exists_renders depth path content arguments
  cases hrun.symm.trans hrenders.run_eq
  exact hrenders

/-- What the checking of a file comes to. -/
inductive Checks (path : String) (content : Option ByteArray) : Outcome → Prop where
  | unreadable {fault : Fault} : Unreadable path content fault →
      Checks path content (.failure fault.message)
  | malformed {source : String} {error : SyntaxError} : content = some source.toUTF8 →
      parseTemplate .standard source = .error error →
      Checks path content (.failure error.message)
  | accepted {source : String} {body : List (Node Token)} : content = some source.toUTF8 →
      parseTemplate .standard source = .ok body →
      Checks path content ⟨0, "", "OK: " ++ path ++ "\n"⟩

theorem Checks.checkOutcome_eq (hchecks : Checks path content outcome) :
    checkOutcome path content = outcome := by
  rw [checkOutcome]
  cases hchecks with
  | unreadable hunreadable => rw [fileText_eq_error_iff.2 hunreadable]
  | malformed hcontent hparse =>
    rw [fileText_eq_ok_iff.2 hcontent]
    dsimp only
    rw [hparse]
    rfl
  | accepted hcontent hparse =>
    rw [fileText_eq_ok_iff.2 hcontent]
    dsimp only
    rw [hparse]

theorem exists_checks (path : String) (content : Option ByteArray) :
    ∃ outcome, Checks path content outcome := by
  cases hread : fileText path content with
  | error fault => exact ⟨_, .unreadable (fileText_eq_error_iff.1 hread)⟩
  | ok source =>
    have hcontent := fileText_eq_ok_iff.1 hread
    cases hparse : parseTemplate .standard source with
    | error error => exact ⟨_, .malformed hcontent hparse⟩
    | ok body => exact ⟨_, .accepted hcontent hparse⟩

/-- A command succeeds with nothing on its error output, or fails with nothing on its output. -/
theorem Renders.cases_status (hrenders : Renders depth path content arguments outcome) :
    outcome.status = 0 ∧ outcome.errors = "" ∨
      outcome.status = 1 ∧ outcome.output = "" ∧ outcome.errors ≠ "" := by
  have hmessage (message : String) : message ++ "\n" ≠ "" := by simp
  cases hrenders with
  | unreadable | refused | failed => exact .inr ⟨rfl, rfl, hmessage _⟩
  | written => exact .inl ⟨rfl, rfl⟩

end CommandLine

end Stencil
