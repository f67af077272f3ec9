import Stencil.Proofs.Evaluation.Bodies
import Stencil.Proofs.Template.Composition

/-!
# Rendering templates one after the other

Two templates one after the other render to what the first renders to and then what the second does,
unless a block opens where they meet.
-/

namespace Stencil

namespace Evaluation

variable {evaluator : Evaluator} {depth : Nat} {context after : Context} {text : String}
  {source : String}

/-! ## Pieces -/

/-- Characters one by one are written like the text that they make up. -/
theorem execute_chars (invoke : MacroCall → Evaluation Value) (written : String) (chars : List Char)
    (rest : List (Node Token)) :
    execute evaluator invoke written (chars.map Node.ofChar ++ rest) =
      execute evaluator invoke (written ++ String.ofList chars) rest := by
  induction chars generalizing written with
  | nil => rw [String.ofList_nil, String.append_empty, List.map_nil, List.nil_append]
  | cons char chars ih =>
    have hchars : String.singleton char ++ String.ofList chars = String.ofList (char :: chars) := by
      rw [← String.toList_inj]
      simp
    rw [List.map_cons, List.cons_append, Node.ofChar, execute, ih, String.append_assoc, hchars]

/-- A body and its pieces are written alike, up to the failure that may end both. -/
theorem tied_execute_pieces (written : String) (body : List (Node Token)) :
    Tied anyFailure.contexts (SameOutput anyFailure.failures)
      (executeBody evaluator depth written body)
      (executeBody evaluator depth written (body.flatMap Node.pieces)) := by
  unfold executeBody
  induction body generalizing written with
  | nil => exact Tied.pure ⟨rfl, .none⟩
  | cons node rest ih =>
    cases node with
    | text content =>
      rw [List.flatMap_cons, Node.pieces, execute_chars, String.ofList_toList]
      exact ih _
    | output expr =>
      refine Tied.bind (couples_mapMarks Token.keeps_placeless expr)
        fun result result' hresult => ?_
      cases hresult with
      | ok _ => exact ih _
      | error hfailure => exact Tied.pure ⟨rfl, .some hfailure⟩

theorem writes_pieces_iff {body : List (Node Token)} :
    Writes evaluator depth (body.flatMap Node.pieces) context text after ↔
      Writes evaluator depth body context text after := by
  have htied : Tied anyFailure.contexts (SameOutput anyFailure.failures)
      (executeBody evaluator depth "" body)
      (executeBody evaluator depth "" (body.flatMap Node.pieces)) := tied_execute_pieces "" body
  have houtcome := htied (Eq.refl context)
  unfold Writes
  generalize (executeBody evaluator depth "" body).run context = first,
    (executeBody evaluator depth "" (body.flatMap Node.pieces)).run context = second at houtcome ⊢
  cases houtcome with
  | exhausted => exact Iff.rfl
  | @done output output' _ _ houtput hafter =>
    obtain ⟨written, failure?⟩ := output
    obtain ⟨written', failure'?⟩ := output'
    obtain ⟨rfl, hfailures⟩ : written = written' ∧ _ := houtput
    obtain rfl : _ = _ := hafter
    cases hfailures with
    | none => exact Iff.rfl
    | some _ => simp

/-! ## Sources -/

/-- In the context the source is rendered to the text. -/
def Renders (evaluator : Evaluator) (depth : Nat) (context : Context) (source text : String) :
    Prop :=
  ((ExceptT.run (renderSource evaluator depth source)).run context).map Prod.fst = some (.ok text)

theorem renders_iff_writes {body : List (Node Token)}
    (hparse : parseTemplate .standard source = .ok body) :
    Renders evaluator depth context source text ↔
      ∃ after, Writes evaluator depth body context text after := by
  have hrender : renderSource evaluator depth source = renderBody evaluator depth body := by
    rw [renderSource, hparse]
    rfl
  simp only [Renders, hrender, ← renderBody_iff_writes, Option.map_eq_some_iff, Prod.exists]
  constructor
  · rintro ⟨_, after, hrun, rfl⟩
    exact ⟨after, hrun⟩
  · rintro ⟨after, hrun⟩
    exact ⟨_, after, hrun, rfl⟩

theorem renders_iff :
    Renders evaluator depth context source text ↔
      ∃ nodes, Composed .standard source.toList nodes ∧
        ∃ after, Writes evaluator depth nodes context text after := by
  simp only [composed_iff_parseTemplate]
  constructor
  · intro hrenders
    cases hparse : parseTemplate .standard source with
    | error error =>
      rw [Renders, renderSource, hparse] at hrenders
      cases hrenders
    | ok body =>
      obtain ⟨after, hwrites⟩ := (renders_iff_writes hparse).1 hrenders
      exact ⟨_, ⟨body, rfl, rfl⟩, after, writes_pieces_iff.2 hwrites⟩
  · rintro ⟨_, ⟨body, hparse, rfl⟩, after, hwrites⟩
    exact (renders_iff_writes hparse).2 ⟨after, writes_pieces_iff.1 hwrites⟩

/-- The characters of a text are written as they are. -/
theorem writes_chars (context : Context) (text : String) :
    Writes evaluator depth (text.toList.map Node.ofChar) context text context := by
  have hchars : execute evaluator (invoke evaluator depth) ""
      (text.toList.map Node.ofChar ++ []) = _ := execute_chars _ "" text.toList []
  rw [List.append_nil, String.empty_append, String.ofList_toList] at hchars
  rw [Writes, executeBody, hchars]
  rfl

/-- What the second part writes in the context it also writes in the one that the first part
leaves. -/
theorem renders_of_composed {whole text' : String} {first second : List Char}
    {nodes nodes' : List (Node Token)} {after' : Context} (hkeeps : evaluator.Keeps context.Past)
    (hwithin : context.Within context.Past) (hwhole : whole.toList = first ++ second)
    (hmeets : MeetsPlainly first second) (hfirst : Composed .standard first nodes)
    (hsecond : Composed .standard second nodes')
    (hwrites : Writes evaluator depth nodes context text after)
    (hwrites' : Writes evaluator depth nodes' context text' after') :
    Renders evaluator depth context whole (text ++ text') := by
  obtain ⟨last, hagain⟩ := hwrites'.again hkeeps hwithin (agesTo_of_executeBody hwrites)
  exact renders_iff.2 ⟨_, hwhole ▸ hfirst.append hsecond hmeets, last, hwrites.append hagain⟩

/-- Two templates one after the other are rendered one after the other, unless a block, a comment or
a statement opens where they meet.  A text in which none of them opens is rendered as it stands, and
a comment between two templates makes no difference. -/
theorem renderSource_append (evaluator : Evaluator) (depth : Nat) {workspace : Workspace}
    {name : String} {context : Context} (hreachable : Workspace.Reachable workspace)
    (hcontext : workspace.context? name = some context) (hkeeps : evaluator.Keeps context.Past) :
    (∀ source more text text',
      (source.toList.getLast? = some '{' → ∀ char ∈ more.toList.head?, char ∉ ['{', '#', '%']) →
      Renders evaluator depth context source text → Renders evaluator depth context more text' →
        Renders evaluator depth context (source ++ more) (text ++ text')) ∧
    (∀ source, (∀ char ∈ ['{', '#', '%'], ¬ ['{', char] <:+: source.toList) →
      Renders evaluator depth context source source) ∧
    ∀ source comment more text text', source.toList.getLast? ≠ some '{' →
      ¬ ['#', '}'] <:+: comment.toList →
      Renders evaluator depth context source text → Renders evaluator depth context more text' →
        Renders evaluator depth context (source ++ "\x7b#" ++ comment ++ "#\x7d" ++ more)
          (text ++ text') := by
  have hwithin := hreachable.within_past hcontext
  refine ⟨fun source more text text' hmeets hsource hmore => ?_, fun source hplain => ?_,
    fun source comment more text text' hlast hcomment hsource hmore => ?_⟩
  · obtain ⟨nodes, hcomposed, after, hwrites⟩ := renders_iff.1 hsource
    obtain ⟨nodes', hcomposed', after', hwrites'⟩ := renders_iff.1 hmore
    exact renders_of_composed hkeeps hwithin String.toList_append hmeets hcomposed hcomposed'
      hwrites hwrites'
  · exact renders_iff.2 ⟨_, .of_plain hplain, context, writes_chars context source⟩
  · obtain ⟨nodes, hcomposed, after, hwrites⟩ := renders_iff.1 hsource
    obtain ⟨nodes', hcomposed', after', hwrites'⟩ := renders_iff.1 hmore
    have hwhole : (source ++ "\x7b#" ++ comment ++ "#\x7d" ++ more).toList =
        source.toList ++ '{' :: '#' :: (comment.toList ++ ['#', '}'] ++ more.toList) := by
      simp
    exact renders_of_composed hkeeps hwithin hwhole (fun hbrace => absurd hbrace hlast) hcomposed
      (.of_comment hcomment hcomposed') hwrites hwrites'

set_option maxRecDepth 3000 in
/-- Braces that open nothing may stand right behind a block, and a comment may stand in between. -/
theorem renderSource_append_braces :
    ∃ workspace : Workspace, ∃ context, workspace.context? "main" = some context ∧
      Renders .bare 0 context ("\x7b\x7bn\x7d\x7d" ++ "\x7d\x7b") ("42" ++ "\x7d\x7b") ∧
      Renders .bare 0 context ("\x7b\x7bn\x7d\x7d" ++ "\x7b#" ++ "\x7d #" ++ "#\x7d" ++ "\x7d\x7b")
        ("42" ++ "\x7d\x7b") := by
  have hreachable : Workspace.Reachable (.create (.empty .bare) "main" [("n", .integer 42)]) :=
    .step (.create "main" [("n", .integer 42)]) (.empty .bare)
      (List.forall_mem_singleton.2 (Value.within_of_isPlain rfl)) rfl
  have hcontext : (Workspace.create (.empty .bare) "main" [("n", .integer 42)]).context? "main" =
      some (Context.ofBindings 0 [("n", .integer 42)]) := rfl
  obtain ⟨happend, hplain, hcomment⟩ :=
    renderSource_append .bare 0 hreachable hcontext (Evaluator.keeps_bare _)
  have hscan : Token.scanTemplate "\x7b\x7bn\x7d\x7d" = .ok
      [⟨.variableBegin, "\x7b\x7b", ⟨0, 2, 1, 1⟩⟩, ⟨.name, "n", ⟨2, 3, 1, 3⟩⟩,
        ⟨.variableEnd, "\x7d\x7d", ⟨3, 5, 1, 4⟩⟩, ⟨.eof, "", ⟨5, 5, 1, 6⟩⟩] := by cbv
  have hparse : parseTemplate .standard "\x7b\x7bn\x7d\x7d" =
      .ok [.output (.name ⟨.name, "n", ⟨2, 3, 1, 3⟩⟩ "n")] := by
    rw [parseTemplate, hscan]
    rfl
  have hblock : Renders .bare 0 (Context.ofBindings 0 [("n", .integer 42)]) "\x7b\x7bn\x7d\x7d"
      "42" := (renders_iff_writes hparse).2 ⟨_, rfl⟩
  have hbraces := hplain "\x7d\x7b" (by simp [List.infix_cons_iff])
  exact ⟨_, _, hcontext, happend _ _ _ _ (by simp) hblock hbraces,
    hcomment _ _ _ _ _ (by simp) (by simp [List.infix_cons_iff]) hblock hbraces⟩

end Evaluation

end Stencil
