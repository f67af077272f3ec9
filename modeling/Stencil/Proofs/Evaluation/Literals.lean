import Stencil.Proofs.Evaluation.Outcomes
import Stencil.Proofs.Evaluation.Repetition
import Stencil.Proofs.Table
import Stencil.Proofs.Value.Equality

/-!
# Dictionary literals

The pairs of a dictionary literal are evaluated in turn, and of several pairs whose keys have the same
text the last one counts.  A subscript, a membership test, a member and the text of the dictionary all
look at this last pair.
-/

namespace Stencil

namespace Value

/-- The value of the last pair whose key has a text. -/
def lastValue? (entries : List (Value × Value)) (text : String) : Option Value :=
  (entries.reverse.find? fun entry => entry.1.key = text).map Prod.snd

/-- The map that is made of some pairs. -/
def mapOf (entries : List (Value × Value)) : Table Value :=
  Table.ofList (entries.map fun entry => (entry.1.key, entry.2))

variable {entries before behind : List (Value × Value)} {text name : String} {key value : Value}

theorem get?_mapOf (entries : List (Value × Value)) (text : String) :
    Table.get? text (mapOf entries) = lastValue? entries text := by
  rw [mapOf, Table.get?_ofList_eq_find?, ← List.map_reverse, List.find?_map, Option.map_map]
  rfl

theorem contains_mapOf (entries : List (Value × Value)) (text : String) :
    Table.contains text (mapOf entries) = entries.any fun entry => entry.1.key = text := by
  rw [Table.contains, get?_mapOf, lastValue?, Option.isSome_map, List.isSome_find?,
    List.any_reverse]

theorem ordered_mapOf (entries : List (Value × Value)) : (mapOf entries).Ordered :=
  Table.ordered_ofList _

theorem mem_mapOf_iff : (name, value) ∈ mapOf entries ↔ lastValue? entries name = some value := by
  rw [(ordered_mapOf entries).mem_iff, get?_mapOf]

theorem mapOf_append (before behind : List (Value × Value)) :
    mapOf (before ++ behind) =
      Table.insertAll (mapOf before) (behind.map fun entry => (entry.1.key, entry.2)) := by
  rw [mapOf, List.map_append]
  exact Table.insertAll_append ..

/-- Pairs behind some others may be replaced by pairs that make the same map. -/
theorem mapOf_append_congr {behind' : List (Value × Value)} (before : List (Value × Value))
    (hbehind : mapOf behind = mapOf behind') : mapOf (before ++ behind) = mapOf (before ++ behind') := by
  rw [mapOf_append, mapOf_append, ← Table.insertAll_ofList (ordered_mapOf before),
    ← Table.insertAll_ofList (ordered_mapOf before) (behind'.map _)]
  exact congrArg (Table.insertAll (mapOf before)) hbehind

/-- A pair is of no account if there is one of the same key text behind it. -/
theorem mapOf_append_cons (before : List (Value × Value)) (value : Value)
    (hlater : ∃ entry ∈ behind, entry.1.key = key.key) :
    mapOf (before ++ (key, value) :: behind) = mapOf (before ++ behind) := by
  obtain ⟨entry, hmem, hkey⟩ := hlater
  rw [mapOf_append, mapOf_append]
  refine Table.insertAll_insert (ordered_mapOf before) ?_
  exact List.mem_map.2 ⟨_, List.mem_map.2 ⟨entry, hmem, rfl⟩, hkey⟩

theorem display_map (entries : Table Value) :
    (map entries).display = "\x7b" ++ commaSeparated
      (entries.map fun entry => "'" ++ entry.1 ++ "': " ++ entry.2.render true) ++ "\x7d" := by
  rw [display, render, renderEntries_eq_map]

end Value

namespace Evaluation

open Value

/-- The keys and values of some pairs are evaluated, in turn, to these. -/
inductive Yields (evaluator : Evaluator) (depth : Nat) :
    List (Expr Token × Expr Token) → Context → List (Value × Value) → Context → Prop where
  | nil {context} : Yields evaluator depth [] context [] context
  | cons {keyExpr valueExpr pairs context key between value later entries after} :
      (ExceptT.run (evaluateExpr evaluator depth keyExpr)).run context = some (.ok key, between) →
      (ExceptT.run (evaluateExpr evaluator depth valueExpr)).run between =
        some (.ok value, later) →
      Yields evaluator depth pairs later entries after →
      Yields evaluator depth ((keyExpr, valueExpr) :: pairs) context ((key, value) :: entries) after

variable {evaluator : Evaluator} {depth : Nat} {front back pairs : List (Expr Token × Expr Token)}
  {context between after : Context} {entries before behind : List (Value × Value)}

namespace Yields

theorem append (hfront : Yields evaluator depth front context before between)
    (hback : Yields evaluator depth back between behind after) :
    Yields evaluator depth (front ++ back) context (before ++ behind) after := by
  induction hfront with
  | nil => exact hback
  | cons hkey hvalue _ ih => exact .cons hkey hvalue (ih hback)

theorem split (hyields : Yields evaluator depth (front ++ back) context (before ++ behind) after)
    (hlength : before.length = front.length) :
    ∃ between, Yields evaluator depth front context before between ∧
      Yields evaluator depth back between behind after := by
  induction front generalizing context before with
  | nil =>
    cases List.eq_nil_of_length_eq_zero hlength
    exact ⟨context, .nil, hyields⟩
  | cons pair front ih =>
    cases before with
    | nil => cases hlength
    | cons entry before =>
      cases hyields with
      | cons hkey hvalue hrest =>
        obtain ⟨between, hfront, hback⟩ := ih hrest (Nat.succ.inj hlength)
        exact ⟨between, .cons hkey hvalue hfront, hback⟩

theorem agesTo (hyields : Yields evaluator depth pairs context entries after) :
    context.AgesTo after := by
  induction hyields with
  | nil => exact .refl _
  | cons hkey hvalue _ ih =>
    exact ((agesTo_of_evaluateExpr hkey).trans (agesTo_of_evaluateExpr hvalue)).trans ih

end Yields

theorem run_evaluatePairs_eq_ok {table result : Table Value} :
    (ExceptT.run (evaluatePairs evaluator (invoke evaluator depth) pairs table)).run context =
        some (.ok result, after) ↔
      ∃ entries, Yields evaluator depth pairs context entries after ∧
        result = Table.insertAll table (entries.map fun entry => (entry.1.key, entry.2)) := by
  induction pairs generalizing table context with
  | nil =>
    rw [evaluatePairs, run_pure_eq_ok]
    constructor
    · rintro ⟨rfl, rfl⟩
      exact ⟨[], .nil, rfl⟩
    · rintro ⟨entries, hyields, rfl⟩
      cases hyields
      exact ⟨rfl, rfl⟩
  | cons pair pairs ih =>
    rw [evaluatePairs, run_bind_eq_ok]
    simp only [run_bind_eq_ok, ih]
    constructor
    · rintro ⟨key, between, hkey, value, later, hvalue, entries, hyields, rfl⟩
      exact ⟨(key, value) :: entries, .cons hkey hvalue hyields, rfl⟩
    · rintro ⟨entries, hyields, rfl⟩
      cases hyields with
      | cons hkey hvalue hyields => exact ⟨_, _, hkey, _, _, hvalue, _, hyields, rfl⟩

/-- A literal has a value if all its keys and values have one, and only then. -/
theorem run_dict_eq_ok {token : Token} {value : Value} :
    (ExceptT.run (evaluateExpr evaluator depth (.dict token pairs))).run context =
        some (.ok value, after) ↔
      ∃ entries, Yields evaluator depth pairs context entries after ∧
        value = .map (mapOf entries) := by
  rw [evaluateExpr, evaluate, run_bind_eq_ok]
  simp only [run_evaluatePairs_eq_ok, run_pure_eq_ok]
  constructor
  · rintro ⟨table, between, ⟨entries, hyields, rfl⟩, rfl, rfl⟩
    exact ⟨entries, hyields, rfl⟩
  · rintro ⟨entries, hyields, rfl⟩
    exact ⟨_, _, ⟨entries, hyields, rfl⟩, rfl, rfl⟩

theorem Yields.run_dict (hyields : Yields evaluator depth pairs context entries after)
    (token : Token) :
    (ExceptT.run (evaluateExpr evaluator depth (.dict token pairs))).run context =
      some (.ok (.map (mapOf entries)), after) :=
  run_dict_eq_ok.2 ⟨entries, hyields, rfl⟩

theorem Yields.run_subscript (hyields : Yields evaluator depth pairs context entries between)
    {keyExpr : Expr Token} {key : Value}
    (hkey : (ExceptT.run (evaluateExpr evaluator depth keyExpr)).run between =
      some (.ok key, after)) (bracket token : Token) :
    (ExceptT.run
        (evaluateExpr evaluator depth (.subscript bracket (.dict token pairs) keyExpr))).run context =
      some (.ok ((lastValue? entries key.key).getD .null), after) := by
  have hdict := hyields.run_dict token
  unfold evaluateExpr at *
  rw [evaluate, run_bind_eq_ok]
  refine ⟨_, _, hdict, run_bind_eq_ok.2 ⟨key, after, hkey, ?_⟩⟩
  rw [← get?_mapOf]
  rfl

theorem evaluateExpr_member_eq_subscript {token : Token} (dot bracket quoted : Token) (name : String) :
    evaluateExpr evaluator depth (.member dot (.dict token pairs) (.name name)) =
      evaluateExpr evaluator depth (.subscript bracket (.dict token pairs) (.string quoted name)) := by
  simp only [evaluateExpr, evaluate, bind_assoc, pure_bind]
  exact bind_congr fun table => rfl

/-- A membership test evaluates the key first. -/
theorem Yields.run_member (hyields : Yields evaluator depth pairs between entries after)
    {keyExpr : Expr Token} {key : Value}
    (hkey : (ExceptT.run (evaluateExpr evaluator depth keyExpr)).run context =
      some (.ok key, between)) (word token : Token) :
    (ExceptT.run
        (evaluateExpr evaluator depth (.binary word .mem keyExpr (.dict token pairs)))).run context =
      some (.ok (.bool (entries.any fun entry => entry.1.key = key.key)), after) := by
  rw [run_evaluateExpr_binary word .mem nofun nofun hkey (hyields.run_dict token), ← contains_mapOf]
  rfl

/-- Without a pair behind which there is one of the same key text, the literal has the same value. -/
theorem Yields.run_without {keyExpr valueExpr : Expr Token} {key value : Value}
    (hyields : Yields evaluator depth (front ++ (keyExpr, valueExpr) :: back) context
      (before ++ (key, value) :: behind) after)
    (hlength : before.length = front.length) (hlater : ∃ entry ∈ behind, entry.1.key = key.key)
    (hkeeps : evaluator.Keeps context.Past) (hwithin : context.Within context.Past)
    (token : Token) :
    ((ExceptT.run (evaluateExpr evaluator depth (.dict token (front ++ back)))).run context).map
        Prod.fst =
      some (.ok (.map (mapOf (before ++ (key, value) :: behind)))) := by
  obtain ⟨between, hfront, hrest⟩ := hyields.split hlength
  cases hrest with
  | cons hkey hvalue hback =>
    -- The pairs behind are evaluated in a context that has aged by the evaluation of this one.
    have hbetween := hfront.agesTo
    have hlaterAges := hbetween.trans
      ((agesTo_of_evaluateExpr hkey).trans (agesTo_of_evaluateExpr hvalue))
    have hagain : ((ExceptT.run (evaluateExpr evaluator depth (.dict token back))).run between).map
        Prod.fst = some (.ok (.map (mapOf behind))) := by
      rw [evaluateExpr_again hkeeps hwithin hbetween,
        ← evaluateExpr_again hkeeps hwithin hlaterAges, hback.run_dict, Option.map_some]
    obtain ⟨⟨_, last⟩, hlast, rfl⟩ := Option.map_eq_some_iff.1 hagain
    obtain ⟨behind', hback', hmap⟩ := run_dict_eq_ok.1 hlast
    rw [(hfront.append hback').run_dict, Option.map_some, mapOf_append_cons before value hlater,
      mapOf_append_congr before (Value.map.inj hmap)]

/-- What looks into a dictionary literal agrees on what it holds.  Let its keys and values be
evaluated, in turn, to some pairs.  A subscript with a key has the value of the last pair whose key
has the same text, and null if there is none; the key is in the literal exactly if there is one; and
a member is the same as the subscript with its name.  The text of the literal lists each text of a key
once, in ascending order, with the value of the last pair.  And a pair behind which there is one of the
same key text makes no difference to the map: neither to that of the pairs nor to the value of the
literal, in every context that knows only scopes which have been issued. -/
theorem dictionary_literals_agree (evaluator : Evaluator) (depth : Nat) (token : Token)
    (pairs : List (Expr Token × Expr Token)) :
    let run (expr : Expr Token) (context : Context) :=
      (ExceptT.run (evaluateExpr evaluator depth expr)).run context
    (∀ context entries between keyExpr key after bracket,
      Yields evaluator depth pairs context entries between →
      run keyExpr between = some (.ok key, after) →
        run (.subscript bracket (.dict token pairs) keyExpr) context =
          some (.ok ((lastValue? entries key.key).getD .null), after)) ∧
    (∀ context keyExpr key between entries after word,
      run keyExpr context = some (.ok key, between) →
      Yields evaluator depth pairs between entries after →
        run (.binary word .mem keyExpr (.dict token pairs)) context =
          some (.ok (.bool (decide (∃ entry ∈ entries, entry.1.key = key.key))), after)) ∧
    (∀ name dot bracket quoted,
      evaluateExpr evaluator depth (.member dot (.dict token pairs) (.name name)) =
        evaluateExpr evaluator depth
          (.subscript bracket (.dict token pairs) (.string quoted name))) ∧
    (∀ context entries after, Yields evaluator depth pairs context entries after →
      ∃ listed : List (String × Value),
        run (.dict token pairs) context = some (.ok (.map listed), after) ∧
        listed.Pairwise (fun entry later => entry.1 < later.1) ∧
        (∀ name value, (name, value) ∈ listed ↔ lastValue? entries name = some value) ∧
        (Value.map listed).display = "\x7b" ++ commaSeparated
          (listed.map fun entry => "'" ++ entry.1 ++ "': " ++ entry.2.render true) ++ "\x7d") ∧
    ∀ front back keyExpr valueExpr context before key value behind after,
      Yields evaluator depth (front ++ (keyExpr, valueExpr) :: back) context
        (before ++ (key, value) :: behind) after →
      before.length = front.length → (∃ entry ∈ behind, entry.1.key = key.key) →
        (∀ context' after', Yields evaluator depth pairs context' (before ++ behind) after' →
          (run (.dict token pairs) context').map Prod.fst =
            (run (.dict token (front ++ (keyExpr, valueExpr) :: back)) context).map Prod.fst) ∧
        (context.Within context.Past → evaluator.Keeps context.Past →
          (run (.dict token (front ++ back)) context).map Prod.fst =
            (run (.dict token (front ++ (keyExpr, valueExpr) :: back)) context).map Prod.fst) := by
  intro run
  refine ⟨fun context entries between keyExpr key after bracket hyields hkey =>
      hyields.run_subscript hkey bracket token,
    fun context keyExpr key between entries after word hkey hyields => ?_,
    fun name dot bracket quoted => evaluateExpr_member_eq_subscript dot bracket quoted name,
    fun context entries after hyields => ⟨_, hyields.run_dict token, ordered_mapOf entries,
      fun name value => mem_mapOf_iff, display_map _⟩,
    fun front back keyExpr valueExpr context before key value behind after hyields hlength hlater =>
      ⟨fun context' after' hyields' => ?_, fun hwithin hkeeps => ?_⟩⟩
  · dsimp only [run]
    rw [hyields.run_member hkey word token, List.any_eq]
    simp only [decide_eq_true_eq]
  · dsimp only [run]
    rw [hyields.run_dict, hyields'.run_dict, Option.map_some, Option.map_some,
      mapOf_append_cons before value hlater]
  · dsimp only [run]
    rw [hyields.run_dict, hyields.run_without hlength hlater hkeeps hwithin, Option.map_some]

/-- The keys of two pairs are a number and its text. -/
theorem dictionary_literals_agree_collision :
    let token : Token := ⟨.string, "1", ⟨0, 1, 1, 1⟩⟩
    let context := Context.ofBindings 0 []
    let number value : Expr Token := .integer token value
    let text : Expr Token := .string token "1"
    let pairs := [(number 1, number 2), (text, number 3)]
    let run (expr : Expr Token) := (ExceptT.run (evaluateExpr .bare 0 expr)).run context
    run (.subscript token (.dict token pairs) (number 1)) = some (.ok (.integer 3), context) ∧
      run (.binary token .mem (number 2) (.dict token pairs)) = some (.ok (.bool false), context) ∧
      (∃ listed : List (String × Value),
        run (.dict token pairs) = some (.ok (.map listed), context) ∧ ("1", .integer 3) ∈ listed) ∧
      (run (.dict token [(text, number 3)])).map Prod.fst = (run (.dict token pairs)).map Prod.fst := by
  intro token context number text pairs run
  have hyields : Yields .bare 0 pairs context [(.integer 1, .integer 2), (.string "1", .integer 3)]
      context :=
    .cons rfl rfl (.cons rfl rfl .nil)
  have hreachable : Workspace.Reachable (.create (.empty .bare) "main" []) :=
    .step (.create "main" []) (.empty .bare) nofun rfl
  obtain ⟨hsubscript, hmember, -, hlisted, -⟩ := dictionary_literals_agree .bare 0 token pairs
  obtain ⟨-, -, -, -, hwithout⟩ := dictionary_literals_agree .bare 0 token [(text, number 3)]
  refine ⟨hsubscript _ _ _ (number 1) (.integer 1) _ token hyields rfl,
    hmember _ (number 2) (.integer 2) _ _ _ token rfl hyields, ?_, ?_⟩
  · obtain ⟨listed, hrun, -, hmem, -⟩ := hlisted _ _ _ hyields
    exact ⟨listed, hrun, (hmem _ _).2 rfl⟩
  · obtain ⟨-, hissued⟩ := hwithout [] [(text, number 3)] (number 1) (number 2) context []
      (.integer 1) (.integer 2) [(.string "1", .integer 3)] context hyields rfl
      ⟨_, List.mem_singleton_self _, rfl⟩
    have hcontext : (Workspace.create (.empty .bare) "main" []).context? "main" = some context := rfl
    exact hissued (hreachable.within_past hcontext) (Evaluator.keeps_bare _)

end Evaluation

end Stencil
