import Stencil.Proofs.Call.Binding
import Stencil.Proofs.Evaluation.Repetition

/-!
# Names that are not looked up

A frame that no macro was declared in is seen only from where it is current.  What it binds under a
name that is not looked up there makes no difference, whatever the macros that are called look up.
-/

namespace Stencil

namespace Signature

variable {signature : Signature Value} {arguments : Arguments} {positional named : Bool}
  {bound bound' : Table Value} {name : String}

/-- The signature with other collections of surplus arguments. -/
def accepting (signature : Signature Value) (positional named : Bool) : Signature Value :=
  { signature with acceptsPositional := positional, acceptsNamed := named }

theorem get?_bind_accepting (hbind : signature.bind arguments = .ok bound)
    (hbind' : (signature.accepting positional named).bind arguments = .ok bound')
    (hpositional : name = surplusPositional → positional = signature.acceptsPositional)
    (hnamed : name = surplusNamed → named = signature.acceptsNamed) :
    Table.get? name bound' = Table.get? name bound := by
  obtain ⟨rfl, -⟩ := bind_eq_ok hbind
  obtain ⟨rfl, -⟩ := bind_eq_ok hbind'
  have hcollects : (signature.accepting positional named).Collects name ↔ signature.Collects name :=
    or_congr (and_congr_right fun hname => by rw [accepting, hpositional hname])
      (and_congr_right fun hname => by rw [accepting, hnamed hname])
  by_cases hname : signature.Collects name
  · rcases hname with ⟨rfl, haccepts⟩ | ⟨rfl, haccepts⟩
    · have haccepts' : (signature.accepting positional named).acceptsPositional :=
        (hpositional rfl).trans haccepts
      rw [get?_addSurplus_of_accepts_positional haccepts,
        get?_addSurplus_of_accepts_positional haccepts']
      rfl
    · have haccepts' : (signature.accepting positional named).acceptsNamed :=
        (hnamed rfl).trans haccepts
      rw [get?_addSurplus_of_accepts_named haccepts, get?_addSurplus_of_accepts_named haccepts']
      rfl
  · rw [get?_addSurplus hname, get?_addSurplus (mt hcollects.1 hname)]
    rfl

end Signature

namespace Context

variable {context base : Context} {bindings : Table Value} {name : String}

/-- The context with other bindings in its current frame. -/
def withLocals (context : Context) (bindings : Table Value) : Context :=
  match context.frames with
  | [] => { context with root := bindings }
  | frame :: below => { context with frames := { frame with bindings := bindings } :: below }

/-- Another binding of a name in the current frame, or none. -/
inductive Rebinds (context : Context) (name : String) : Context → Prop where
  | bound (value : Value) : Rebinds context name (context.define name value)
  | removed : Rebinds context name
      (context.withLocals (List.filter (fun entry => decide (entry.1 ≠ name)) context.locals))

theorem define_eq_withLocals (name : String) (value : Value) :
    context.define name value = context.withLocals (Table.insert name value context.locals) := by
  obtain ⟨identity, root, frames, nextSerial⟩ := context
  cases frames with
  | nil => rfl
  | cons frame below =>
    simp [define, bindAt, currentIndex, rebindAt, withLocals, locals, bindingsAt]

theorem Rebinds.exists_withLocals {context' : Context} (hrebinds : context.Rebinds name context') :
    ∃ bindings, context' = context.withLocals bindings ∧
      ∀ other, other ≠ name → Table.get? other bindings = Table.get? other context.locals := by
  cases hrebinds with
  | bound value =>
    exact ⟨_, define_eq_withLocals name value, fun other hne =>
      Table.get?_insert_of_ne hne value context.locals⟩
  | removed =>
    exact ⟨_, rfl, fun other hne => Table.get?_filter_of_keeps fun _ => decide_eq_true hne⟩

/-! ## One frame with other bindings -/

variable {root : Table Value} {index : Nat} {calls below : List Frame} {frame frame' : Frame}

/-- The bindings of a frame make no difference to what is seen past it. -/
theorem valueFrom?_past (hcalls : ∀ call ∈ calls, call.parent ≠ below.length + 1)
    (hindex : index ≠ below.length + 1) :
    valueFrom? root name index (calls ++ frame' :: below) =
      valueFrom? root name index (calls ++ frame :: below) := by
  induction calls generalizing index with
  | nil =>
    rw [List.nil_append, List.nil_append, valueFrom?, valueFrom?, if_neg hindex, if_neg hindex]
  | cons call calls ih =>
    obtain ⟨hcall, hcalls⟩ := List.forall_mem_cons.1 hcalls
    have hlength : (calls ++ frame' :: below).length = (calls ++ frame :: below).length := by
      rw [List.length_append, List.length_append, List.length_cons, List.length_cons]
    rw [List.cons_append, List.cons_append, valueFrom?, valueFrom?, hlength, ih hcalls hcall,
      ih hcalls hindex]

/-- Two contexts that have the same calls open, and differ in what the current frame of `base`,
below those calls, binds. -/
structure Beside (Holds : ScopeHandle → Prop) (base : Context) (bindings : Table Value)
    (calls : List Frame) (context context' : Context) : Prop where
  identity : context.identity = base.identity
  frames : context.frames = calls ++ base.frames
  other : context' = { context with frames := calls ++ (base.withLocals bindings).frames }
  parents : ∀ call ∈ calls, call.parent ≠ base.currentIndex
  within : context.Within Holds

variable {Holds : ScopeHandle → Prop} {context' : Context}

theorem withLocals_frames (hframes : base.frames = frame :: below) :
    (base.withLocals bindings).frames = { frame with bindings := bindings } :: below := by
  rw [withLocals, hframes]

theorem beside_withLocals (hroot : base.frames ≠ []) (hwithin : base.Within Holds) :
    Beside Holds base bindings [] base (base.withLocals bindings) where
  identity := rfl
  frames := rfl
  other := by
    obtain ⟨frame, below, hframes⟩ := List.exists_cons_of_ne_nil hroot
    simp [withLocals, hframes]
  parents := nofun
  within := hwithin

theorem Beside.serials (hbeside : Beside Holds base bindings calls context context') :
    context'.serials = context.serials := by
  rw [hbeside.other, Context.serials, Context.serials, hbeside.frames]
  cases hframes : base.frames with
  | nil => simp [withLocals, hframes]
  | cons frame below => simp [withLocals_frames hframes]

theorem Beside.isLive (hbeside : Beside Holds base bindings calls context context')
    (handle : ScopeHandle) : context.isLive handle = context'.isLive handle := by
  have hidentity : context'.identity = context.identity := by rw [hbeside.other]
  rw [Bool.eq_iff_iff, isLive_iff, isLive_iff, hbeside.serials, hidentity]

/-- Only the handle that was given out for a frame is live at its position. -/
theorem eq_current_of_isLive (hframes : context.frames = calls ++ base.frames)
    (hidentity : context.identity = base.identity) {handle : ScopeHandle}
    (hlive : context.isLive handle) (hindex : handle.index = base.currentIndex) :
    handle = base.current := by
  obtain ⟨hcontext, hserial⟩ := isLive_iff.1 hlive
  have hprefix : base.serials <+: context.serials := by
    rw [serials, serials, hframes, List.map_append, List.reverse_append, List.prefix_cons_inj]
    exact List.prefix_append _ _
  have hbase : context.serials[base.currentIndex]? = some base.currentSerial := by
    obtain ⟨more, hserials⟩ := hprefix
    rw [← hserials, List.getElem?_append_left (by rw [length_serials]; exact Nat.lt_succ_self _),
      getElem?_serials_currentIndex]
  rw [hindex, hbase] at hserial
  calc handle = ⟨handle.context, handle.index, handle.serial⟩ := rfl
    _ = base.current := by
      rw [current, hcontext, hidentity, hindex, Option.some.inj hserial]

theorem Beside.pushBound (hbeside : Beside Holds base bindings calls context context')
    {parent : Nat} (hparent : parent ≠ base.currentIndex) {bound : Table Value}
    (hbound : Table.Within Holds bound) :
    Beside Holds base bindings (⟨context.nextSerial, parent, bound⟩ :: calls)
      (context.pushBound parent bound) (context'.pushBound parent bound) where
  identity := hbeside.identity
  frames := congrArg _ hbeside.frames
  other := by
    rw [hbeside.other]
    rfl
  parents := List.forall_mem_cons.2 ⟨hparent, hbeside.parents⟩
  within := hbeside.within.pushBound parent hbound

theorem Beside.pop {call : Frame}
    (hbeside : Beside Holds base bindings (call :: calls) context context') :
    Beside Holds base bindings calls context.pop context'.pop where
  identity := hbeside.identity
  frames := congrArg List.tail hbeside.frames
  other := by
    rw [hbeside.other]
    rfl
  parents := (List.forall_mem_cons.1 hbeside.parents).2
  within := hbeside.within.pop

end Context

namespace Evaluation

open Context

variable {evaluator : Evaluator} {Holds : ScopeHandle → Prop} {base : Context}
  {bindings : Table Value} {depth : Nat}

section

theorem opens_beside (hfresh : ¬Holds base.current) (calls : List Frame) :
    Opens (Beside Holds base bindings calls)
      (fun calls : Frame × List Frame => Beside Holds base bindings (calls.1 :: calls.2))
      Holds where
  isLive _ _ hbeside handle _ := hbeside.isLive handle
  opened _ _ hbeside handle hholds hlive bound hbound := by
    have hparent : handle.index ≠ base.currentIndex := fun hindex =>
      hfresh (eq_current_of_isLive hbeside.frames hbeside.identity hlive hindex ▸ hholds)
    exact ⟨(_, calls), hbeside.pushBound hparent hbound, fun _ _ => Beside.pop⟩

theorem nests_beside (hfresh : ¬Holds base.current) :
    Nests (fun calls : Frame × List Frame => Beside Holds base bindings (calls.1 :: calls.2))
      Holds where
  isLive calls := (opens_beside hfresh (calls.1 :: calls.2)).isLive
  opened calls := (opens_beside hfresh (calls.1 :: calls.2)).opened

theorem fair_beside (hkeeps : evaluator.Keeps Holds) (calls : List Frame) :
    (Coupling.mk (Beside Holds base bindings calls) Holds Eq).Fair evaluator id where
  keeps := hkeeps
  refl _ := rfl
  moved _ _ := rfl
  text _ := rfl

variable (hroot : base.frames ≠ [])
include hroot

/-- In the body of a macro every name means the same. -/
theorem lawful_beside (hkeeps : evaluator.Keeps Holds) (calls : Frame × List Frame) :
    (Coupling.mk (Beside Holds base bindings (calls.1 :: calls.2)) Holds Eq).Lawful
      evaluator id where
  toFair := fair_beside hkeeps _
  get? context context' hbeside name := by
    obtain ⟨call, calls⟩ := calls
    obtain ⟨frame, below, hframes⟩ := List.exists_cons_of_ne_nil hroot
    have hcurrent : base.currentIndex = below.length + 1 := by
      rw [currentIndex, hframes, List.length_cons]
    have hparents := hbeside.parents
    rw [hcurrent] at hparents
    refine ⟨?_, fun value hvalue => hbeside.within.get? hvalue⟩
    rw [get?_eq_valueFrom?, get?_eq_valueFrom?, hbeside.other, currentIndex, currentIndex,
      hbeside.frames, withLocals_frames hframes, hframes]
    have hlength (frame : Frame) :
        (call :: calls ++ frame :: below).length = calls.length + below.length + 2 := by
      simp
      omega
    rw [hlength, hlength]
    exact (valueFrom?_past hparents (by omega)).symm

/-- Where the frame is current, the names that are bound there as before mean the same. -/
theorem shares_beside {name : String}
    (hname : Table.get? name bindings = Table.get? name base.locals) :
    (Coupling.mk (Beside Holds base bindings []) Holds Eq).Shares name := by
  intro context context' hbeside
  obtain ⟨frame, below, hframes⟩ := List.exists_cons_of_ne_nil hroot
  refine ⟨?_, fun value hvalue => hbeside.within.get? hvalue⟩
  have hlocals : base.locals = frame.bindings := by
    simp [locals, bindingsAt, currentIndex, hframes]
  rw [get?_eq_valueFrom?, get?_eq_valueFrom?, hbeside.other, currentIndex, currentIndex,
    hbeside.frames, withLocals_frames hframes, hframes, List.nil_append, List.nil_append,
    List.length_cons, List.length_cons, valueFrom?_cons_length, valueFrom?_cons_length, hname,
      hlocals]

variable (hkeeps : evaluator.Keeps Holds) (hfresh : ¬Holds base.current)
include hkeeps hfresh

theorem couples_invoke_beside (bindings : Table Value) (depth : Nat) (call : MacroCall)
    (hcall : call.Within Holds) :
    (Coupling.mk (Beside Holds base bindings []) Holds Eq).Couples (Value.Within Holds)
      (invoke evaluator depth call) (invoke evaluator depth call) :=
  couples_invoke_of_opens (lawful_beside hroot hkeeps) (nests_beside hfresh)
    (opens_beside hfresh []) depth hcall

variable (hwithin : base.Within Holds) (depth : Nat)
include hwithin

theorem evaluateExpr_withLocals {expr : Expr Token}
    (hnames : ∀ name ∈ expr.names, Table.get? name bindings = Table.get? name base.locals) :
    ((ExceptT.run (evaluateExpr evaluator depth expr)).run
        (base.withLocals bindings)).map Prod.fst =
      ((ExceptT.run (evaluateExpr evaluator depth expr)).run base).map Prod.fst := by
  have hcouples := couples_evaluate_of_names (fair_beside hkeeps [])
    (couples_invoke_beside hroot hkeeps hfresh bindings depth)
    fun name hname => shares_beside hroot (hnames name hname)
  rw [Expr.mapMarks_id] at hcouples
  exact (map_fst_eq_of_tiedOutcome (hcouples (beside_withLocals hroot hwithin))
    fun _ _ => eq_of_sameResult).symm

theorem executeBody_withLocals (written : String) {body : List (Node Token)}
    (hnames : ∀ node ∈ body, ∀ name ∈ node.names,
      Table.get? name bindings = Table.get? name base.locals) :
    ((executeBody evaluator depth written body).run (base.withLocals bindings)).map Prod.fst =
      ((executeBody evaluator depth written body).run base).map Prod.fst := by
  have htied := tied_execute_of_names (fair_beside hkeeps [])
    (couples_invoke_beside hroot hkeeps hfresh bindings depth) written
    fun node hnode name hname => shares_beside hroot (hnames node hnode name hname)
  exact (map_fst_eq_of_tiedOutcome (htied (beside_withLocals hroot hwithin))
    fun _ _ => eq_of_sameOutput).symm

end

/-! ## Surplus arguments -/

section

variable {context : Context} {call : MacroCall} {positional named : Bool}
  {bound bound' : Table Value} (hkeeps : evaluator.Keeps Holds) (hwithin : context.Within Holds)
  (hfresh : ¬Holds (context.push call.scope.index).current)
include hkeeps hwithin hfresh

theorem invoke_accepting (hcall : call.Within Holds)
    (hpositional : call.definition.references surplusPositional →
      positional = call.signature.acceptsPositional)
    (hnamed : call.definition.references surplusNamed → named = call.signature.acceptsNamed)
    (hbind : call.signature.bind call.arguments = .ok bound)
    (hbind' : (call.signature.accepting positional named).bind call.arguments = .ok bound') :
    ((ExceptT.run (invoke evaluator depth
        { call with signature := call.signature.accepting positional named })).run context).map
          Prod.fst =
      ((ExceptT.run (invoke evaluator depth call)).run context).map Prod.fst := by
  cases depth with
  | zero => rfl
  | succ depth =>
    have hbound : Table.Within Holds (Table.ofList bound) :=
      Table.within_nil.insertAll (Signature.within_bind hcall.defaults hcall.arguments hbind)
    have hnames : ∀ node ∈ call.definition.body, ∀ name ∈ node.names,
        Table.get? name (Table.ofList bound') = Table.get? name (Table.ofList bound) := by
      intro node hnode name hname
      have hreferences : call.definition.references name :=
        Macro.references_iff.2 ⟨node, hnode, hname⟩
      rw [Table.get?_ofList (Signature.ordered_bind hbind).nodup_names,
        Table.get?_ofList (Signature.ordered_bind hbind').nodup_names]
      apply Signature.get?_bind_accepting hbind hbind'
      · rintro rfl
        exact hpositional hreferences
      · rintro rfl
        exact hnamed hreferences
    have hlocals : (context.pushBound call.scope.index (Table.ofList bound)).locals =
        Table.ofList bound := by
      simp [locals, bindingsAt, pushBound, currentIndex]
    have hcurrent : ¬Holds (context.pushBound call.scope.index (Table.ofList bound)).current :=
      hfresh
    have hbody := executeBody_withLocals (List.cons_ne_nil _ _) hkeeps hcurrent
      (hwithin.pushBound call.scope.index hbound) depth "" (hlocals ▸ hnames)
    rw [invoke, run_callMacro, invoke, run_callMacro]
    dsimp only
    rw [hbind, hbind']
    split
    · rw [map_fst_bodyResult, map_fst_bodyResult]
      exact congrArg _ hbody
    · rfl

end

/-- In a frame that is not the scope of any macro, a name may be bound, bound again or removed: the
expressions and bodies that do not reference it have the same outcome, whatever the macros they call
look up.  In the same way, a macro that references neither collection of surplus arguments has the
same outcome whether they are bound or not. -/
theorem unreferenced_name_is_not_observed {evaluator : Evaluator} {Holds : ScopeHandle → Prop}
    {context : Context} (hkeeps : evaluator.Keeps Holds) (hwithin : context.Within Holds)
    (depth : Nat) :
    (context.isAtRoot = false → ¬Holds context.current →
      ∀ name context', context.Rebinds name context' →
        (∀ expr, expr.references name = false →
          ((ExceptT.run (evaluateExpr evaluator depth expr)).run context').map Prod.fst =
            ((ExceptT.run (evaluateExpr evaluator depth expr)).run context).map Prod.fst) ∧
        ∀ body, (∀ node ∈ body, node.references name = false) →
          (∀ written, ((executeBody evaluator depth written body).run context').map Prod.fst =
            ((executeBody evaluator depth written body).run context).map Prod.fst) ∧
          ((ExceptT.run (renderBody evaluator depth body)).run context').map Prod.fst =
            ((ExceptT.run (renderBody evaluator depth body)).run context).map Prod.fst) ∧
    ∀ call : MacroCall, call.Within Holds → ¬Holds (context.push call.scope.index).current →
      ∀ positional named,
        (call.definition.references surplusPositional →
          positional = call.signature.acceptsPositional) →
        (call.definition.references surplusNamed → named = call.signature.acceptsNamed) →
        ∀ bound bound', call.signature.bind call.arguments = .ok bound →
          (call.signature.accepting positional named).bind call.arguments = .ok bound' →
            ((ExceptT.run (invoke evaluator depth
                { call with signature := call.signature.accepting positional named })).run
                  context).map Prod.fst =
              ((ExceptT.run (invoke evaluator depth call)).run context).map Prod.fst := by
  refine ⟨fun hroot hfresh name context' hrebinds => ?_, fun call hcall hfresh positional named
    hpositional hnamed bound bound' hbind hbind' =>
      invoke_accepting hkeeps hwithin hfresh hcall hpositional hnamed hbind hbind'⟩
  have hframes : context.frames ≠ [] := List.isEmpty_eq_false_iff.1 hroot
  obtain ⟨bindings, rfl, hbindings⟩ := hrebinds.exists_withLocals
  refine ⟨fun expr hexpr => ?_, fun body hbody => ?_⟩
  · refine evaluateExpr_withLocals hframes hkeeps hfresh hwithin depth fun other hother => ?_
    apply hbindings
    rintro rfl
    exact Bool.false_ne_true (hexpr.symm.trans (Expr.references_iff.2 hother))
  · have houtput (written : String) :
        ((executeBody evaluator depth written body).run
            (context.withLocals bindings)).map Prod.fst =
          ((executeBody evaluator depth written body).run context).map Prod.fst := by
      refine executeBody_withLocals hframes hkeeps hfresh hwithin depth written
        fun node hnode other hother => ?_
      apply hbindings
      rintro rfl
      exact Bool.false_ne_true ((hbody node hnode).symm.trans (Node.references_iff.2 hother))
    refine ⟨houtput, ?_⟩
    rw [map_fst_renderBody, map_fst_renderBody, houtput]

/-- A macro that is declared at the root and takes no arguments. -/
def signCall : MacroCall where
  definition := ⟨"sign", [], [], [.output (.name ⟨.name, "greeting", ⟨0, 8, 1, 1⟩⟩ "greeting")]⟩
  signature := ⟨[], [], false, false⟩
  scope := ⟨0, 0, 0⟩
  arguments := {}

/-- Neither a binding of another name nor the collections of surplus arguments show. -/
theorem unreferenced_name_is_not_observed_greeting :
    ((ExceptT.run (evaluateExpr .bare 1
        (.name ⟨.name, "greeting", ⟨0, 8, 1, 1⟩⟩ "greeting"))).run
      ((Context.ofBindings 0 [("greeting", .string "hi")]).inherit.define "secret"
        (.integer 1))).map Prod.fst = some (.ok (.string "hi")) ∧
    ((ExceptT.run (invoke .bare 1 { signCall with
        signature := signCall.signature.accepting true true })).run
      (Context.ofBindings 0 [("greeting", .string "hi")]).inherit).map Prod.fst =
        some (.ok (.safe "hi")) := by
  let context := (Context.ofBindings 0 [("greeting", .string "hi")]).inherit
  let Holds (handle : ScopeHandle) : Prop := handle.index = 0
  have hroot : (Context.ofBindings 0 [("greeting", .string "hi")]).Within Holds :=
    ⟨List.forall_mem_singleton.2 (Value.within_of_isPlain rfl), nofun⟩
  have hwithin : context.Within Holds := hroot.push 0
  obtain ⟨hframe, hcalls⟩ :=
    unreferenced_name_is_not_observed (Evaluator.keeps_bare Holds) hwithin 1
  obtain ⟨hexpr, -⟩ := hframe rfl Nat.one_ne_zero "secret" _ (.bound (.integer 1))
  have hcall : signCall.Within Holds := ⟨rfl, nofun, Arguments.within_empty⟩
  have hreferences : signCall.definition.references surplusPositional = false ∧
      signCall.definition.references surplusNamed = false := by decide
  exact ⟨(hexpr _ (by decide)).trans rfl,
    (hcalls signCall hcall (Nat.succ_ne_zero 1) true true (by simp [hreferences])
      (by simp [hreferences]) _ _ rfl rfl).trans rfl⟩

end Evaluation

end Stencil
